/-
  Net.Retryable — `retryable` (`libraries/net/retryable.h`).

  An operation that is repeated, with longer and longer pauses, until there is a result
  or it has been repeated too often. Callbacks are all invoked when the result is known.

  The timer is an `int`, and nothing keeps it in range: resetting the object while its
  pauses grow doubles `_last_delta` more often than it halves it. What an operation
  yields whose result does not fit an `int` is a parameter: any value, or none at all.
-/
import Peos2.Support.Pool

namespace Peos2.Net

open Peos2.Lib Peos2.Support

/-! ## The class -/

/-- The result `x` of an operation on `int`; `overflow` is what happens to one
that does not fit. -/
def intResult (overflow : Int → Checked Int) (x : Int) : Checked Int :=
  if -2147483648 ≤ x ∧ x < 2147483648 then .ok x else overflow x

/-- `retryable<_Result>`, with an operation `_fun` given by a `φ` and callbacks
given by `κ`. -/
structure Retryable (φ κ : Type) where
  operation : φ
  waiters : Pool κ 32 0xFFFF
  lastDelta : Int
  retryTimer : Int
  retries : Int

namespace Retryable

variable {φ κ ρ : Type}

/-- `retryable(op_fun fun, int retry_ms = 200)` -/
def new (operation : φ) : Retryable φ κ := ⟨operation, .blank, 200, 0, 0⟩

/-- `bool tick(int dt)`: whether it goes on, and the operation if it is called. -/
def tick (overflow : Int → Checked Int) (r : Retryable φ κ) (dt : Int) :
    Checked (Bool × Option φ × Retryable φ κ) := do
  let timer ← intResult overflow (r.retryTimer - dt)
  if timer ≤ 0 then
    let retries ← intResult overflow (r.retries + 1)
    if r.retries > 4 then .ok (false, none, { r with retryTimer := timer, retries })
    else
      let delta ← intResult overflow (r.lastDelta * 2)
      .ok (true, some r.operation,
        { r with retryTimer := delta, lastDelta := delta, retries })
  else .ok (true, none, { r with retryTimer := timer })

/-- `void reset()` -/
def reset (r : Retryable φ κ) : Retryable φ κ :=
  { r with retryTimer := r.retryTimer.tdiv 2, lastDelta := r.lastDelta.tdiv 2, retries := 0 }

/-- `void notify_all(const _Result &result)`: the callbacks that are invoked. -/
def notifyAll (r : Retryable φ κ) (result : ρ) : Checked (List (κ × ρ)) := do
  let waiters ← r.waiters.indices.mapM r.waiters.get
  .ok (waiters.map fun waiter => (waiter, result))

/-- `void await(const await_fun &fun)` -/
def await (r : Retryable φ κ) (callback : κ) : Checked (Retryable φ κ) := do
  let (_, waiters) ← r.waiters.emplaceAnywhere callback
  .ok { r with waiters }

/-- The object gives up within a number of ticks of `dt`. -/
inductive GivesUp (overflow : Int → Checked Int) (dt : Int) : Retryable φ κ → Prop
  | now {r r' : Retryable φ κ} {called : Option φ} :
      r.tick overflow dt = .ok (false, called, r') → GivesUp overflow dt r
  | later {r r' : Retryable φ κ} {called : Option φ} :
      r.tick overflow dt = .ok (true, called, r') → GivesUp overflow dt r' →
      GivesUp overflow dt r

/-! ## What the functions do -/

variable {overflow : Int → Checked Int} {r r' : Retryable φ κ} {c : κ}

theorem intResult_spec (overflow : Int → Checked Int) (x : Int) :
    (∃ y, intResult overflow x = .ok y) ∨
    (∃ e, overflow x = .error e ∧ intResult overflow x = .error e) := by
  unfold intResult
  split
  · exact .inl ⟨x, rfl⟩
  · cases hover : overflow x with
    | ok y => exact .inl ⟨y, rfl⟩
    | error e => exact .inr ⟨e, rfl, rfl⟩

/-- A tick leaves the callbacks alone. -/
theorem tick_spec (overflow : Int → Checked Int) (r : Retryable φ κ) (dt : Int) :
    (∃ alive called r', r.tick overflow dt = .ok (alive, called, r') ∧ r'.waiters = r.waiters) ∨
    (∃ x e, overflow x = .error e ∧ r.tick overflow dt = .error e) := by
  unfold tick
  rcases intResult_spec overflow (r.retryTimer - dt) with ⟨timer, htimer⟩ | ⟨e, hover, htimer⟩
  · rw [htimer, ok_bind]
    by_cases hdue : timer ≤ 0
    · rw [if_pos hdue]
      rcases intResult_spec overflow (r.retries + 1) with ⟨n, hn⟩ | ⟨e, hover, hn⟩
      · rw [hn, ok_bind]
        by_cases hmany : r.retries > 4
        · rw [if_pos hmany]
          exact .inl ⟨_, _, _, rfl, rfl⟩
        rw [if_neg hmany]
        rcases intResult_spec overflow (r.lastDelta * 2) with ⟨d, hd⟩ | ⟨e, hover, hd⟩
        · rw [hd, ok_bind]
          exact .inl ⟨_, _, _, rfl, rfl⟩
        · rw [hd]
          exact .inr ⟨_, e, hover, rfl⟩
      · rw [hn]
        exact .inr ⟨_, e, hover, rfl⟩
    · rw [if_neg hdue]
      exact .inl ⟨_, _, _, rfl, rfl⟩
  · rw [htimer]
    exact .inr ⟨_, e, hover, rfl⟩

theorem tick_new {operation : φ} {waiters : Pool κ 32 0xFFFF} :
    ({ (new operation : Retryable φ κ) with waiters }).tick overflow 0
      = .ok (true, some operation, ⟨operation, waiters, 400, 400, 1⟩) := rfl

/-- Every callback is invoked with the result, in the order of the pool. -/
theorem notifyAll_spec (hwf : r.waiters.WF) (result : ρ) :
    r.notifyAll result = .ok (r.waiters.values.map fun waiter => (waiter, result)) := by
  rw [notifyAll, hwf.mapM_get, ok_bind]

theorem await_spec (hwf : r.waiters.WF) (hroom : r.waiters.full = false) (c : κ) :
    ∃ r', r.await c = .ok r' := by
  obtain ⟨i, waiters, hput, _⟩ := Pool.emplaceAnywhere_spec hwf hroom c
  exact ⟨{ r with waiters }, by rw [await, hput, ok_bind]⟩

theorem await_full (hwf : r.waiters.WF) (hfull : r.waiters.full = true) (c : κ) :
    r.await c = .error (.assertion "_data_begin + idx < _data_end") := by
  rw [await, Pool.emplaceAnywhere_full hwf hfull, error_bind]

theorem await_ok (hwf : r.waiters.WF) (h : r.await c = .ok r') :
    r'.waiters.WF ∧ r'.waiters.values.Perm (c :: r.waiters.values) ∧
      r' = { r with waiters := r'.waiters } := by
  rw [await, bind_ok] at h
  obtain ⟨⟨i, waiters⟩, hput, h⟩ := h
  cases h
  obtain ⟨_, hwf', _⟩ := Pool.emplaceAnywhere_ok hwf hput
  exact ⟨hwf', Pool.values_emplaceAnywhere hwf hput, rfl⟩

end Retryable

end Peos2.Net
