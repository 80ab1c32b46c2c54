/-
  Lib.Checked — computations that may stop on a fault.

  A C++ routine either returns or stops: an assertion fails, an array is accessed
  outside its storage, a signed sum overflows, raw storage is read as an object, or a
  loop never ends. Loops whose end is not evident from their text carry a bound, and
  running out of it is the fault `outOfFuel`.
-/
import Mathlib.Tactic.Common

namespace Peos2.Lib

/-- The ways a routine can stop without returning. -/
inductive Fault where
  /-- A failed assertion, with the text of its condition. -/
  | assertion (what : String)
  /-- An access outside the storage of an array. -/
  | outOfBounds
  /-- A signed sum outside the range of `int`. -/
  | overflow
  /-- Storage read as an object before one was constructed in it. -/
  | uninitialised
  /-- The bound put on a loop ran out before the loop ended. -/
  | outOfFuel
  deriving Repr, DecidableEq

/-- The result of a routine that may stop on a fault. -/
abbrev Checked (α : Type) := Except Fault α

/-- `assert(cond)`. -/
def check (cond : Bool) (what : String) : Checked Unit :=
  if cond then .ok () else .error (.assertion what)

variable {α β : Type}

/-! ## Sequencing -/

@[simp] theorem ok_bind (a : α) (f : α → Checked β) : ((Except.ok a : Checked α) >>= f) = f a := rfl

@[simp] theorem error_bind (e : Fault) (f : α → Checked β) :
    ((Except.error e : Checked α) >>= f) = .error e := rfl

variable {x : Checked α}

theorem bind_ok {f : α → Checked β} {b : β} : (x >>= f) = .ok b ↔ ∃ a, x = .ok a ∧ f a = .ok b := by
  cases x with
  | error e => simp
  | ok a => simp

theorem returns_bind {f : α → β} : (∃ b, (x >>= fun a => .ok (f a)) = .ok b) ↔ ∃ a, x = .ok a := by
  cases x with
  | error e => simp
  | ok a => simp

theorem map_ok {f : α → β} {b : β} : x.map f = .ok b ↔ ∃ a, x = .ok a ∧ f a = b := by
  cases x with
  | error e => simp [Except.map]
  | ok a => simp [Except.map]

/-! ## Assertions -/

@[simp] theorem check_true (what : String) : check true what = .ok () := rfl

@[simp] theorem check_false (what : String) : check false what = .error (.assertion what) := rfl

theorem check_ok {cond : Bool} {what : String} {u : Unit} :
    check cond what = .ok u ↔ cond = true := by
  cases cond <;> simp

end Peos2.Lib
