/-
  Kernel.WaitList — the entries of a condition variable.

  An entry of the variable is that of a process in `wait`, or a notification has
  still to erase it, whatever else runs.
-/
import Peos2.Kernel.Locks

namespace Peos2.Kernel.Locks

open Peos2.Lib Peos2.Support Option

def Call.slot : Call → Nat
  | .wait idx _ => idx
  | .notify _ idx _ => idx

/-- The slot a call has notified and has still to erase. -/
def Call.erases : Call → Option Nat
  | .wait _ _ => none
  | .notify _ idx _ => some idx

namespace ConditionVariable

variable {maxWaiters : Nat} {c c' : ConditionVariable maxWaiters} {pid : Nat}

/-! ## Entries and those who refer to them -/

/-- The slot holds the entry of that generation, made by `pid`. -/
def Entry (c : ConditionVariable maxWaiters) (idx generation pid : Nat) : Prop :=
  c.waitingProcs.lookup idx = some pid ∧ c.generation idx = generation

/-- The slot that `pid` has notified and has still to erase. -/
def notified (c : ConditionVariable maxWaiters) (pid : Nat) : Option Nat :=
  (c.calls pid).bind Call.erases

def InFlight (c : ConditionVariable maxWaiters) (idx : Nat) : Prop :=
  ∃ pid, c.notified pid = some idx

variable {idx g : Nat}

theorem notified_eq_some :
    c.notified pid = some idx ↔ ∃ all g, c.calls pid = some (.notify all idx g) := by
  unfold notified
  constructor
  · intro h
    obtain ⟨call, hcall, herases⟩ := bind_eq_some_iff.mp h
    cases call with
    | wait i g => cases herases
    | notify all i g =>
      cases herases
      exact ⟨all, g, hcall⟩
  · intro ⟨all, g, hcall⟩
    rw [hcall]
    rfl

@[simp] theorem calls_setCall (call : Option Call) : (c.setCall pid call).calls pid = call :=
  storeAt_self c.calls pid call

theorem calls_setCall_ne {j : Nat} (call : Option Call) (h : j ≠ pid) :
    (c.setCall pid call).calls j = c.calls j := storeAt_ne c.calls call h

theorem calls_of_setCall {call : Option Call} {j : Nat} {d : Call}
    (h : (c.setCall pid call).calls j = some d) (hne : call ≠ some d) :
    j ≠ pid ∧ c.calls j = some d := by
  have hj : j ≠ pid := by
    intro heq
    rw [heq, calls_setCall] at h
    exact hne h
  rw [calls_setCall_ne call hj] at h
  exact ⟨hj, h⟩

theorem ne_of_calls {j : Nat} {d : Call} (hfree : c.calls pid = none) (h : c.calls j = some d) :
    j ≠ pid := by
  intro heq
  rw [heq, hfree] at h
  cases h

theorem inFlight_setCall {call : Option Call} :
    (c.setCall pid call).InFlight idx ↔
      call.bind Call.erases = some idx ∨ ∃ j, j ≠ pid ∧ c.notified j = some idx := by
  unfold InFlight notified
  constructor
  · intro ⟨j, hj⟩
    by_cases hjp : j = pid
    · rw [hjp, calls_setCall] at hj
      exact .inl hj
    · rw [calls_setCall_ne call hjp] at hj
      exact .inr ⟨j, hjp, hj⟩
  · intro h
    rcases h with hself | ⟨j, hjp, hj⟩
    · exact ⟨pid, by rw [calls_setCall]; exact hself⟩
    · exact ⟨j, by rw [calls_setCall_ne call hjp]; exact hj⟩

theorem inFlight_iff_others (hfree : c.calls pid = none) :
    (∃ j, j ≠ pid ∧ c.notified j = some idx) ↔ c.InFlight idx := by
  constructor
  · intro ⟨j, _, hj⟩
    exact ⟨j, hj⟩
  · intro ⟨j, hj⟩
    obtain ⟨_, _, hcall⟩ := notified_eq_some.mp hj
    exact ⟨j, ne_of_calls hfree hcall, hj⟩

theorem apart_setCall {call : Option Call}
    (hapart : ∀ j j' i, c.notified j = some i → c.notified j' = some i → j = j')
    (hnew : ∀ i, call.bind Call.erases = some i → ∀ j, j ≠ pid → c.notified j ≠ some i) :
    ∀ j j' i, (c.setCall pid call).notified j = some i →
      (c.setCall pid call).notified j' = some i → j = j' := by
  have hself : (c.setCall pid call).notified pid = call.bind Call.erases := by
    unfold notified
    rw [calls_setCall]
  have hother : ∀ j, j ≠ pid → (c.setCall pid call).notified j = c.notified j := by
    intro j hj
    unfold notified
    rw [calls_setCall_ne call hj]
  intro j j' i hj hj'
  by_cases hjp : j = pid
  · by_cases hjp' : j' = pid
    · rw [hjp, hjp']
    · rw [hjp, hself] at hj
      rw [hother j' hjp'] at hj'
      exact absurd hj' (hnew i hj j' hjp')
  rw [hother j hjp] at hj
  by_cases hjp' : j' = pid
  · rw [hjp', hself] at hj'
    exact absurd hj (hnew i hj' j hjp)
  · rw [hother j' hjp'] at hj'
    exact hapart j j' i hj hj'

structure Consistent (c : ConditionVariable maxWaiters) : Prop where
  pool : c.waitingProcs.WF
  /-- Who is in `wait` has an entry, as long as nobody has notified it. -/
  waits : ∀ pid idx g, c.calls pid = some (.wait idx g) → ¬ c.InFlight idx → c.Entry idx g pid
  /-- The entry that was notified is still there. -/
  notifying : ∀ pid all idx g, c.calls pid = some (.notify all idx g) → ∃ p, c.Entry idx g p
  apart : ∀ pid pid' idx, c.notified pid = some idx → c.notified pid' = some idx → pid = pid'
  entries : ∀ idx pid, c.waitingProcs.lookup idx = some pid →
    c.InFlight idx ∨ ∃ g, c.calls pid = some (.wait idx g)

section

variable (h : c.Consistent)

include h

theorem Consistent.lookup_of_inFlight (hin : c.InFlight idx) :
    ∃ p, c.waitingProcs.lookup idx = some p := by
  obtain ⟨pid, hn⟩ := hin
  obtain ⟨all, g, hcall⟩ := notified_eq_some.mp hn
  obtain ⟨p, hentry, _⟩ := h.notifying pid all idx g hcall
  exact ⟨p, hentry⟩

theorem Consistent.lookup_of_wait (hcall : c.calls pid = some (.wait idx g)) :
    ∃ p, c.waitingProcs.lookup idx = some p := by
  by_cases hin : c.InFlight idx
  · exact h.lookup_of_inFlight hin
  · exact ⟨pid, (h.waits pid idx g hcall hin).1⟩

/-! ## A new entry -/

theorem Consistent.enter (hfree : c.calls pid = none)
    (hcall : c.enter pid = .ok c') :
    c'.Consistent ∧ (∀ i, c'.InFlight i ↔ c.InFlight i) ∧ (∀ j, j ≠ pid → c'.calls j = c.calls j) ∧
      ∃ idx g, c'.calls pid = some (.wait idx g) ∧ ¬ c.InFlight idx := by
  rw [ConditionVariable.enter, bind_ok] at hcall
  obtain ⟨⟨idx, waitingProcs⟩, hput, hcall⟩ := hcall
  cases hcall
  obtain ⟨_, hwf, hfresh, hl⟩ := Pool.emplaceAnywhere_ok h.pool hput
  generalize hc1 : ({ c with
    waitingProcs, generation := storeAt c.generation idx (c.generation idx + 1) } :
      ConditionVariable maxWaiters) = c1
  have hcalls1 : c1.calls = c.calls := hc1 ▸ rfl
  have hlook1 : ∀ i, c1.waitingProcs.lookup i =
      if i = idx then some pid else c.waitingProcs.lookup i := hc1 ▸ hl
  have hgen1 : c1.generation = storeAt c.generation idx (c.generation idx + 1) := hc1 ▸ rfl
  have hslot : ¬ c.InFlight idx := by
    intro hin
    obtain ⟨p, hp⟩ := h.lookup_of_inFlight hin
    rw [hfresh] at hp
    cases hp
  have hin : ∀ {call : Call}, call.erases = none →
      ∀ i, (c1.setCall pid (some call)).InFlight i ↔ c.InFlight i := by
    intro call hcall i
    rw [inFlight_setCall, ← inFlight_iff_others hfree]
    unfold notified
    rw [hcalls1, bind_some, hcall]
    exact or_iff_right (by simp)
  -- an entry that was there is not in this slot
  have hentry : ∀ i g p, c.Entry i g p → c1.Entry i g p := by
    intro i g p ⟨hlook, hg⟩
    have hi : i ≠ idx := by
      intro heq
      rw [heq, hfresh] at hlook
      cases hlook
    unfold Entry
    rw [hlook1, if_neg hi, hgen1, storeAt_ne _ _ hi]
    exact ⟨hlook, hg⟩
  have hother : ∀ {call : Option Call} {j : Nat}, j ≠ pid →
      (c1.setCall pid call).calls j = c.calls j := by
    intro call j hj
    rw [calls_setCall_ne call hj, hcalls1]
  refine ⟨⟨hc1 ▸ hwf, ?_, ?_, ?_, ?_⟩, hin rfl, fun j => hother, idx, _, calls_setCall _, hslot⟩
  · intro j i g hj hno
    by_cases hjp : j = pid
    · rw [hjp, calls_setCall] at hj
      cases hj
      refine ⟨?_, ?_⟩
      · show c1.waitingProcs.lookup _ = _
        rw [hlook1, if_pos rfl, hjp]
      · show c1.generation _ = _
        rw [hgen1, storeAt_self]
    · rw [hother hjp] at hj
      rw [hin rfl] at hno
      exact hentry i g j (h.waits j i g hj hno)
  · intro j all i g hj
    obtain ⟨_, hj⟩ := calls_of_setCall hj (by simp)
    rw [hcalls1] at hj
    obtain ⟨p, hp⟩ := h.notifying j all i g hj
    exact ⟨p, hentry i g p hp⟩
  · apply apart_setCall
    · unfold notified
      rw [hcalls1]
      exact h.apart
    · intro i hi
      cases hi
  · intro i p hp
    rw [hin rfl]
    by_cases hi : i = idx
    · have hpid : some p = some pid := hp.symm.trans ((hlook1 i).trans (if_pos hi))
      right
      rw [some.inj hpid, calls_setCall, hi]
      exact ⟨_, rfl⟩
    have hp : c.waitingProcs.lookup i = some p := by
      rw [← hp]
      exact ((hlook1 i).trans (if_neg hi)).symm
    rcases h.entries i p hp with hflight | ⟨g, hg⟩
    · exact .inl hflight
    · right
      rw [hother (ne_of_calls hfree hg)]
      exact ⟨g, hg⟩

/-! ## Notifying -/

theorem Consistent.notify (hfree : c.calls pid = none) {p : Nat}
    (hlook : c.waitingProcs.lookup idx = some p) (hno : ¬ c.InFlight idx) (all : Bool) :
    Consistent (c.setCall pid (some (.notify all idx (c.generation idx)))) ∧
      ∀ i, (c.setCall pid (some (.notify all idx (c.generation idx)))).InFlight i ↔
        c.InFlight i ∨ i = idx := by
  have hin : ∀ i, (c.setCall pid (some (.notify all idx (c.generation idx)))).InFlight i ↔
      c.InFlight i ∨ i = idx := by
    intro i
    rw [inFlight_setCall, inFlight_iff_others hfree, or_comm, bind_some]
    unfold Call.erases
    rw [some.injEq, eq_comm]
  refine ⟨⟨h.pool, ?_, ?_, apart_setCall h.apart ?_, ?_⟩, hin⟩
  · intro j i g hj hnot
    rw [hin] at hnot
    obtain ⟨_, hj⟩ := calls_of_setCall hj (by simp)
    exact h.waits j i g hj (fun hflight => hnot (.inl hflight))
  · intro j all' i g hj
    by_cases hjp : j = pid
    · rw [hjp, calls_setCall] at hj
      cases hj
      exact ⟨p, hlook, rfl⟩
    · rw [calls_setCall_ne _ hjp] at hj
      exact h.notifying j all' i g hj
  · intro i hi j _ hj
    cases hi
    exact hno ⟨j, hj⟩
  · intro i q hq
    rw [hin]
    rcases h.entries i q hq with hflight | ⟨g, hg⟩
    · exact .inl (.inl hflight)
    · right
      rw [calls_setCall_ne _ (ne_of_calls hfree hg)]
      exact ⟨g, hg⟩

/-! ## The end of a call -/

theorem Consistent.finish {call : Call}
    {waitingProcs : Pool Nat maxWaiters 0xFFFF} (hcall : c.calls pid = some call)
    (hwf : waitingProcs.WF)
    (hl : ∀ i, i ≠ call.slot → waitingProcs.lookup i = c.waitingProcs.lookup i)
    (hslot : (waitingProcs.lookup call.slot = none ∧
        ∀ j, j ≠ pid → c.notified j ≠ some call.slot) ∨
      (waitingProcs.lookup call.slot = c.waitingProcs.lookup call.slot ∧
        ∃ j, j ≠ pid ∧ c.notified j = some call.slot))
    (hnobody : ∀ j g, j ≠ pid → c.calls j ≠ some (.wait call.slot g)) :
    Consistent ({ c with waitingProcs }.setCall pid none) ∧
      ∀ i, ({ c with waitingProcs }.setCall pid none : ConditionVariable maxWaiters).InFlight i →
        c.InFlight i := by
  generalize hc1 : ({ c with waitingProcs } : ConditionVariable maxWaiters) = c1
  have hcalls1 : c1.calls = c.calls := hc1 ▸ rfl
  have hpool1 : c1.waitingProcs = waitingProcs := hc1 ▸ rfl
  have hgen1 : c1.generation = c.generation := hc1 ▸ rfl
  have hin : ∀ i, (c1.setCall pid none).InFlight i ↔ ∃ j, j ≠ pid ∧ c.notified j = some i := by
    intro i
    rw [inFlight_setCall]
    unfold notified
    rw [hcalls1]
    exact or_iff_right (by simp)
  -- the calls that are left are the others'
  have hold : ∀ j d, (c1.setCall pid none).calls j = some d → j ≠ pid ∧ c.calls j = some d := by
    intro j d hj
    obtain ⟨hne, hj⟩ := calls_of_setCall hj (by simp)
    rw [hcalls1] at hj
    exact ⟨hne, hj⟩
  have hentry : ∀ i g p, i ≠ call.slot → c.Entry i g p → c1.Entry i g p := by
    intro i g p hi hent
    unfold Entry
    rw [hpool1, hgen1, hl i hi]
    exact hent
  refine ⟨⟨hpool1 ▸ hwf, ?_, ?_, ?_, ?_⟩, ?_⟩
  · intro j i g hj hno
    obtain ⟨hne, hj⟩ := hold j _ hj
    have hi : i ≠ call.slot := by
      intro heq
      rw [heq] at hj
      exact hnobody j g hne hj
    refine hentry i g j hi (h.waits j i g hj ?_)
    intro ⟨k, hk⟩
    refine hno ((hin i).mpr ⟨k, ?_, hk⟩)
    -- what the finished call has erased is its own slot
    intro heq
    obtain ⟨all, g', hnotify⟩ := notified_eq_some.mp hk
    rw [heq, hcall] at hnotify
    cases hnotify
    exact hi rfl
  · intro j all i g hj
    obtain ⟨hne, hj⟩ := hold j _ hj
    obtain ⟨p, hent⟩ := h.notifying j all i g hj
    refine ⟨p, ?_⟩
    by_cases hi : i = call.slot
    · rcases hslot with ⟨_, hothers⟩ | ⟨hlook, _⟩
      · exact absurd (notified_eq_some.mpr ⟨all, g, hi ▸ hj⟩) (hothers j hne)
      · show c1.Entry i g p
        unfold Entry
        rw [hpool1, hgen1, hi, hlook, ← hi]
        exact hent
    · exact hentry i g p hi hent
  · apply apart_setCall
    · unfold notified
      rw [hcalls1]
      exact h.apart
    · intro i hi
      cases hi
  · intro i p hp
    have hp : waitingProcs.lookup i = some p := by
      rw [← hpool1]
      exact hp
    rw [hin]
    by_cases hi : i = call.slot
    · rcases hslot with ⟨hnone, _⟩ | ⟨_, hothers⟩
      · rw [hi, hnone] at hp
        cases hp
      · rw [hi]
        exact .inl hothers
    rw [hl i hi] at hp
    rcases h.entries i p hp with ⟨j, hj⟩ | ⟨g, hwait⟩
    · refine .inl ⟨j, ?_, hj⟩
      intro heq
      obtain ⟨all, g, hnotify⟩ := notified_eq_some.mp hj
      rw [heq, hcall] at hnotify
      cases hnotify
      exact hi rfl
    right
    have hpp : p ≠ pid := by
      intro heq
      rw [heq, hcall] at hwait
      cases hwait
      exact hi rfl
    rw [calls_setCall_ne none hpp, hcalls1]
    exact ⟨g, hwait⟩
  · intro i hflight
    obtain ⟨j, _, hj⟩ := (hin i).mp hflight
    exact ⟨j, hj⟩

theorem Consistent.erase {all : Bool}
    (hcall : c.calls pid = some (.notify all idx g))
    (hnobody : ∀ j g, j ≠ pid → c.calls j ≠ some (.wait idx g)) :
    ∃ c', c.erase pid idx = .ok c' ∧ c'.Consistent ∧ c'.calls = storeAt c.calls pid none ∧
      (∀ j, c'.waitingProcs.lookup j = if j = idx then none else c.waitingProcs.lookup j) ∧
      ∀ i, c'.InFlight i → c.InFlight i := by
  obtain ⟨p, hentry, _⟩ := h.notifying pid all idx g hcall
  obtain ⟨waitingProcs, herase, hwf, hl⟩ := Pool.erase_spec h.pool hentry
  have hself : c.notified pid = some idx := notified_eq_some.mpr ⟨all, g, hcall⟩
  obtain ⟨hcons, hin⟩ := h.finish hcall hwf (fun i hi => (hl i).trans (if_neg hi))
    (.inl ⟨(hl idx).trans (if_pos rfl), fun j hj hn => hj (h.apart j pid idx hn hself)⟩) hnobody
  refine ⟨_, ?_, hcons, rfl, hl, hin⟩
  rw [ConditionVariable.erase, herase, ok_bind]

/-- The erase of a `wait` that has timed out is for its own entry. -/
theorem Consistent.leave {ret : Int} (hcall : c.calls pid = some (.wait idx g))
    (hret : ret < 0 ↔ ¬ c.InFlight idx)
    (hnobody : ∀ j g, j ≠ pid → c.calls j ≠ some (.wait idx g)) :
    ∃ c', c.leave pid idx ret = .ok c' ∧ c'.Consistent ∧ c'.calls = storeAt c.calls pid none ∧
      (∀ j p, c'.waitingProcs.lookup j = some p → c.waitingProcs.lookup j = some p) ∧
      ∀ i, c'.InFlight i → c.InFlight i := by
  unfold ConditionVariable.leave
  by_cases hneg : ret < 0
  · have hno := hret.mp hneg
    obtain ⟨hentry, _⟩ := h.waits pid idx g hcall hno
    obtain ⟨waitingProcs, herase, hwf, hl⟩ := Pool.erase_spec h.pool hentry
    obtain ⟨hcons, hin⟩ := h.finish hcall hwf (fun i hi => (hl i).trans (if_neg hi))
      (.inl ⟨(hl idx).trans (if_pos rfl), fun j _ hn => hno ⟨j, hn⟩⟩) hnobody
    refine ⟨_, ?_, hcons, rfl, ?_, hin⟩
    · rw [if_pos ⟨hneg, (h.pool.valid_iff_lookup idx).mpr ⟨_, hentry⟩⟩, ConditionVariable.erase,
        herase, ok_bind]
    · intro j p hp
      have hp : waitingProcs.lookup j = some p := hp
      rw [hl] at hp
      split at hp
      · cases hp
      · exact hp
  · -- it was notified, and whoever did that erases the entry
    obtain ⟨j, hj⟩ := not_not.mp (fun hno => hneg (hret.mpr hno))
    have hne : j ≠ pid := by
      intro heq
      obtain ⟨all, g', hnotify⟩ := notified_eq_some.mp hj
      rw [heq, hcall] at hnotify
      cases hnotify
    obtain ⟨hcons, hin⟩ := h.finish hcall h.pool (fun _ _ => rfl) (.inr ⟨rfl, j, hne, hj⟩) hnobody
    exact ⟨_, if_neg (fun hand => hneg hand.1), hcons, rfl, fun _ _ hp => hp, hin⟩

end

/-! ## The loop -/

theorem nextFrom_eq_some {waitingProcs : Pool Nat maxWaiters 0xFFFF} (n : Nat) :
    ∀ {i : Nat}, nextFrom waitingProcs n i = some idx ↔
      i ≤ idx ∧ idx < i + n ∧ waitingProcs.valid idx = true ∧
        ∀ j, i ≤ j → j < idx → waitingProcs.valid j = false := by
  induction n with
  | zero =>
    intro i
    constructor
    · intro h
      cases h
    · intro ⟨hle, hlt, _⟩
      omega
  | succ n ih =>
    intro i
    unfold nextFrom
    split
    next hvalid =>
      constructor
      · intro h
        cases h
        exact ⟨Nat.le_refl _, by omega, hvalid, fun j hj hlt => by omega⟩
      · intro ⟨hle, _, _, hfirst⟩
        by_cases hi : i = idx
        · rw [hi]
        · have hno := hfirst i (Nat.le_refl i) (by omega)
          rw [hvalid] at hno
          cases hno
    next hinvalid =>
      rw [ih]
      constructor
      · intro ⟨hle, hlt, hv, hfirst⟩
        refine ⟨by omega, by omega, hv, ?_⟩
        intro j hj hjlt
        by_cases hji : j = i
        · rw [hji]
          exact Bool.not_eq_true _ ▸ hinvalid
        · exact hfirst j (by omega) hjlt
      · intro ⟨hle, hlt, hv, hfirst⟩
        have hne : i ≠ idx := by
          intro heq
          rw [heq] at hinvalid
          exact hinvalid hv
        exact ⟨by omega, by omega, hv, fun j hj hjlt => hfirst j (by omega) hjlt⟩

theorem nextWaiter_eq_some (h : c.waitingProcs.WF) {i : Nat} :
    c.nextWaiter i = some idx ↔ i ≤ idx ∧ (∃ p, c.waitingProcs.lookup idx = some p) ∧
      ∀ j, i ≤ j → j < idx → c.waitingProcs.lookup j = none := by
  have hfree : ∀ j, c.waitingProcs.valid j = false ↔ c.waitingProcs.lookup j = none := by
    intro j
    rw [← Bool.not_eq_true, h.valid_iff_lookup, eq_none_iff_forall_ne_some]
    exact not_exists
  unfold nextWaiter
  rw [nextFrom_eq_some, h.valid_iff_lookup]
  constructor
  · intro ⟨hle, _, hlook, hfirst⟩
    exact ⟨hle, hlook, fun j hj hji => (hfree j).mp (hfirst j hj hji)⟩
  · intro ⟨hle, ⟨p, hlook⟩, hfirst⟩
    have hlt := Pool.lookup_lt_watermark hlook
    exact ⟨hle, by omega, ⟨p, hlook⟩, fun j hj hji => (hfree j).mpr (hfirst j hj hji)⟩

theorem nextWaiter_of_erased (h : c.waitingProcs.WF) (h' : c'.waitingProcs.WF)
    (hl : ∀ j, c'.waitingProcs.lookup j = if j = idx then none else c.waitingProcs.lookup j) :
    c'.nextWaiter (idx + 1) = c.nextWaiter (idx + 1) := by
  have hsame : ∀ j, idx < j → c'.waitingProcs.lookup j = c.waitingProcs.lookup j := by
    intro j hj
    rw [hl, if_neg (by omega)]
  apply ext
  intro i
  rw [nextWaiter_eq_some h, nextWaiter_eq_some h']
  constructor
  · intro ⟨hle, hlook, hfirst⟩
    rw [hsame i (by omega)] at hlook
    exact ⟨hle, hlook, fun j hj hji => (hsame j (by omega)).symm.trans (hfirst j hj hji)⟩
  · intro ⟨hle, hlook, hfirst⟩
    rw [← hsame i (by omega)] at hlook
    exact ⟨hle, hlook, fun j hj hji => (hsame j (by omega)).trans (hfirst j hj hji)⟩

end ConditionVariable

end Peos2.Kernel.Locks
