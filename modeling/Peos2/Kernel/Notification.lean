/-
  Kernel.Notification — when a condition variable survives interleaving.

  A notification erases the entry of the process it has unblocked only after that
  process, and others, have run. Until then the entry is stale but in use: a second
  notification unblocks a process that does not wait, erases the slot, and the first
  erases it once more.

  Main results: `notifications_sound`, `notifications_collide`.
-/
import Peos2.Kernel.Scheduling
import Peos2.Kernel.WaitList
import Peos2.Lib.Run

namespace Peos2.Kernel.Locks.State

open Peos2.Lib Peos2.Support Scheduler

variable {maxWaiters : Nat} {s s' : State maxWaiters}

/-! ## The condition and the invariant -/

def Waiting (s : State maxWaiters) (pid idx generation : Nat) : Prop :=
  s.condition.calls pid = some (.wait idx generation) ∧
    s.scheduler.flags pid = some (false, true)

/-- Where the loop of a notification is, if the action is one. -/
def position (s : State maxWaiters) : Action → Option Nat
  | .notifyOne => some 0
  | .notifyAll => some 0
  | .continueCall =>
    match s.condition.calls s.currentPid with
    | some (.notify true idx _) => some (idx + 1)
    | _ => none
  | _ => none

/-- The slot the notification goes on to: the first one in use from its position
on. -/
def target (s : State maxWaiters) (action : Action) : Option Nat :=
  (s.position action).bind s.condition.nextWaiter

/-- The condition. The entry a notification goes on to is none that another
notification has still to erase. -/
def Careful (s : State maxWaiters) (action : Action) : Prop :=
  ∀ idx ∈ s.target action, ¬ s.condition.InFlight idx

/-- The invariant. A process that waits is suspended, and whoever has notified
it, or the timer, makes it run at once. -/
structure Inv (s : State maxWaiters) : Prop where
  scheduler : ∃ ls, s.scheduler.Inv ls
  alive : ∀ pid t b, s.scheduler.flags pid = some (t, b) → t = false
  consistent : s.condition.Consistent
  /-- Calls are made by processes. -/
  caller : ∀ pid call, s.condition.calls pid = some call →
    ∃ b, s.scheduler.flags pid = some (false, b)
  running : ∀ idx pid, s.condition.waitingProcs.lookup idx = some pid →
    s.scheduler.flags s.currentPid = some (false, false)
  blocked : ∀ pid idx g, s.condition.calls pid = some (.wait idx g) → pid ≠ s.currentPid →
    s.scheduler.flags pid = some (false, true) ∧ ¬ s.condition.InFlight idx
  /-- The status tells who erases the entry. -/
  woken : ∀ idx g, s.condition.calls s.currentPid = some (.wait idx g) →
    ∃ ret, s.scheduler.status s.currentPid = some ret ∧ (ret < 0 ↔ ¬ s.condition.InFlight idx)

/-! ## Actions that only touch the scheduler -/

variable {idx pid : Nat} {scheduler : Scheduler}

section

variable (h : s.Inv)

include h

theorem Inv.not_in_wait (hfree : s.condition.calls s.currentPid = none) {g : Nat}
    (hflags : s.scheduler.flags pid = some (false, false)) :
    s.condition.calls pid ≠ some (.wait idx g) := by
  intro hcall
  have hsusp := (h.blocked pid idx g hcall (ConditionVariable.ne_of_calls hfree hcall)).1
  rw [hflags] at hsusp
  cases hsusp

/-- The processes change, the variable does not. -/
theorem Inv.reschedule (hfree : s.condition.calls s.currentPid = none)
    (hinv : ∃ ls, scheduler.Inv ls)
    (halive : ∀ pid t b, scheduler.flags pid = some (t, b) → t = false)
    (hkept : ∀ pid b, s.scheduler.flags pid = some (false, b) →
      ∃ b', scheduler.flags pid = some (false, b'))
    (hcurrent : s.scheduler.flags s.currentPid = some (false, false) →
      scheduler.flags scheduler.currentPid = some (false, false))
    (hflags : ∀ pid idx g, s.condition.calls pid = some (.wait idx g) → pid ≠ scheduler.currentPid →
      scheduler.flags pid = s.scheduler.flags pid)
    (hwoken : ∀ idx g, s.condition.calls scheduler.currentPid = some (.wait idx g) →
      ∃ ret, scheduler.status scheduler.currentPid = some ret ∧ ret < 0) :
    Inv { s with scheduler } := by
  have hother : ∀ pid idx g, s.condition.calls pid = some (.wait idx g) → pid ≠ s.currentPid :=
    fun _ _ _ => ConditionVariable.ne_of_calls hfree
  refine ⟨hinv, halive, h.consistent, ?_, ?_, ?_, ?_⟩
  · intro pid call hcall
    obtain ⟨b, hb⟩ := h.caller pid call hcall
    exact hkept pid b hb
  · intro idx pid hentry
    exact hcurrent (h.running idx pid hentry)
  · intro pid idx g hcall hne
    obtain ⟨hsusp, hno⟩ := h.blocked pid idx g hcall (hother pid idx g hcall)
    exact ⟨(hflags pid idx g hcall hne).trans hsusp, hno⟩
  · intro idx g hcall
    obtain ⟨ret, hret, hneg⟩ := hwoken idx g hcall
    have hno := (h.blocked scheduler.currentPid idx g hcall (hother _ idx g hcall)).2
    exact ⟨ret, hret, iff_of_true hneg hno⟩

theorem alive_of_reflagged {fl : Bool} (hflags : ∀ j, scheduler.flags j =
      if j = pid then some (false, fl) else s.scheduler.flags j) :
    (∀ j t b, scheduler.flags j = some (t, b) → t = false) ∧
    ∀ j b, s.scheduler.flags j = some (false, b) → ∃ b', scheduler.flags j = some (false, b') := by
  constructor
  · intro j t b hfl
    rw [hflags] at hfl
    split at hfl
    · cases hfl
      rfl
    · exact h.alive j t b hfl
  · intro j b hfl
    rw [hflags]
    split
    · exact ⟨fl, rfl⟩
    · exact ⟨b, hfl⟩

theorem Inv.fork (hfree : s.condition.calls s.currentPid = none) {prevProcess nextProcess : Nat}
    (hrun : s.run (.fork prevProcess nextProcess) = .ok s') : s'.Inv := by
  rw [run, bind_ok] at hrun
  obtain ⟨⟨pid, scheduler⟩, hspawn, hrun⟩ := hrun
  cases hrun
  obtain ⟨ls, hinv⟩ := h.scheduler
  obtain ⟨ls', hinv', hdead, hflags, _, hcurrent, _⟩ := spawn_spec hinv hspawn
  -- the new process is none of those there were
  have hold : ∀ j fl, s.scheduler.flags j = some fl → scheduler.flags j = some fl := by
    intro j fl hfl
    have hne : j ≠ pid := by
      intro heq
      obtain ⟨proc, hproc, _⟩ := process_of_flags hfl
      rw [heq, hdead] at hproc
      cases hproc
    rw [hflags, if_neg hne]
    exact hfl
  obtain ⟨halive, hkept⟩ := alive_of_reflagged h hflags
  refine h.reschedule hfree ⟨ls', hinv'⟩ halive hkept ?_ ?_ ?_
  · intro hfl
    rw [hcurrent]
    exact hold _ _ hfl
  · intro j idx g hcall _
    obtain ⟨b, hfl⟩ := h.caller j _ hcall
    rw [hfl]
    exact hold j _ hfl
  · intro idx g hcall
    rw [hcurrent] at hcall
    exact absurd (hfree.symm.trans hcall) (by simp)

theorem Inv.yield (hfree : s.condition.calls s.currentPid = none)
    (hrun : s.run .yield = .ok s') : s'.Inv := by
  rw [run, bind_ok] at hrun
  obtain ⟨scheduler, hyield, hrun⟩ := hrun
  cases hrun
  obtain ⟨ls, hinv⟩ := h.scheduler
  obtain ⟨σ, hspec, hinv', hswitched, hcurrent, _⟩ := procYield_spec hinv
  rw [hspec] at hyield
  cases hyield
  refine h.reschedule hfree ⟨ls, hinv'⟩ ?_ ?_ ?_ ?_ ?_
  · intro j t b hfl
    rw [hswitched.flags] at hfl
    exact h.alive j t b hfl
  · intro j b hfl
    exact ⟨b, (hswitched.flags j).trans hfl⟩
  · intro _
    exact hcurrent
  · intro j idx g _ _
    exact hswitched.flags j
  · intro idx g hcall
    rw [hswitched.flags] at hcurrent
    exact absurd hcall (h.not_in_wait hfree hcurrent)

theorem Inv.procBlock (hidle : s.currentPid ≠ s.scheduler.idleProcess)
    (hcall : s.scheduler.procBlock s.currentPid = .ok scheduler) :
    (∃ ls, scheduler.Inv ls) ∧
      (∀ j, scheduler.flags j =
        if j = s.currentPid then some (false, true) else s.scheduler.flags j) ∧
      scheduler.currentPid ≠ s.currentPid ∧
      s.scheduler.flags scheduler.currentPid = some (false, false) ∧
      ∃ b, s.scheduler.flags s.currentPid = some (false, b) := by
  obtain ⟨ls, hinv⟩ := h.scheduler
  obtain ⟨proc, hproc⟩ := procBlock_ok hcall
  have hfl : s.scheduler.flags s.currentPid = some (proc.terminating, proc.suspended) :=
    flags_of_process hproc
  rw [h.alive _ _ _ hfl] at hfl
  obtain ⟨σ, ls', hspec, hinv', hflags, _, _, hcurrent⟩ := procBlock_spec hinv hidle hfl
  rw [hspec] at hcall
  cases hcall
  have hne : scheduler.currentPid ≠ s.currentPid := by
    intro heq
    rw [hflags, if_pos heq] at hcurrent
    cases hcurrent
  rw [hflags, if_neg hne] at hcurrent
  exact ⟨⟨ls', hinv'⟩, hflags, hne, hcurrent, proc.suspended, hfl⟩

theorem Inv.block (hfree : s.condition.calls s.currentPid = none)
    (hidle : s.currentPid ≠ s.scheduler.idleProcess) (hrun : s.run .block = .ok s') : s'.Inv := by
  rw [run, bind_ok] at hrun
  obtain ⟨scheduler, hblock, hrun⟩ := hrun
  cases hrun
  obtain ⟨hinv, hflags, hne, hcurrent, b, _⟩ := h.procBlock hidle hblock
  obtain ⟨halive, hkept⟩ := alive_of_reflagged h hflags
  refine h.reschedule hfree hinv halive hkept ?_ ?_ ?_
  · intro _
    rw [hflags, if_neg hne]
    exact hcurrent
  · intro j idx g hcall _
    rw [hflags, if_neg (ConditionVariable.ne_of_calls hfree hcall)]
  · intro idx g hcall
    exact absurd hcall (h.not_in_wait hfree hcurrent)

theorem Inv.procUnblock {b : Bool} (hfl : s.scheduler.flags pid = some (false, b))
    (ret : Int) :
    ∃ scheduler, s.scheduler.procUnblockAndSwitch pid ret = .ok scheduler ∧
      (∃ ls, scheduler.Inv ls) ∧
      (∀ j, scheduler.flags j = if j = pid then some (false, false) else s.scheduler.flags j) ∧
      scheduler.status pid = some ret ∧ scheduler.currentPid = pid := by
  obtain ⟨ls, hinv⟩ := h.scheduler
  obtain ⟨scheduler, ls', hspec, hinv', hflags, hstatus, _, _, hcurrent⟩ :=
    procUnblockAndSwitch_spec hinv hfl (fun _ => rfl) ret
  refine ⟨scheduler, hspec, ⟨ls', hinv'⟩, hflags, ?_, hcurrent rfl⟩
  rw [hstatus, if_pos rfl]

theorem Inv.unblock (hfree : s.condition.calls s.currentPid = none) {ret : Int}
    (htimeout : s.inWait pid = true → ret < 0) (hrun : s.run (.unblock pid ret) = .ok s') :
    s'.Inv := by
  rw [run, bind_ok] at hrun
  obtain ⟨scheduler, hcall, hrun⟩ := hrun
  cases hrun
  by_cases hvalid : s.scheduler.processes.valid pid = true
  · obtain ⟨ls, hinv⟩ := h.scheduler
    obtain ⟨proc, hproc⟩ := (hinv.linked.wf.valid_iff_lookup pid).mp hvalid
    have hfl : s.scheduler.flags pid = some (proc.terminating, proc.suspended) :=
      flags_of_process hproc
    rw [h.alive _ _ _ hfl] at hfl
    obtain ⟨σ, hspec, hinv', hflags, hstatus, hcurrent⟩ := h.procUnblock hfl ret
    rw [hspec] at hcall
    cases hcall
    obtain ⟨halive, hkept⟩ := alive_of_reflagged h hflags
    refine h.reschedule hfree hinv' halive hkept ?_ ?_ ?_
    · intro _
      rw [hcurrent, hflags, if_pos rfl]
    · intro j idx g _ hne
      rw [hcurrent] at hne
      rw [hflags, if_neg hne]
    · intro idx g hwait
      rw [hcurrent] at hwait ⊢
      refine ⟨ret, hstatus, htimeout ?_⟩
      unfold inWait
      rw [hwait]
  · unfold procUnblockAndSwitch at hcall
    rw [if_neg hvalid] at hcall
    cases hcall
    exact h

/-! ## Actions on the variable -/

theorem Inv.nobody_waits (hin : s.condition.InFlight idx) :
    ∀ j g, j ≠ s.currentPid → s.condition.calls j ≠ some (.wait idx g) := by
  intro j g hj hcall
  exact (h.blocked j idx g hcall hj).2 hin

theorem Inv.wait (hfree : s.condition.calls s.currentPid = none)
    (hidle : s.currentPid ≠ s.scheduler.idleProcess) (hrun : s.wait = .ok s') : s'.Inv := by
  rw [State.wait, bind_ok] at hrun
  obtain ⟨_, _, hrun⟩ := hrun
  obtain ⟨condition, henter, hrun⟩ := bind_ok.mp hrun
  obtain ⟨scheduler, hblock, hrun⟩ := bind_ok.mp hrun
  cases hrun
  obtain ⟨hcons, hin, hother, idx, g, hself, hno⟩ := h.consistent.enter hfree henter
  obtain ⟨hinv, hflags, hne, hcurrent, b, _⟩ := h.procBlock hidle hblock
  refine ⟨hinv, (alive_of_reflagged h hflags).1, hcons, ?_, ?_, ?_, ?_⟩
  · intro j call hcall
    rw [hflags]
    split
    · exact ⟨true, rfl⟩
    next hj =>
      rw [hother j hj] at hcall
      exact h.caller j call hcall
  · intro _ _ _
    exact (hflags scheduler.currentPid).trans ((if_neg hne).trans hcurrent)
  · intro j i g' hcall _
    rw [hflags, hin]
    by_cases hj : j = s.currentPid
    · rw [hj, hself] at hcall
      cases hcall
      exact ⟨if_pos hj, hno⟩
    · rw [hother j hj] at hcall
      rw [if_neg hj]
      exact h.blocked j i g' hcall hj
  · intro i g' hcall
    have hcall : condition.calls scheduler.currentPid = _ := hcall
    rw [hother _ hne] at hcall
    exact absurd hcall (h.not_in_wait hfree hcurrent)

theorem Inv.waiting_of_entry (hcur : ∀ i g, s.condition.calls s.currentPid ≠ some (.wait i g))
    (hlook : s.condition.waitingProcs.lookup idx = some pid) (hno : ¬ s.condition.InFlight idx) :
    ∃ g, s.Waiting pid idx g := by
  rcases h.consistent.entries idx pid hlook with hflight | ⟨g, hcall⟩
  · exact absurd hflight hno
  · have hne : pid ≠ s.currentPid := by
      intro heq
      rw [heq] at hcall
      exact hcur idx g hcall
    exact ⟨g, hcall, (h.blocked pid idx g hcall hne).1⟩

theorem Inv.notifyFrom (hfree : s.condition.calls s.currentPid = none) {all : Bool}
    {i : Nat} (hcare : ∀ idx, s.condition.nextWaiter i = some idx → ¬ s.condition.InFlight idx)
    (hrun : s.notifyFrom all i = .ok s') : s'.Inv := by
  unfold State.notifyFrom at hrun
  split at hrun
  · cases hrun
    exact h
  next idx hnext =>
  obtain ⟨pid, hget, hrun⟩ := bind_ok.mp hrun
  have hlook : s.condition.waitingProcs.lookup idx = some pid := Pool.get_ok hget
  have hno := hcare idx hnext
  obtain ⟨g, hwait, hsusp⟩ := h.waiting_of_entry (by simp [hfree]) hlook hno
  obtain ⟨scheduler, hspec, hinv, hflags, hstatus, hcurrent⟩ := h.procUnblock hsusp 1
  rw [hspec, ok_bind] at hrun
  cases hrun
  obtain ⟨halive, hkept⟩ := alive_of_reflagged h hflags
  obtain ⟨hcons, hin⟩ := h.consistent.notify hfree hlook hno all
  -- who waits is somebody else than the process that notifies
  have hback : ∀ j i g, (s.condition.setCall s.currentPid
      (some (.notify all idx (s.condition.generation idx)))).calls j = some (.wait i g) →
      j ≠ s.currentPid ∧ s.condition.calls j = some (.wait i g) :=
    fun _ _ _ hcall => ConditionVariable.calls_of_setCall hcall (by simp)
  refine ⟨hinv, halive, hcons, ?_, ?_, ?_, ?_⟩
  · intro j call hcall
    by_cases hj : j = s.currentPid
    · rw [hj]
      exact hkept _ false (h.running idx pid hlook)
    · rw [ConditionVariable.calls_setCall_ne _ hj] at hcall
      obtain ⟨b, hb⟩ := h.caller j call hcall
      exact hkept j b hb
  · intro _ _ _
    exact (hflags scheduler.currentPid).trans (if_pos hcurrent)
  · intro j i g' hcall hj
    obtain ⟨hjc, hcall⟩ := hback j i g' hcall
    obtain ⟨hfl, hno'⟩ := h.blocked j i g' hcall hjc
    have hjp : j ≠ pid := fun heq => hj (heq.trans hcurrent.symm)
    rw [hflags, if_neg hjp, hin]
    refine ⟨hfl, ?_⟩
    intro hor
    rcases hor with hflight | heq
    · exact hno' hflight
    · -- a slot has one entry
      have hentry := (h.consistent.waits j i g' hcall hno').1
      rw [heq, hlook] at hentry
      exact hjp (Option.some.inj hentry).symm
  · intro i g' hcall
    obtain ⟨_, hcall⟩ := hback scheduler.currentPid i g' hcall
    rw [hcurrent, hwait] at hcall
    cases hcall
    refine ⟨1, ?_, ?_⟩
    · show scheduler.status scheduler.currentPid = _
      rw [hcurrent]
      exact hstatus
    · rw [hin]
      exact iff_of_false (by decide) (not_not.mpr (Or.inr rfl))

theorem Inv.finished {condition : ConditionVariable maxWaiters}
    (hcons : condition.Consistent)
    (hcalls : condition.calls = storeAt s.condition.calls s.currentPid none)
    (hlook : ∀ j p, condition.waitingProcs.lookup j = some p →
      s.condition.waitingProcs.lookup j = some p)
    (hin : ∀ i, condition.InFlight i → s.condition.InFlight i) :
    Inv { s with condition } := by
  have hold : ∀ j call, condition.calls j = some call →
      j ≠ s.currentPid ∧ s.condition.calls j = some call := by
    intro j call hj
    have hne : j ≠ s.currentPid := by
      intro heq
      rw [hcalls, heq, storeAt_self] at hj
      cases hj
    rw [hcalls, storeAt_ne _ _ hne] at hj
    exact ⟨hne, hj⟩
  refine ⟨h.scheduler, h.alive, hcons, ?_, ?_, ?_, ?_⟩
  · intro j call hj
    exact h.caller j call (hold j call hj).2
  · intro i p hp
    exact h.running i p (hlook i p hp)
  · intro j i g hj hne
    obtain ⟨hfl, hno⟩ := h.blocked j i g (hold j _ hj).2 hne
    exact ⟨hfl, fun hflight => hno (hin i hflight)⟩
  · intro i g hj
    exact absurd rfl (hold _ _ hj).1

theorem Inv.continueCall (hcare : s.Careful .continueCall)
    (hrun : s.continueCall = .ok s') : s'.Inv := by
  unfold State.continueCall at hrun
  split at hrun
  · cases hrun
    exact h
  next idx g hcall =>
    obtain ⟨proc, hget, hrun⟩ := bind_ok.mp hrun
    have hproc : s.scheduler.process s.currentPid = some proc := Pool.get_ok hget
    obtain ⟨ret, hret, hiff⟩ := h.woken idx g hcall
    have hstatus : proc.unblockStatus = ret := by
      unfold status at hret
      rw [hproc] at hret
      exact Option.some.inj hret
    -- nobody else waits with this slot: it is in flight, or the entry is this one
    have hnobody : ∀ j g, j ≠ s.currentPid → s.condition.calls j ≠ some (.wait idx g) := by
      by_cases hin : s.condition.InFlight idx
      · exact h.nobody_waits hin
      · intro j g' hj hwait
        have hmine := (h.consistent.waits _ idx g hcall hin).1
        rw [(h.consistent.waits j idx g' hwait hin).1] at hmine
        exact hj (Option.some.inj hmine)
    obtain ⟨condition, hleave, hcons, hcalls, hlook, hin⟩ := h.consistent.leave hcall hiff hnobody
    rw [hstatus, hleave, ok_bind] at hrun
    cases hrun
    exact h.finished hcons hcalls hlook hin
  next all idx g hcall =>
    have hself : s.condition.InFlight idx :=
      ⟨s.currentPid, ConditionVariable.notified_eq_some.mpr ⟨all, g, hcall⟩⟩
    obtain ⟨condition, herase, hcons, hcalls, hl, hin⟩ :=
      h.consistent.erase hcall (h.nobody_waits hself)
    have hinv : Inv { s with condition } := by
      refine h.finished hcons hcalls ?_ hin
      intro j p hp
      rw [hl] at hp
      split at hp
      · cases hp
      · exact hp
    rw [herase, ok_bind] at hrun
    cases all with
    | false =>
      cases hrun
      exact hinv
    | true =>
      refine hinv.notifyFrom ?_ ?_ hrun
      · show condition.calls s.currentPid = none
        rw [hcalls, storeAt_self]
      · intro i hnext hflight
        refine hcare i ?_ (hin i hflight)
        unfold target position
        rw [hcall, Option.bind_some,
          ← ConditionVariable.nextWaiter_of_erased h.consistent.pool hcons.pool hl]
        exact hnext

/-! ## Runs -/

theorem Inv.step {action : Action} (hcare : s.Careful action)
    (hstep : s.Step action s') : s'.Inv := by
  obtain ⟨⟨hcont, hguard⟩, hrun⟩ := hstep
  have hfree : action ≠ .continueCall → s.condition.calls s.currentPid = none := by
    intro hne
    by_contra hcall
    exact hne (hcont.mp hcall)
  cases action with
  | wait => exact h.wait (hfree (by simp)) hguard hrun
  | notifyOne => exact h.notifyFrom (hfree (by simp)) hcare hrun
  | notifyAll => exact h.notifyFrom (hfree (by simp)) hcare hrun
  | continueCall => exact h.continueCall hcare hrun
  | fork prevProcess nextProcess => exact h.fork (hfree (by simp)) hrun
  | block => exact h.block (hfree (by simp)) hguard hrun
  | unblock pid status => exact h.unblock (hfree (by simp)) hguard hrun
  | yield => exact h.yield (hfree (by simp)) hrun

end

theorem Initial.inv (h : s.Initial) : s.Inv := by
  have hcalls : ∀ pid call, s.condition.calls pid ≠ some call := by
    intro pid call hcall
    rw [h.calls] at hcall
    cases hcall
  have hempty : ∀ idx pid, s.condition.waitingProcs.lookup idx ≠ some pid := by
    intro idx pid hlook
    rw [h.waitingProcs] at hlook
    exact absurd ((Pool.lookup_blank idx).symm.trans hlook) (by simp)
  have hcons : s.condition.Consistent := by
    refine ⟨?_, ?_, ?_, ?_, ?_⟩
    · rw [h.waitingProcs]
      exact Pool.blank_wf h.capacity
    · intro pid idx g hcall
      exact absurd hcall (hcalls pid _)
    · intro pid all idx g hcall
      exact absurd hcall (hcalls pid _)
    · intro pid pid' idx hn
      obtain ⟨all, g, hcall⟩ := ConditionVariable.notified_eq_some.mp hn
      exact absurd hcall (hcalls pid _)
    · intro idx pid hlook
      exact absurd hlook (hempty idx pid)
  refine ⟨⟨_, h.scheduler.inv⟩, ?_, hcons, ?_, ?_, ?_, ?_⟩
  · intro pid t b hfl
    rw [h.scheduler.flags.2] at hfl
    split at hfl
    · cases hfl
      rfl
    · cases hfl
  · intro pid call hcall
    exact absurd hcall (hcalls pid call)
  · intro idx pid hlook
    exact absurd hlook (hempty idx pid)
  · intro pid idx g hcall
    exact absurd hcall (hcalls pid _)
  · intro idx g hcall
    exact absurd hcall (hcalls _ _)

def CarefulStep (s s' : State maxWaiters) : Prop := ∃ action, s.Careful action ∧ s.Step action s'

theorem reach_inv (h : Reach Initial CarefulStep s) : s.Inv := by
  refine @Reach.invariant _ _ _ (fun s => s.Inv) ?_ ?_ s h
  · intro s h0
    exact h0.inv
  · intro s s' _ hinv ⟨action, hcare, hstep⟩
    exact hinv.step hcare hstep

/-- **Notifications do what they should**, as long as none goes on to an entry that another has
still to erase: the process unblocked is blocked in `wait`, the entry erased is the one
notified, and a process that still waits has its entry. -/
theorem notifications_sound (h : Reach Initial CarefulStep s) :
    (∀ action idx, s.Enabled action → s.Careful action → s.target action = some idx →
      ∃ pid g, s.condition.waitingProcs.lookup idx = some pid ∧ s.Waiting pid idx g) ∧
    (∀ pid all idx g, s.condition.calls pid = some (.notify all idx g) →
      ∃ p waitingProcs, s.condition.Entry idx g p ∧
        s.condition.waitingProcs.erase idx = .ok waitingProcs) ∧
    ∀ pid idx g, s.Waiting pid idx g → s.condition.Entry idx g pid := by
  have hinv := reach_inv h
  refine ⟨?_, ?_, ?_⟩
  · intro action idx ⟨hcont, _⟩ hcare htarget
    obtain ⟨i, hposition, hnext⟩ := Option.bind_eq_some_iff.mp htarget
    obtain ⟨_, ⟨pid, hlook⟩, _⟩ :=
      (ConditionVariable.nextWaiter_eq_some hinv.consistent.pool).mp hnext
    -- the process that notifies is not in a wait of its own
    have hcur : ∀ i g, s.condition.calls s.currentPid ≠ some (.wait i g) := by
      intro i g hcall
      have haction : action = .continueCall := hcont.mp (by rw [hcall]; simp)
      unfold position at hposition
      rw [haction] at hposition
      simp only [hcall] at hposition
      cases hposition
    obtain ⟨g, hwaiting⟩ := hinv.waiting_of_entry hcur hlook (hcare idx htarget)
    exact ⟨pid, g, hlook, hwaiting⟩
  · intro pid all idx g hcall
    obtain ⟨p, hentry⟩ := hinv.consistent.notifying pid all idx g hcall
    obtain ⟨waitingProcs, herase, _⟩ := Pool.erase_spec hinv.consistent.pool hentry.1
    exact ⟨p, waitingProcs, hentry, herase⟩
  · intro pid idx g ⟨hcall, hsusp⟩
    have hne : pid ≠ s.currentPid := by
      intro heq
      obtain ⟨p, hp⟩ := hinv.consistent.lookup_of_wait hcall
      rw [heq, hinv.running idx p hp] at hsusp
      cases hsusp
    exact hinv.consistent.waits pid idx g hcall (hinv.blocked pid idx g hcall hne).2

/-! ## Runs that can be computed -/

/-- The condition, where only processes can have something to erase. -/
def carefulAt (s : State maxWaiters) (action : Action) : Bool :=
  match s.target action with
  | none => true
  | some idx => (List.range 128).all fun pid => s.condition.notified pid ≠ some idx

theorem Inv.careful (h : s.Inv) {action : Action} (hcare : s.carefulAt action = true) :
    s.Careful action := by
  intro idx hidx ⟨pid, hn⟩
  unfold carefulAt at hcare
  rw [hidx, List.all_eq_true] at hcare
  obtain ⟨all, g, hcall⟩ := ConditionVariable.notified_eq_some.mp hn
  obtain ⟨b, hflags⟩ := h.caller pid _ hcall
  obtain ⟨proc, hproc, _⟩ := process_of_flags hflags
  obtain ⟨ls, hinv⟩ := h.scheduler
  have hlt := Nat.lt_of_lt_of_le (Pool.lookup_lt_watermark hproc) hinv.linked.wf.room
  exact absurd hn (of_decide_eq_true (hcare pid (List.mem_range.mpr hlt)))

instance : (action : Action) → Decidable (s.Enabled action)
  | .wait => inferInstanceAs (Decidable ((_ ↔ _) ∧ s.currentPid ≠ s.scheduler.idleProcess))
  | .block => inferInstanceAs (Decidable ((_ ↔ _) ∧ s.currentPid ≠ s.scheduler.idleProcess))
  | .unblock pid status =>
    inferInstanceAs (Decidable ((_ ↔ _) ∧ (s.inWait pid = true → status < 0)))
  | .notifyOne => inferInstanceAs (Decidable ((_ ↔ _) ∧ True))
  | .notifyAll => inferInstanceAs (Decidable ((_ ↔ _) ∧ True))
  | .continueCall => inferInstanceAs (Decidable ((_ ↔ _) ∧ True))
  | .fork _ _ => inferInstanceAs (Decidable ((_ ↔ _) ∧ True))
  | .yield => inferInstanceAs (Decidable ((_ ↔ _) ∧ True))

/-- `proc_init`, and the constructor of the variable. -/
def boot (maxWaiters : Nat) : Checked (State maxWaiters) := do
  let scheduler ← Scheduler.boot
  .ok { scheduler, condition := ⟨Pool.blank, fun _ => 0, fun _ => none⟩ }

/-- Actions in their order; such that meet the condition, if that is asked for. -/
def runAll (careful : Bool) (actions : List Action) (s : State maxWaiters) :
    Checked (State maxWaiters) :=
  runGuarded (fun s action => s.Enabled action ∧ (careful = true → s.carefulAt action = true))
    run actions s

theorem runAll_reach {careful : Bool} {actions : List Action}
    {Step' : State maxWaiters → State maxWaiters → Prop} (hcap : maxWaiters ≤ 0xFFFF)
    (hstep : ∀ s action s', Reach Initial Step' s → s.Step action s' →
      (careful = true → s.carefulAt action = true) → Step' s s')
    (h : (boot maxWaiters >>= runAll careful actions) = .ok s) : Reach Initial Step' s := by
  obtain ⟨s0, hboot, hrun⟩ := bind_ok.mp h
  rw [boot, bind_ok] at hboot
  obtain ⟨scheduler, hscheduler, hboot⟩ := hboot
  cases hboot
  refine Reach.runGuarded ?_ (.init ⟨boot_initial hscheduler, hcap, rfl, rfl⟩) hrun
  intro s action s' hreach ⟨henabled, hcare⟩ haction
  exact hstep s action s' hreach ⟨henabled, haction⟩ hcare

/-- A process waits, and another one is in the middle of notifying it. -/
theorem notifications_sound_one :
    ∃ s : State 16, Reach Initial CarefulStep s ∧
      s.condition.calls 1 = some (.notify true 0 1) ∧
      ∃ p waitingProcs, s.condition.Entry 0 1 p ∧
        s.condition.waitingProcs.erase 0 = .ok waitingProcs := by
  have hrun : ((boot 16 >>= runAll true [.fork 0 0, .fork 0 0, .yield, .wait, .notifyAll]).map
      fun s => s.condition.calls 1) = .ok (some (.notify true 0 1)) := by decide +kernel
  obtain ⟨s, hs, hcall⟩ := map_ok.mp hrun
  have hreach : Reach Initial CarefulStep s := by
    refine runAll_reach (by decide) ?_ hs
    intro s action s' hreach hstep hcare
    exact ⟨action, (reach_inv hreach).careful (hcare rfl), hstep⟩
  exact ⟨s, hreach, hcall, (notifications_sound hreach).2.1 1 true 0 1 hcall⟩

/-- **Two notifications collide.** Process 1 notifies process 2, which waits. Before it has
erased the entry, a notification in process 2 unblocks process 2 itself, which does not wait,
and erases the entry. Then process 1 erases it again. -/
theorem notifications_collide : ∃ s s' : State 16,
    Reach Initial (fun s s' => ∃ action, s.Step action s') s ∧ s.Enabled .notifyAll ∧
    s.target .notifyAll = some 0 ∧ s.condition.waitingProcs.lookup 0 = some 2 ∧
    s.condition.calls 2 = none ∧
    Reach Initial (fun s s' => ∃ action, s.Step action s') s' ∧ s'.Enabled .continueCall ∧
    s'.condition.calls s'.currentPid = some (.notify true 0 1) ∧
    s'.condition.waitingProcs.lookup 0 = none ∧
    s'.run .continueCall = .error (.assertion "valid(idx)") := by
  have hfirst : ((boot 16 >>= runAll false [.fork 0 0, .fork 0 0, .yield, .wait, .notifyAll,
      .continueCall]).map fun s => (decide (s.Enabled .notifyAll), s.target .notifyAll,
        s.condition.waitingProcs.lookup 0, s.condition.calls 2))
      = .ok (true, some 0, some 2, none) := by
    decide +kernel
  have hsecond : ((boot 16 >>= runAll false [.fork 0 0, .fork 0 0, .yield, .wait, .notifyAll,
      .continueCall, .notifyAll, .continueCall, .yield]).map fun s =>
        (decide (s.Enabled .continueCall), s.condition.calls s.currentPid,
          s.condition.waitingProcs.lookup 0, (s.run .continueCall).map fun s => s.currentPid))
      = .ok (true, some (.notify true 0 1), none, .error (.assertion "valid(idx)")) := by
    decide +kernel
  obtain ⟨s, hs, hfacts⟩ := map_ok.mp hfirst
  obtain ⟨s', hs', hfacts'⟩ := map_ok.mp hsecond
  simp only [Prod.mk.injEq, decide_eq_true_eq] at hfacts hfacts'
  obtain ⟨henabled, htarget, hlook, hcall⟩ := hfacts
  obtain ⟨henabled', hcall', hlook', herror⟩ := hfacts'
  refine ⟨s, s', runAll_reach (by decide) (fun _ action _ _ hstep _ => ⟨action, hstep⟩) hs,
    henabled, htarget, hlook, hcall,
    runAll_reach (by decide) (fun _ action _ _ hstep _ => ⟨action, hstep⟩) hs',
    henabled', hcall', hlook', ?_⟩
  cases hcont : s'.run .continueCall with
  | ok s₁ =>
    rw [hcont] at herror
    cases herror
  | error fault =>
    rw [hcont] at herror
    cases herror
    rfl

end Peos2.Kernel.Locks.State
