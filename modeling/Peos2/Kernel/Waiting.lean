/-
  Kernel.Waiting — processes that wait for others, and the timer.

  A process that waits for another is suspended and noted in it; when the other
  terminates the one that is noted is resumed. There is room for one note. The
  timer resumes suspended processes as well, when their timeout has passed, and it
  does not ask what they are suspended for.

  Main results: `wait_wakes`, `wait_fails`.
-/
import Peos2.Kernel.Termination

namespace Peos2.Kernel

open Peos2.Lib Peos2.Support Option

/-! ## The timer -/

/-- The processes with the `suspension_timeout` of each, and what is left of `on_timer_tick` on
the kernel stack of a process switched away from in it: where the loop was, and its argument. -/
structure Timed where
  scheduler : Scheduler
  suspensionTimeout : Nat → Int
  ticking : Nat → Option (Nat × Int)

namespace Timed

/-- `ETIMEOUT` -/
def timedOut : Int := -207

/-- The loop of `on_timer_tick` from `node` on, and the `proc_yield()` behind it. If unblocking
leads to a switch, the rest stays on the kernel stack. -/
def tickFrom (deltaMs : Int) : Nat → Nat → Timed → Checked Timed
  | 0, _, _ => .error .outOfFuel
  | fuel + 1, node, t =>
    if node = noProcess then do
      let scheduler ← t.scheduler.procYield
      .ok { t with scheduler }
    else do
      let proc ← t.scheduler.get node
      if t.suspensionTimeout node > 0 then
        let t := { t with suspensionTimeout :=
                    storeAt t.suspensionTimeout node (t.suspensionTimeout node - deltaMs) }
        if t.suspensionTimeout node ≤ 0 then
          let current := t.scheduler.currentPid
          let scheduler ← t.scheduler.procUnblockAndSwitch node timedOut
          let t := { t with scheduler }
          if scheduler.currentPid = current then
            -- the process has other neighbours now
            let proc ← scheduler.get node
            tickFrom deltaMs fuel proc.nextProcess t
          else .ok { t with ticking := storeAt t.ticking current (some (node, deltaMs)) }
        else tickFrom deltaMs fuel proc.nextProcess t
      else tickFrom deltaMs fuel proc.nextProcess t

/-- `void on_timer_tick(int delta_ms)`; a list of more than 128 processes goes round
in a circle. -/
def onTimerTick (t : Timed) (deltaMs : Int) : Checked Timed :=
  tickFrom deltaMs 129 t.scheduler.suspendedHead t

/-- The current process goes on with `on_timer_tick`. -/
def continueTick (t : Timed) : Checked Timed :=
  match t.ticking t.scheduler.currentPid with
  | none => .ok t
  | some (node, deltaMs) => do
      let t := { t with ticking := storeAt t.ticking t.scheduler.currentPid none }
      let proc ← t.scheduler.get node
      tickFrom deltaMs 129 proc.nextProcess t

/-- `syscall_set_timeout(int timeout)` -/
def syscallSetTimeout (t : Timed) (timeout : Int) : Timed :=
  if t.scheduler.currentPid = noProcess then t
  else { t with suspensionTimeout := storeAt t.suspensionTimeout t.scheduler.currentPid timeout }

/-- `syscall_fork`; a new process has no timeout and an empty kernel stack. -/
def fork (t : Timed) (prevProcess nextProcess : Nat) : Checked Timed := do
  let (pid, scheduler) ← t.scheduler.spawn prevProcess nextProcess
  .ok { scheduler, suspensionTimeout := storeAt t.suspensionTimeout pid (-1),
        ticking := storeAt t.ticking pid none }

/-! ## Runs -/

/-- What can happen between two switches. -/
inductive Event where
  | fork (prevProcess nextProcess : Nat)
  | kill (pid : UInt32)
  | exit (exitStatus : Int)
  | wait (pid : Int)
  | setTimeout (timeout : Int)
  | yield
  /-- The timer interrupts the process. -/
  | tick (deltaMs : Int)
  | continueCall
  /-- The rest of `on_timer_tick`. -/
  | continueTick
  deriving Repr, DecidableEq

def inScheduler (t : Timed) (call : Scheduler → Checked Scheduler) : Checked Timed := do
  let scheduler ← call t.scheduler
  .ok { t with scheduler }

def run (t : Timed) : Event → Checked Timed
  | .fork prevProcess nextProcess => t.fork prevProcess nextProcess
  | .kill pid => t.inScheduler (·.syscallKill pid)
  | .exit exitStatus => t.inScheduler (·.syscallExit exitStatus)
  | .wait pid => t.inScheduler (·.syscallWait pid)
  | .setTimeout timeout => .ok (t.syscallSetTimeout timeout)
  | .yield => t.inScheduler Scheduler.procYield
  | .tick deltaMs => t.onTimerTick deltaMs
  | .continueCall => t.inScheduler Scheduler.continueCall
  | .continueTick => t.continueTick

/-- The current process first goes on with what it was switched away in; the timer
interrupts no system call. -/
def Enabled (t : Timed) (e : Event) : Prop :=
  ((t.ticking t.scheduler.currentPid).isSome = true ↔ e = .continueTick)
    ∧ ((t.ticking t.scheduler.currentPid = none ∧ t.scheduler.midCall = true) ↔ e = .continueCall)

def Initial (t : Timed) : Prop := t.scheduler.Initial ∧ ∀ pid, t.ticking pid = none

def Step (t t' : Timed) : Prop := ∃ e, t.Enabled e ∧ t.run e = .ok t'

end Timed

/-! ## What waiting depends on -/

/-- What of a process matters to those that wait. -/
structure Standing where
  terminating : Bool
  suspended : Bool
  waitingProcess : Option Nat
  kernelStack : KernelStack
  deriving Repr, DecidableEq

def Process.standing (proc : Process) : Standing where
  terminating := proc.terminating
  suspended := proc.suspended
  waitingProcess := proc.waitingProcess
  kernelStack := proc.kernelStack

namespace Scheduler

def standing (s : Scheduler) (pid : Nat) : Option Standing :=
  (s.process pid).map Process.standing

variable {s s' : Scheduler} {ls : QueueName → List Nat} {pid : Nat} {proc : Process}

theorem standing_of_process (h : s.process pid = some proc) :
    s.standing pid = some proc.standing := by
  unfold standing
  rw [h]
  rfl

theorem process_of_standing {st : Standing} (h : s.standing pid = some st) :
    ∃ proc, s.process pid = some proc ∧ proc.standing = st := map_eq_some_iff.mp h

theorem flags_of_standing {st : Standing} (h : s.standing pid = some st) :
    s.flags pid = some (st.terminating, st.suspended) := by
  obtain ⟨proc, hproc, rfl⟩ := process_of_standing h
  exact flags_of_process hproc

theorem modify_standing (hwf : s.processes.WF) {f : Process → Process}
    (hcall : s.modify pid f = .ok s') :
    ∃ proc, s.process pid = some proc ∧ s'.processes.WF ∧ s'.currentPid = s.currentPid
      ∧ ∀ j, s'.standing j = if j = pid then some (f proc).standing else s.standing j := by
  obtain ⟨proc, hproc⟩ := Scheduler.modify_ok hcall
  obtain ⟨processes, hspec, hwf', hl⟩ := modify_spec hwf hproc f
  rw [hspec] at hcall
  cases hcall
  refine ⟨proc, hproc, hwf', rfl, ?_⟩
  intro j
  show (processes.lookup j).map Process.standing = _
  rw [hl]
  split <;> rfl

theorem Flagged.standing {b : Bool} (h : Flagged s pid b s') (j : Nat) :
    s'.standing j = if j = pid then (s.standing j).map fun st => { st with suspended := b }
      else s.standing j := by
  unfold Scheduler.standing
  rw [h.observe (fun _ => rfl)]
  split
  · rw [map_map]
    rfl
  · rfl

theorem destroyProcess_standing (hwf : s.processes.WF) (hcall : s.destroyProcess pid = .ok s')
    (j : Nat) : s'.standing j = if j = pid then none else s.standing j := by
  rw [destroyProcess, bind_ok] at hcall
  obtain ⟨_, _, hcall⟩ := hcall
  obtain ⟨processes, herase, hcall⟩ := bind_ok.mp hcall
  cases hcall
  obtain ⟨_, _, hl⟩ := Pool.erase_ok hwf herase
  show (processes.lookup j).map Process.standing = _
  rw [hl]
  split <;> rfl

/-- What `proc_kill` does to the process, to the one that waits for it, and to all
others. -/
structure Killed (s : Scheduler) (pid : Nat) (st : Standing) (s' : Scheduler) : Prop where
  self : ∃ st', s'.standing pid = some st' ∧ st'.terminating = true
    ∧ st'.waitingProcess = st.waitingProcess ∧ st'.kernelStack = st.kernelStack
    ∧ (st.suspended = false → st'.suspended = false)
  resumed : ∀ w, w ≠ pid → st.waitingProcess = some w →
    s'.standing w = (s.standing w).map fun sw => { sw with suspended := false }
  others : ∀ j, j ≠ pid → st.waitingProcess ≠ some j → s'.standing j = s.standing j

theorem procKill_standing (h : s.Inv ls) {status : Int} (hcare : s.Killable pid)
    (hproc : s.process pid = some proc) (hcall : s.procKill pid status = .ok s') :
    Killed s pid proc.standing s' := by
  obtain ⟨s2, ls2, hinv2, _, _, hcore2, hrest⟩ := procKill_split h hcare hproc hcall
  have hstanding2 : ∀ j, s2.standing j
      = if j = pid then some { proc.standing with terminating := true } else s.standing j := by
    intro j
    unfold standing
    rw [← observe_core (fun _ => rfl) s2 j, hcore2]
    split
    · rfl
    · exact observe_core (fun _ => rfl) s j
  have hself := hstanding2 pid
  rw [if_pos rfl] at hself
  rcases hrest with ⟨hnone, heq⟩ | ⟨w, hw, halive, hresume⟩
  · rw [heq]
    refine ⟨⟨_, hself, rfl, rfl, rfl, id⟩, ?_, ?_⟩
    · intro w _ hsome
      have hsome : proc.waitingProcess = some w := hsome
      rw [hnone] at hsome
      cases hsome
    · intro j hj _
      rw [hstanding2, if_neg hj]
  obtain ⟨_, _, _, _, hflagged⟩ := hinv2.resume_ok halive hresume
  have hresumed := hflagged.standing
  refine ⟨?_, ?_, ?_⟩
  · rw [hresumed, hself]
    split
    · exact ⟨_, rfl, rfl, rfl, rfl, fun _ => rfl⟩
    · exact ⟨_, rfl, rfl, rfl, rfl, id⟩
  · intro w' hne' hsome
    have hsome : proc.waitingProcess = some w' := hsome
    rw [hw] at hsome
    cases hsome
    rw [hresumed, if_pos rfl, hstanding2, if_neg hne']
  · intro j hj hnot
    have hjw : j ≠ w := by
      intro heq
      rw [heq] at hnot
      exact hnot hw
    rw [hresumed, if_neg hjw, hstanding2, if_neg hj]

end Scheduler

/-! ## Care, and what it keeps right -/

namespace Scheduler

variable {s s' : Scheduler} {ls : QueueName → List Nat} {pid : Nat} {timeout : Nat → Int}

/-- What terminates has not terminated before, and the process noted in it, if that is
suspended, has not terminated either and does wait for it. -/
def Releases (s : Scheduler) (pid : Nat) : Prop :=
  ∀ st, s.standing pid = some st → st.terminating = false ∧
    ∀ w sw, st.waitingProcess = some w → s.standing w = some sw → sw.suspended = true →
      sw.terminating = false ∧ sw.kernelStack = .wait pid

/-- No process that can still run is in `wait(pid)`. -/
def NotAwaited (s : Scheduler) (pid : Nat) : Prop :=
  ∀ w sw, s.standing w = some sw → sw.kernelStack = .wait pid → sw.terminating = true

/-- The notes are right: a process in `wait(pid)` is noted in `pid`, and suspended as long
as `pid` has not terminated. No other is suspended, and none that is has a timeout. -/
structure Noted (s : Scheduler) (timeout : Nat → Int) (ls : QueueName → List Nat) : Prop where
  inv : s.Inv ls
  waiting : ∀ w sw pid, s.standing w = some sw → sw.terminating = false →
    sw.kernelStack = .wait pid → pid ≠ w ∧ ∃ st, s.standing pid = some st
      ∧ st.waitingProcess = some w ∧ (sw.suspended = true ↔ st.terminating = false)
  suspended : ∀ w sw, s.standing w = some sw → sw.terminating = false → sw.suspended = true →
    (∃ pid, sw.kernelStack = .wait pid) ∧ timeout w ≤ 0
  exited : ∀ w sw, s.standing w = some sw → sw.kernelStack = .exit → sw.terminating = true

variable {ls' : QueueName → List Nat}

theorem Noted.congr (h : s.Noted timeout ls) (hinv : s'.Inv ls')
    (hstanding : ∀ j, s'.standing j = s.standing j) : s'.Noted timeout ls' := by
  refine ⟨hinv, ?_, ?_, ?_⟩
  · intro w sw pid hw
    rw [hstanding] at hw
    rw [hstanding]
    exact h.waiting w sw pid hw
  · intro w sw hw
    rw [hstanding] at hw
    exact h.suspended w sw hw
  · intro w sw hw
    rw [hstanding] at hw
    exact h.exited w sw hw

theorem Noted.waiter_unique (h : s.Noted timeout ls) {w w' : Nat} {sw sw' : Standing}
    (hw : s.standing w = some sw) (halive : sw.terminating = false)
    (hstack : sw.kernelStack = .wait pid) (hw' : s.standing w' = some sw')
    (halive' : sw'.terminating = false) (hstack' : sw'.kernelStack = .wait pid) : w = w' := by
  obtain ⟨_, st, hst, hnote, _⟩ := h.waiting w sw pid hw halive hstack
  obtain ⟨_, st', hst', hnote', _⟩ := h.waiting w' sw' pid hw' halive' hstack'
  rw [hst] at hst'
  cases hst'
  rw [hnote] at hnote'
  exact some.inj hnote'

theorem ne_of_terminating {w : Nat} {sw st : Standing} (hw : s.standing w = some sw)
    (halive : sw.terminating = false) (hst : s.standing pid = some st)
    (hterm : st.terminating = true) : w ≠ pid := by
  rintro rfl
  rw [hst] at hw
  cases hw
  rw [hterm] at halive
  cases halive

section

variable (h : s.Noted timeout ls)

include h

theorem Noted.killable (hrel : s.Releases pid) : s.Killable pid := by
  intro proc hproc
  obtain ⟨hterm, hwaiter⟩ := hrel _ (standing_of_process hproc)
  refine ⟨hterm, ?_⟩
  intro w hw t hflags
  obtain ⟨pw, hpw, hfl⟩ := process_of_flags hflags
  have hsusp : pw.suspended = true := congrArg Prod.snd hfl
  obtain ⟨hterm', hstack⟩ := hwaiter w _ hw (standing_of_process hpw) hsusp
  have hne := (h.waiting w _ pid (standing_of_process hpw) hterm' hstack).1
  exact ⟨(congrArg Prod.fst hfl).symm.trans hterm', hne.symm⟩

/-- What terminates releases the process that waits for it, and no other. -/
theorem Noted.kill {st : Standing} (hst : s.standing pid = some st)
    (hrel : s.Releases pid) (hinv : s'.Inv ls') (hkill : Killed s pid st s') :
    s'.Noted timeout ls' := by
  obtain ⟨st', hst', hterm', hnote', _⟩ := hkill.self
  obtain ⟨_, hwaiter⟩ := hrel st hst
  -- any other process keeps what it had, but for the flag of the one that waits
  have hother : ∀ j sj, j ≠ pid → s'.standing j = some sj → ∃ sj0, s.standing j = some sj0
      ∧ sj.terminating = sj0.terminating ∧ sj.waitingProcess = sj0.waitingProcess
      ∧ sj.kernelStack = sj0.kernelStack
      ∧ sj.suspended = if st.waitingProcess = some j then false else sj0.suspended := by
    intro j sj hj hsj
    by_cases hnote : st.waitingProcess = some j
    · rw [hkill.resumed j hj hnote, map_eq_some_iff] at hsj
      obtain ⟨sj0, hsj0, rfl⟩ := hsj
      exact ⟨sj0, hsj0, rfl, rfl, rfl, (if_pos hnote).symm⟩
    · rw [hkill.others j hj hnote] at hsj
      exact ⟨sj, hsj, rfl, rfl, rfl, (if_neg hnote).symm⟩
  refine ⟨hinv, ?_, ?_, ?_⟩
  · intro w sw p hw halive hstack
    have hwp : w ≠ pid := ne_of_terminating hw halive hst' hterm'
    obtain ⟨sw0, hsw0, hterm0, _, hstack0, hsusp0⟩ := hother w sw hwp hw
    obtain ⟨hne, sp0, hsp0, hnote0, hiff⟩ :=
      h.waiting w sw0 p hsw0 (hterm0 ▸ halive) (hstack0 ▸ hstack)
    refine ⟨hne, ?_⟩
    by_cases hp : p = pid
    · -- it waits for the one that terminates
      rw [hp, hst] at hsp0
      cases hsp0
      rw [hp]
      refine ⟨st', hst', hnote'.trans hnote0, ?_⟩
      rw [hsusp0, if_pos hnote0, hterm']
      exact ⟨fun hf => Bool.noConfusion hf, fun hf => Bool.noConfusion hf⟩
    -- it waits for another, and is not the one that is noted
    have hsame : sw.suspended = sw0.suspended := by
      rw [hsusp0]
      split
      next hnote =>
        cases hs : sw0.suspended with
        | false => rfl
        | true =>
          have hstack1 := (hwaiter w sw0 hnote hsw0 hs).2
          rw [← hstack0, hstack] at hstack1
          cases hstack1
          exact absurd rfl hp
      · rfl
    rw [hsame]
    by_cases hnote : st.waitingProcess = some p
    · rw [hkill.resumed p hp hnote, hsp0]
      exact ⟨_, rfl, hnote0, hiff⟩
    · rw [hkill.others p hp hnote]
      exact ⟨sp0, hsp0, hnote0, hiff⟩
  · intro w sw hw halive hsusp
    have hwp : w ≠ pid := ne_of_terminating hw halive hst' hterm'
    obtain ⟨sw0, hsw0, hterm0, _, hstack0, hsusp0⟩ := hother w sw hwp hw
    have hsusp1 : sw0.suspended = true := by
      rw [hsusp0] at hsusp
      split at hsusp
      · cases hsusp
      · exact hsusp
    rw [hstack0]
    exact h.suspended w sw0 hsw0 (hterm0 ▸ halive) hsusp1
  · intro w sw hw hstack
    by_cases hwp : w = pid
    · rw [hwp, hst'] at hw
      cases hw
      exact hterm'
    · obtain ⟨sw0, hsw0, hterm0, _, hstack0, _⟩ := hother w sw hwp hw
      rw [hterm0]
      exact h.exited w sw0 hsw0 (hstack0 ▸ hstack)

theorem Noted.destroy (hfree : s.NotAwaited pid)
    (hinv : s'.Inv ls) (hstanding : ∀ j, s'.standing j = if j = pid then none else s.standing j) :
    s'.Noted timeout ls := by
  have hold : ∀ j sj, s'.standing j = some sj → j ≠ pid ∧ s.standing j = some sj := by
    intro j sj hj
    rw [hstanding] at hj
    split at hj
    · cases hj
    · next hne => exact ⟨hne, hj⟩
  refine ⟨hinv, ?_, ?_, ?_⟩
  · intro w sw p hw halive hstack
    obtain ⟨_, hw⟩ := hold w sw hw
    obtain ⟨hne, sp, hsp, hrest⟩ := h.waiting w sw p hw halive hstack
    have hp : p ≠ pid := by
      intro heq
      rw [heq] at hstack
      rw [hfree w sw hw hstack] at halive
      cases halive
    refine ⟨hne, sp, ?_, hrest⟩
    rw [hstanding, if_neg hp, hsp]
  · intro w sw hw
    exact h.suspended w sw (hold w sw hw).2
  · intro w sw hw
    exact h.exited w sw (hold w sw hw).2

theorem Noted.wait {current : Nat} {sc st : Standing}
    (hsc : s.standing current = some sc) (hst : s.standing pid = some st) (hne : pid ≠ current)
    (hterm : st.terminating = false) (hfree : s.NotAwaited pid) (htimeout : timeout current ≤ 0)
    (hinv : s'.Inv ls')
    (hself : s'.standing current = some { sc with suspended := true, kernelStack := .wait pid })
    (hnoted : s'.standing pid = some { st with waitingProcess := some current })
    (hothers : ∀ j, j ≠ current → j ≠ pid → s'.standing j = s.standing j) :
    s'.Noted timeout ls' := by
  -- but for the caller, what a process is in is as before
  have hold : ∀ j sj, j ≠ current → s'.standing j = some sj → ∃ sj0, s.standing j = some sj0
      ∧ sj.terminating = sj0.terminating ∧ sj.suspended = sj0.suspended
      ∧ sj.kernelStack = sj0.kernelStack := by
    intro j sj hj hsj
    by_cases hp : j = pid
    · rw [hp, hnoted] at hsj
      cases hsj
      exact ⟨st, hp ▸ hst, rfl, rfl, rfl⟩
    · rw [hothers j hj hp] at hsj
      exact ⟨sj, hsj, rfl, rfl, rfl⟩
  refine ⟨hinv, ?_, ?_, ?_⟩
  · intro w sw p hw halive hstack
    by_cases hwc : w = current
    · rw [hwc, hself] at hw
      cases hw
      cases hstack
      rw [hwc]
      exact ⟨hne, _, hnoted, rfl, fun _ => hterm, fun _ => rfl⟩
    obtain ⟨sw0, hsw0, hterm0, hsusp0, hstack0⟩ := hold w sw hwc hw
    have hp : p ≠ pid := by
      intro heq
      have hdead := hfree w sw0 hsw0 (by rw [← hstack0, hstack, heq])
      rw [hterm0, hdead] at halive
      cases halive
    obtain ⟨hnew, sp, hsp, hnote, hiff⟩ :=
      h.waiting w sw0 p hsw0 (hterm0 ▸ halive) (hstack0 ▸ hstack)
    refine ⟨hnew, ?_⟩
    rw [hsusp0]
    by_cases hpc : p = current
    · rw [hpc, hsc] at hsp
      cases hsp
      rw [hpc]
      exact ⟨_, hself, hnote, hiff⟩
    · exact ⟨sp, by rw [hothers p hpc hp, hsp], hnote, hiff⟩
  · intro w sw hw halive hsusp
    by_cases hwc : w = current
    · rw [hwc, hself] at hw
      cases hw
      exact ⟨⟨pid, rfl⟩, hwc ▸ htimeout⟩
    · obtain ⟨sw0, hsw0, hterm0, hsusp0, hstack0⟩ := hold w sw hwc hw
      rw [hstack0]
      exact h.suspended w sw0 hsw0 (hterm0 ▸ halive) (hsusp0 ▸ hsusp)
  · intro w sw hw hstack
    by_cases hwc : w = current
    · rw [hwc, hself] at hw
      cases hw
      cases hstack
    · obtain ⟨sw0, hsw0, hterm0, _, hstack0⟩ := hold w sw hwc hw
      rw [hterm0]
      exact h.exited w sw0 hsw0 (hstack0 ▸ hstack)

theorem Noted.setStack {i : Nat} {si : Standing} {k : KernelStack}
    (hsi : s.standing i = some si)
    (hcase : si.terminating = true ∨ (si.suspended = false ∧ k = .user))
    (hinv : s'.Inv ls) (hstanding : ∀ j, s'.standing j
      = if j = i then some { si with kernelStack := k } else s.standing j) :
    s'.Noted timeout ls := by
  refine ⟨hinv, ?_, ?_, ?_⟩
  · intro w sw p hw halive hstack
    have hwi : w ≠ i := by
      intro heq
      rw [hstanding, if_pos heq] at hw
      cases hw
      rcases hcase with hdead | ⟨_, hk⟩
      · rw [hdead] at halive
        cases halive
      · rw [hk] at hstack
        cases hstack
    rw [hstanding, if_neg hwi] at hw
    obtain ⟨hne, sp, hsp, hnote, hiff⟩ := h.waiting w sw p hw halive hstack
    refine ⟨hne, ?_⟩
    rw [hstanding]
    split
    next hp =>
      rw [hp, hsi] at hsp
      cases hsp
      exact ⟨_, rfl, hnote, hiff⟩
    · exact ⟨sp, hsp, hnote, hiff⟩
  · intro w sw hw halive hsusp
    rw [hstanding] at hw
    split at hw
    · cases hw
      rcases hcase with hdead | ⟨hrunning, _⟩
      · rw [hdead] at halive
        cases halive
      · rw [hrunning] at hsusp
        cases hsusp
    · exact h.suspended w sw hw halive hsusp
  · intro w sw hw hstack
    rw [hstanding] at hw
    split at hw
    · cases hw
      rcases hcase with hdead | ⟨_, hk⟩
      · exact hdead
      · rw [hk] at hstack
        cases hstack
    · exact h.exited w sw hw hstack

theorem Noted.yield (hcall : s.procYield = .ok s') :
    s'.Noted timeout ls ∧ (∀ j, s'.standing j = s.standing j)
      ∧ ∀ sc, s'.standing s'.currentPid = some sc →
        sc.suspended = false ∧ sc.terminating = false := by
  obtain ⟨s1, hspec, hinv, _, hcurrent, hvital⟩ := procYield_spec h.inv
  rw [hspec] at hcall
  cases hcall
  have hstanding : ∀ j, s'.standing j = s.standing j := observe_vital hvital fun _ => rfl
  refine ⟨h.congr hinv hstanding, hstanding, ?_⟩
  intro sc hsc
  rw [flags_of_standing hsc] at hcurrent
  have hflags := some.inj hcurrent
  exact ⟨congrArg Prod.snd hflags, congrArg Prod.fst hflags⟩

end

end Scheduler

/-! ## One event -/

namespace Timed

open Scheduler

variable {t t' : Timed} {ls : QueueName → List Nat}

def standing (t : Timed) (pid : Nat) : Option Standing := t.scheduler.standing pid

/-- The condition. What terminates had not terminated, and the process noted in it, if
suspended, had not either and waits for it. Who waits for another can be suspended, has no
timeout left, and nobody else waits for that process. -/
def Heedful (t : Timed) : Event → Prop
  | .kill pid => t.scheduler.Releases (pid.toNat % 65536)
  | .exit _ => t.scheduler.Releases t.scheduler.currentPid
  | .wait pid => ∀ st, t.standing (pid % 65536).toNat = some st →
      (pid % 65536).toNat ≠ t.scheduler.currentPid ∧ t.scheduler.NotAwaited (pid % 65536).toNat
      ∧ (st.terminating = false → t.scheduler.CanBlock
        ∧ t.suspensionTimeout t.scheduler.currentPid ≤ 0)
  | _ => True

structure Waits (t : Timed) (ls : QueueName → List Nat) : Prop where
  noted : t.scheduler.Noted t.suspensionTimeout ls
  current : ∀ sc, t.standing t.scheduler.currentPid = some sc → sc.suspended = false
    ∧ (sc.kernelStack ≠ .user → sc.terminating = false)
  ticking : ∀ pid, t.ticking pid = none

def OnlyDead (t t' : Timed) : Prop :=
  ∀ pid st, t.standing pid = some st → t'.standing pid = none → st.terminating = true

theorem OnlyDead.of_standing (h : ∀ j, (t.standing j).isSome = true → (t'.standing j).isSome = true) :
    OnlyDead t t' := by
  intro pid st hst hnone
  have hsome := h pid (by rw [hst]; rfl)
  rw [hnone] at hsome
  cases hsome

theorem midCall_eq {s : Scheduler} {sc : Standing} (h : s.standing s.currentPid = some sc) :
    s.midCall = true ↔ sc.kernelStack ≠ .user := by
  obtain ⟨proc, hproc, rfl⟩ := process_of_standing h
  have hlookup : s.processes.lookup s.currentPid = some proc := hproc
  unfold midCall
  rw [hlookup]
  exact decide_eq_true_iff

theorem Waits.user (h : t.Waits ls) {e : Event} (henabled : t.Enabled e) (hne : e ≠ .continueCall)
    {sc : Standing} (hsc : t.standing t.scheduler.currentPid = some sc) :
    sc.kernelStack = .user := by
  by_contra hstack
  exact hne (henabled.2.mp ⟨h.ticking _, (midCall_eq hsc).mpr hstack⟩)

theorem OnlyDead.of_destroy {pid : Nat} {st : Standing} (hst : t.standing pid = some st)
    (hterm : st.terminating = true)
    (h : ∀ j, j ≠ pid → (t.standing j).isSome = true → (t'.standing j).isSome = true) :
    OnlyDead t t' := by
  intro i si hi hnone
  by_cases heq : i = pid
  · rw [heq, hst] at hi
    cases hi
    exact hterm
  · have hsome := h i heq (by rw [hi]; rfl)
    rw [hnone] at hsome
    cases hsome

theorem inScheduler_ok {call : Scheduler → Checked Scheduler} (h : t.inScheduler call = .ok t') :
    ∃ s', call t.scheduler = .ok s' ∧ t' = { t with scheduler := s' } := by
  obtain ⟨s', hcall, hrest⟩ := bind_ok.mp h
  cases hrest
  exact ⟨s', hcall, rfl⟩

variable {s' : Scheduler}

theorem Waits.kill (h : t.Waits ls) {pid : Nat} {status : Int}
    (huser : ∀ sc, t.standing t.scheduler.currentPid = some sc → sc.kernelStack = .user)
    (hrel : t.scheduler.Releases pid) (hcall : t.scheduler.procKill pid status = .ok s') :
    ∃ ls', ({ t with scheduler := s' } : Timed).Waits ls'
      ∧ OnlyDead t { t with scheduler := s' } ∧ s'.currentPid = t.scheduler.currentPid
      ∧ ∀ st, s'.standing pid = some st → st.terminating = true := by
  have hkillable := h.noted.killable hrel
  obtain ⟨ls', hinv, hcurrent, _⟩ := procKill_ok h.noted.inv hkillable hcall
  cases hproc : t.scheduler.process pid with
  | none =>
    cases procKill_invalid h.noted.inv.linked.wf hproc hcall
    refine ⟨ls, h, OnlyDead.of_standing fun _ => id, rfl, ?_⟩
    intro st hst
    obtain ⟨proc, hproc', _⟩ := process_of_standing hst
    rw [hproc] at hproc'
    cases hproc'
  | some proc =>
    have hkilled := procKill_standing h.noted.inv hkillable hproc hcall
    have hst := standing_of_process hproc
    obtain ⟨st', hst', hterm', _, hstack', hsusp'⟩ := hkilled.self
    -- what the other processes keep
    have hkeep : ∀ j, j ≠ pid → ∀ sj, t.standing j = some sj → ∃ sj', s'.standing j = some sj'
        ∧ sj'.kernelStack = sj.kernelStack ∧ (sj.suspended = false → sj'.suspended = false) := by
      intro j hj sj hsj
      have hsj : t.scheduler.standing j = some sj := hsj
      by_cases hnote : proc.standing.waitingProcess = some j
      · rw [hkilled.resumed j hj hnote, hsj]
        exact ⟨_, rfl, rfl, fun _ => rfl⟩
      · rw [hkilled.others j hj hnote]
        exact ⟨sj, hsj, rfl, id⟩
    refine ⟨ls', ⟨h.noted.kill hst hrel hinv hkilled, ?_, h.ticking⟩, ?_, hcurrent, ?_⟩
    · intro sc hsc
      have hsc : s'.standing s'.currentPid = some sc := hsc
      rw [hcurrent] at hsc
      by_cases hself : t.scheduler.currentPid = pid
      · rw [hself, hst'] at hsc
        cases hsc
        have hsc0 : t.standing t.scheduler.currentPid = some proc.standing := by
          rw [hself]
          exact hst
        refine ⟨hsusp' (h.current _ hsc0).1, fun hstack => absurd ?_ hstack⟩
        exact hstack'.trans (huser _ hsc0)
      -- the current process exists, as it does afterwards
      obtain ⟨sc0, hsc0⟩ : ∃ sc0, t.standing t.scheduler.currentPid = some sc0 := by
        by_cases hnote : proc.standing.waitingProcess = some t.scheduler.currentPid
        · rw [hkilled.resumed _ hself hnote, map_eq_some_iff] at hsc
          obtain ⟨sc0, hsc0, _⟩ := hsc
          exact ⟨sc0, hsc0⟩
        · rw [hkilled.others _ hself hnote] at hsc
          exact ⟨sc, hsc⟩
      obtain ⟨sc', hsc', hstack, hsusp⟩ := hkeep _ hself sc0 hsc0
      rw [hsc'] at hsc
      cases hsc
      exact ⟨hsusp (h.current sc0 hsc0).1, fun hne => absurd (hstack.trans (huser sc0 hsc0)) hne⟩
    · apply OnlyDead.of_standing
      intro j hj
      obtain ⟨sj, hsj⟩ := isSome_iff_exists.mp hj
      show (s'.standing j).isSome = true
      by_cases hjp : j = pid
      · rw [hjp, hst']
        rfl
      · obtain ⟨sj', hsj', _⟩ := hkeep j hjp sj hsj
        rw [hsj']
        rfl
    · intro st hst
      rw [hst'] at hst
      cases hst
      exact hterm'

theorem Waits.of_yield {s : Scheduler} (h : s.Noted t.suspensionTimeout ls)
    (hticking : ∀ pid, t.ticking pid = none) (hcall : s.procYield = .ok s') :
    ({ t with scheduler := s' } : Timed).Waits ls ∧ ∀ j, s'.standing j = s.standing j := by
  obtain ⟨hnoted, hstanding, hcurrent⟩ := h.yield hcall
  exact ⟨⟨hnoted, fun sc hsc => ⟨(hcurrent sc hsc).1, fun _ => (hcurrent sc hsc).2⟩, hticking⟩,
    hstanding⟩

theorem Waits.exit (h : t.Waits ls) {status : Int}
    (huser : ∀ sc, t.standing t.scheduler.currentPid = some sc → sc.kernelStack = .user)
    (hrel : t.scheduler.Releases t.scheduler.currentPid)
    (hcall : t.scheduler.syscallExit status = .ok s') :
    ∃ ls', ({ t with scheduler := s' } : Timed).Waits ls'
      ∧ OnlyDead t { t with scheduler := s' } := by
  rw [syscallExit, bind_ok] at hcall
  obtain ⟨s1, hkill, hcall⟩ := hcall
  obtain ⟨s2, hset, hyield⟩ := bind_ok.mp hcall
  obtain ⟨ls1, hwaits1, hdead1, _, hterm1⟩ := h.kill huser hrel hkill
  obtain ⟨hinv2, _⟩ := hwaits1.noted.inv.modify_ok hset (fun _ => ⟨rfl, rfl, rfl⟩)
  obtain ⟨proc, hproc, _, _, hl⟩ := modify_standing hwaits1.noted.inv.linked.wf hset
  have hst := standing_of_process hproc
  have hnoted2 : s2.Noted t.suspensionTimeout ls1 :=
    hwaits1.noted.setStack (k := .exit) hst (.inl (hterm1 _ hst)) hinv2 hl
  obtain ⟨hwaits, hstanding⟩ := Waits.of_yield hnoted2 h.ticking hyield
  refine ⟨ls1, hwaits, ?_⟩
  intro pid st hpid hnone
  refine hdead1 pid st hpid ?_
  have hnone : s'.standing pid = none := hnone
  rw [hstanding, hl] at hnone
  split at hnone
  · cases hnone
  · exact hnone

theorem Waits.wait (h : t.Waits ls) {pid : Int} (hheed : t.Heedful (.wait pid))
    (hcall : t.scheduler.syscallWait pid = .ok s') :
    ∃ ls', ({ t with scheduler := s' } : Timed).Waits ls'
      ∧ OnlyDead t { t with scheduler := s' } := by
  unfold syscallWait at hcall
  simp only at hcall
  split at hcall
  · cases hcall
    exact ⟨ls, h, OnlyDead.of_standing fun _ => id⟩
  split at hcall
  · cases hcall
    exact ⟨ls, h, OnlyDead.of_standing fun _ => id⟩
  obtain ⟨proc, hget, hcall⟩ := bind_ok.mp hcall
  have hproc : t.scheduler.process (pid % 65536).toNat = some proc := Pool.get_ok hget
  have hst := standing_of_process hproc
  obtain ⟨hne, hfree, hblock⟩ := hheed _ hst
  have hwf := h.noted.inv.linked.wf
  split at hcall
  next hterm =>
    -- the caller is suspended, noted, and yields
    obtain ⟨hcan, htimeout⟩ := hblock hterm
    obtain ⟨s1, hsuspend, hcall⟩ := bind_ok.mp hcall
    obtain ⟨s2, hnote, hcall⟩ := bind_ok.mp hcall
    obtain ⟨s3, hstack, hyield⟩ := bind_ok.mp hcall
    obtain ⟨cproc, hcproc⟩ : ∃ cproc, t.scheduler.process t.scheduler.currentPid = some cproc := by
      rw [suspend, bind_ok] at hsuspend
      obtain ⟨cproc, hcget, _⟩ := hsuspend
      exact ⟨cproc, Pool.get_ok hcget⟩
    have hsc := standing_of_process hcproc
    obtain ⟨ls1, hinv1, _, hflagged⟩ := suspend_ok h.noted.inv hcan hsuspend
    have hsuspended := hflagged.standing
    obtain ⟨hinv2, _⟩ := hinv1.modify_ok hnote (fun _ => ⟨rfl, rfl, rfl⟩)
    obtain ⟨hinv3, _⟩ := hinv2.modify_ok hstack (fun _ => ⟨rfl, rfl, rfl⟩)
    obtain ⟨proc1, hproc1, _, _, hl2⟩ := modify_standing hinv1.linked.wf hnote
    obtain ⟨cproc2, hcproc2, _, _, hl3⟩ := modify_standing hinv2.linked.wf hstack
    have hst1 : proc1.standing = proc.standing := by
      have hmid := standing_of_process hproc1
      rw [hsuspended, if_neg hne, hst] at hmid
      exact (some.inj hmid).symm
    have hsc2 : cproc2.standing = { cproc.standing with suspended := true } := by
      have hmid := standing_of_process hcproc2
      rw [hl2, if_neg hne.symm, hsuspended, if_pos rfl, hsc] at hmid
      exact (some.inj hmid).symm
    have hself : s3.standing t.scheduler.currentPid = some { cproc.standing with
            suspended := true, kernelStack := .wait (pid % 65536).toNat } := by
      rw [hl3, if_pos rfl]
      show some { cproc2.standing with kernelStack := .wait (pid % 65536).toNat } = _
      rw [hsc2]
    have hnoted : s3.standing (pid % 65536).toNat
        = some { proc.standing with waitingProcess := some t.scheduler.currentPid } := by
      rw [hl3, if_neg hne, hl2, if_pos rfl]
      show some { proc1.standing with waitingProcess := some t.scheduler.currentPid } = _
      rw [hst1]
    have hothers : ∀ j, j ≠ t.scheduler.currentPid → j ≠ (pid % 65536).toNat →
        s3.standing j = t.scheduler.standing j := by
      intro j hj hjp
      rw [hl3, if_neg hj, hl2, if_neg hjp, hsuspended, if_neg hj]
    have hnoted3 := h.noted.wait hsc hst hne hterm hfree htimeout hinv3 hself hnoted hothers
    obtain ⟨hwaits, hstanding⟩ := Waits.of_yield hnoted3 h.ticking hyield
    refine ⟨ls1, hwaits, OnlyDead.of_standing ?_⟩
    intro j hj
    show (s'.standing j).isSome = true
    rw [hstanding]
    by_cases hjc : j = t.scheduler.currentPid
    · rw [hjc, hself]
      rfl
    · by_cases hjp : j = (pid % 65536).toNat
      · rw [hjp, hnoted]
        rfl
      · rw [hothers j hjc hjp]
        exact hj
  next hterm =>
    -- it has terminated already, and nobody else is about to destroy it
    have hterm : proc.terminating = true := Bool.eq_true_of_not_eq_false hterm
    obtain ⟨hinv, hcurrent⟩ := destroyProcess_ok h.noted.inv hproc hterm hcall
    have hstanding := destroyProcess_standing hwf hcall
    refine ⟨ls, ⟨h.noted.destroy hfree hinv hstanding, ?_, h.ticking⟩, ?_⟩
    · intro sc hsc
      have hsc : s'.standing s'.currentPid = some sc := hsc
      rw [hcurrent, hstanding, if_neg hne.symm] at hsc
      exact h.current sc hsc
    · refine OnlyDead.of_destroy hst hterm fun j hj hsome => ?_
      show (s'.standing j).isSome = true
      rw [hstanding, if_neg hj]
      exact hsome

/-- A process that goes on after `wait(pid)` finds that `pid` has terminated. -/
theorem Waits.continueCall (h : t.Waits ls) (hmid : t.scheduler.midCall = true) :
    ∃ pid st s', t.standing pid = some st ∧ st.terminating = true
      ∧ t.scheduler.continueCall = .ok s' ∧ ({ t with scheduler := s' } : Timed).Waits ls
      ∧ ∀ j, s'.standing j = if j = pid then none
        else if j = t.scheduler.currentPid then
          (t.standing j).map fun sc => { sc with kernelStack := .user }
        else t.standing j := by
  obtain ⟨cproc, hcproc⟩ : ∃ cproc, t.scheduler.process t.scheduler.currentPid = some cproc := by
    unfold midCall at hmid
    cases hlookup : t.scheduler.processes.lookup t.scheduler.currentPid with
    | none =>
      rw [hlookup] at hmid
      cases hmid
    | some cproc => exact ⟨cproc, hlookup⟩
  have hsc := standing_of_process hcproc
  have hstack : cproc.kernelStack ≠ .user := (midCall_eq hsc).mp hmid
  obtain ⟨hrunning, halive⟩ := h.current _ hsc
  have halive : cproc.terminating = false := halive hstack
  cases hk : cproc.kernelStack with
  | user => exact absurd hk hstack
  | exit =>
    -- a process that has exited does not run
    have hdead : cproc.terminating = true := h.noted.exited _ _ hsc hk
    rw [halive] at hdead
    cases hdead
  | wait pid =>
    obtain ⟨hne, st, hst, _, hiff⟩ := h.noted.waiting _ _ pid hsc halive hk
    have hterm : st.terminating = true := by
      cases hst : st.terminating with
      | true => rfl
      | false =>
        have hsusp : cproc.standing.suspended = true := hiff.mpr hst
        rw [hrunning] at hsusp
        cases hsusp
    -- its own stack
    obtain ⟨s1, hset, hinv1, hsame, hprocess1⟩ := h.noted.inv.modify hcproc
      (f := fun proc => { proc with kernelStack := .user }) rfl rfl rfl
    have hstanding1 : ∀ j, s1.standing j = if j = t.scheduler.currentPid then
        some { cproc.standing with kernelStack := .user } else t.scheduler.standing j := by
      intro j
      unfold Scheduler.standing
      rw [hprocess1]
      split <;> rfl
    have hnoted1 : s1.Noted t.suspensionTimeout ls :=
      h.noted.setStack (k := .user) hsc (.inr ⟨hrunning, rfl⟩) hinv1 hstanding1
    -- the other process
    obtain ⟨proc1, hproc1, hst1⟩ : ∃ proc1, s1.process pid = some proc1 ∧ proc1.standing = st := by
      apply process_of_standing
      rw [hstanding1, if_neg hne]
      exact hst
    have hterm1 : proc1.terminating = true := by
      have hflag := congrArg Standing.terminating hst1
      exact hflag.trans hterm
    have hfree : s1.NotAwaited pid := by
      intro w sw hw hwait
      rw [hstanding1] at hw
      split at hw
      · cases hw
        cases hwait
      next hwc =>
        cases hdead : sw.terminating with
        | true => rfl
        | false =>
          exact absurd (h.noted.waiter_unique hw hdead hwait hsc halive hk) hwc
    obtain ⟨processes, herase, _⟩ := Pool.erase_spec hinv1.linked.wf hproc1
    have hdestroy : s1.destroyProcess pid = .ok { s1 with processes } := by
      rw [destroyProcess, get_spec hproc1, ok_bind, herase, ok_bind]
    have hstanding2 := destroyProcess_standing hinv1.linked.wf hdestroy
    obtain ⟨hinv2, _⟩ := destroyProcess_ok hinv1 hproc1 hterm1 hdestroy
    refine ⟨pid, st, { s1 with processes }, hst, hterm, ?_,
      ⟨hnoted1.destroy hfree hinv2 hstanding2, ?_, h.ticking⟩, ?_⟩
    · rw [Scheduler.continueCall, get_spec hcproc, ok_bind, hk]
      simp only
      rw [hset, ok_bind, get_spec hproc1, ok_bind, hterm1, check_true, ok_bind, hdestroy]
    · intro sc hsc'
      have hsc' : Scheduler.standing { s1 with processes } s1.currentPid = some sc := hsc'
      rw [hstanding2, hsame.currentPid, if_neg hne.symm, hstanding1, if_pos rfl] at hsc'
      cases hsc'
      exact ⟨hrunning, fun hstack => absurd rfl hstack⟩
    · intro j
      rw [hstanding2]
      split
      · rfl
      rw [hstanding1]
      split
      next hj =>
        show _ = (t.scheduler.standing j).map _
        rw [hj, hsc]
        rfl
      · rfl

theorem tickFrom_yields (deltaMs : Int) {l : List Nat} : ∀ {before fuel node : Nat},
    Thread t.scheduler.next t.scheduler.prev before l noProcess → node = l.headD noProcess →
    l.length < fuel → t.scheduler.processes.WF →
    (∀ i ∈ l, ∃ proc, t.scheduler.process i = some proc) →
    (∀ i ∈ l, t.suspensionTimeout i ≤ 0) →
    tickFrom deltaMs fuel node t = t.inScheduler Scheduler.procYield := by
  induction l with
  | nil =>
    intro before fuel node _ hnode hfuel _ _ _
    obtain ⟨n, rfl⟩ := Nat.exists_eq_add_of_lt hfuel
    rw [hnode]
    exact if_pos rfl
  | cons i l ih =>
    intro before fuel node hthread hnode hfuel hwf hlive htimeout
    obtain ⟨_, hnext, hrest⟩ := hthread
    obtain ⟨proc, hproc⟩ := hlive i List.mem_cons_self
    obtain ⟨n, rfl⟩ : ∃ n, fuel = n + 1 := ⟨fuel - 1, by omega⟩
    have hnode : node = i := hnode
    have hi := htimeout i List.mem_cons_self
    have hproc' : proc.nextProcess = l.headD noProcess := (next_eq hproc).symm.trans hnext
    rw [tickFrom, hnode, if_neg (ne_noProcess hwf hproc), get_spec hproc, ok_bind,
      if_neg (by omega)]
    refine ih hrest hproc' ?_ hwf ?_ ?_
    · rw [List.length_cons] at hfuel
      omega
    · exact fun j hj => hlive j (List.mem_cons_of_mem i hj)
    · exact fun j hj => htimeout j (List.mem_cons_of_mem i hj)

theorem Waits.onTimerTick (h : t.Waits ls) (deltaMs : Int) :
    t.onTimerTick deltaMs = t.inScheduler Scheduler.procYield := by
  have hlinked := h.noted.inv.linked
  refine tickFrom_yields deltaMs (hlinked.thread .suspended) (hlinked.head .suspended)
    (hlinked.length_lt .suspended) hlinked.wf (hlinked.live .suspended) ?_
  intro i hi
  obtain ⟨proc, hproc, hfl⟩ := process_of_flags ((h.noted.inv.member .suspended i).mp hi).2
  exact (h.noted.suspended i _ (standing_of_process hproc) (congrArg Prod.fst hfl)
    (congrArg Prod.snd hfl)).2

theorem Waits.yield (h : t.Waits ls)
    (hcall : t.inScheduler Scheduler.procYield = .ok t') : t'.Waits ls ∧ OnlyDead t t' := by
  obtain ⟨s', hyield, rfl⟩ := inScheduler_ok hcall
  obtain ⟨hwaits, hstanding⟩ := Waits.of_yield h.noted h.ticking hyield
  refine ⟨hwaits, OnlyDead.of_standing ?_⟩
  intro j hj
  show (s'.standing j).isSome = true
  rw [hstanding]
  exact hj

theorem Waits.fork (h : t.Waits ls) {prevProcess nextProcess : Nat}
    (hcall : t.fork prevProcess nextProcess = .ok t') : ∃ ls', t'.Waits ls' ∧ OnlyDead t t' := by
  rw [Timed.fork, bind_ok] at hcall
  obtain ⟨⟨pid, s'⟩, hspawn, hcall⟩ := hcall
  cases hcall
  obtain ⟨ls', hinv, hdead, _, _, hcurrent, _, hcore⟩ := spawn_spec h.noted.inv hspawn
  have hstanding : ∀ j, s'.standing j
      = if j = pid then some ⟨false, false, none, .user⟩ else t.scheduler.standing j := by
    intro j
    rw [Scheduler.standing, ← observe_core (fun _ => rfl), hcore]
    split
    · rfl
    · exact observe_core (fun _ => rfl) t.scheduler j
  have hnone : t.scheduler.standing pid = none := by
    unfold Scheduler.standing
    rw [hdead]
    rfl
  have hold : ∀ j sj, s'.standing j = some sj → (sj.suspended = true ∨ sj.kernelStack ≠ .user) →
      j ≠ pid ∧ t.scheduler.standing j = some sj := by
    intro j sj hj hbusy
    rw [hstanding] at hj
    split at hj
    · cases hj
      rcases hbusy with hsusp | hstack
      · cases hsusp
      · exact absurd rfl hstack
    · next hne => exact ⟨hne, hj⟩
  refine ⟨ls', ⟨⟨hinv, ?_, ?_, ?_⟩, ?_, ?_⟩, ?_⟩
  · intro w sw p hw halive hstack
    obtain ⟨_, hw⟩ := hold w sw hw (.inr (by rw [hstack]; exact fun hk => nomatch hk))
    obtain ⟨hne, sp, hsp, hrest⟩ := h.noted.waiting w sw p hw halive hstack
    have hp : p ≠ pid := by
      intro heq
      rw [heq, hnone] at hsp
      cases hsp
    exact ⟨hne, sp, by rw [hstanding, if_neg hp, hsp], hrest⟩
  · intro w sw hw halive hsusp
    obtain ⟨hne, hw⟩ := hold w sw hw (.inl hsusp)
    obtain ⟨hstack, htimeout⟩ := h.noted.suspended w sw hw halive hsusp
    refine ⟨hstack, ?_⟩
    show storeAt t.suspensionTimeout pid (-1) w ≤ 0
    rw [storeAt_ne _ _ hne]
    exact htimeout
  · intro w sw hw hstack
    obtain ⟨_, hw⟩ := hold w sw hw (.inr (by rw [hstack]; exact fun hk => nomatch hk))
    exact h.noted.exited w sw hw hstack
  · intro sc hsc
    have hsc : s'.standing s'.currentPid = some sc := hsc
    rw [hcurrent, hstanding] at hsc
    split at hsc
    · cases hsc
      exact ⟨rfl, fun hstack => absurd rfl hstack⟩
    · exact h.current sc hsc
  · intro i
    show storeAt t.ticking pid none i = none
    unfold storeAt
    split
    · rfl
    · exact h.ticking i
  · apply OnlyDead.of_standing
    intro j hj
    show (s'.standing j).isSome = true
    rw [hstanding]
    split
    · rfl
    · exact hj

theorem Waits.setTimeout (h : t.Waits ls) (timeout : Int) :
    (t.syscallSetTimeout timeout).Waits ls ∧ OnlyDead t (t.syscallSetTimeout timeout) := by
  unfold syscallSetTimeout
  split
  · exact ⟨h, OnlyDead.of_standing fun _ => id⟩
  refine ⟨⟨⟨h.noted.inv, h.noted.waiting, ?_, h.noted.exited⟩, h.current, h.ticking⟩,
    OnlyDead.of_standing fun _ => id⟩
  intro w sw hw halive hsusp
  obtain ⟨hstack, htimeout⟩ := h.noted.suspended w sw hw halive hsusp
  refine ⟨hstack, ?_⟩
  -- the process that sets its timeout is not suspended
  have hne : w ≠ t.scheduler.currentPid := by
    intro heq
    rw [heq] at hw
    rw [(h.current sw hw).1] at hsusp
    cases hsusp
  show storeAt t.suspensionTimeout t.scheduler.currentPid timeout w ≤ 0
  rw [storeAt_ne _ _ hne]
  exact htimeout

theorem Waits.step (h : t.Waits ls) {e : Event} (henabled : t.Enabled e) (hheed : t.Heedful e)
    (hrun : t.run e = .ok t') : ∃ ls', t'.Waits ls' ∧ OnlyDead t t' := by
  cases e with
  | fork prevProcess nextProcess => exact h.fork hrun
  | kill pid =>
    rw [run] at hrun
    obtain ⟨s', hcall, rfl⟩ := inScheduler_ok hrun
    obtain ⟨ls', hwaits, hdead, _⟩ :=
      h.kill (fun _ => h.user henabled (fun he => nomatch he)) hheed hcall
    exact ⟨ls', hwaits, hdead⟩
  | exit status =>
    rw [run] at hrun
    obtain ⟨s', hcall, rfl⟩ := inScheduler_ok hrun
    exact h.exit (fun _ => h.user henabled (fun he => nomatch he)) hheed hcall
  | wait pid =>
    rw [run] at hrun
    obtain ⟨s', hcall, rfl⟩ := inScheduler_ok hrun
    exact h.wait hheed hcall
  | setTimeout timeout =>
    cases hrun
    exact ⟨ls, h.setTimeout timeout⟩
  | yield => exact ⟨ls, h.yield hrun⟩
  | tick deltaMs =>
    rw [run, h.onTimerTick deltaMs] at hrun
    exact ⟨ls, h.yield hrun⟩
  | continueCall =>
    obtain ⟨pid, st, s', hst, hterm, hcall, hwaits, hstanding⟩ :=
      h.continueCall (henabled.2.mpr rfl).2
    rw [run, inScheduler, hcall, ok_bind] at hrun
    cases hrun
    refine ⟨ls, hwaits, OnlyDead.of_destroy hst hterm fun j hj hsome => ?_⟩
    show (s'.standing j).isSome = true
    rw [hstanding, if_neg hj]
    split
    · rw [isSome_map]
      exact hsome
    · exact hsome
  | continueTick =>
    -- nobody was switched away from in the timer
    have hsome := henabled.1.mpr rfl
    rw [h.ticking] at hsome
    cases hsome

/-! ## Whole runs -/

def HeedfulStep (t t' : Timed) : Prop := ∃ e, t.Enabled e ∧ t.Heedful e ∧ t.run e = .ok t'

theorem Initial.waits (h : t.Initial) : t.Waits fun _ => [] := by
  obtain ⟨hinit, hticking⟩ := h
  have hidle : ∀ j sj, t.scheduler.standing j = some sj →
      sj.suspended = false ∧ sj.kernelStack = .user := by
    intro j sj hj
    obtain ⟨prevProcess, nextProcess, pid, hput, _⟩ := hinit.processes
    have hblank : (Pool.blank : Pool Process 128 0xFFFF).WF := Pool.blank_wf (by decide)
    obtain ⟨_, _, _, hl⟩ := Pool.emplaceAnywhere_ok hblank hput
    have hj : (t.scheduler.processes.lookup j).map Process.standing = some sj := hj
    rw [hl] at hj
    split at hj
    · cases hj
      exact ⟨rfl, rfl⟩
    · cases hj
  refine ⟨⟨hinit.inv, ?_, ?_, ?_⟩, ?_, hticking⟩
  · intro w sw p hw _ hstack
    rw [(hidle w sw hw).2] at hstack
    cases hstack
  · intro w sw hw _ hsusp
    rw [(hidle w sw hw).1] at hsusp
    cases hsusp
  · intro w sw hw hstack
    rw [(hidle w sw hw).2] at hstack
    cases hstack
  · intro sc hsc
    exact ⟨(hidle _ sc hsc).1, fun hstack => absurd (hidle _ sc hsc).2 hstack⟩

theorem waits_of_reach (h : Reach Initial HeedfulStep t) : ∃ ls, t.Waits ls := by
  refine @Reach.invariant _ _ _ (fun t => ∃ ls, t.Waits ls) ?_ ?_ t h
  · exact fun t h0 => ⟨_, h0.waits⟩
  · intro t t' _ hwaits hstep
    obtain ⟨ls, hwaits⟩ := hwaits
    obtain ⟨e, henabled, hheed, hrun⟩ := hstep
    obtain ⟨ls', hwaits', _⟩ := hwaits.step henabled hheed hrun
    exact ⟨ls', hwaits'⟩

/-- **`wait` wakes exactly on termination**: along every run that meets the condition, a living
process in `wait(pid)` is suspended for exactly as long as `pid` has not terminated; if it goes
on, the assertion holds and the call returns; and only terminated processes are destroyed. -/
theorem wait_wakes (h : Reach Initial HeedfulStep t) :
    (∀ w sw pid, t.standing w = some sw → sw.terminating = false → sw.kernelStack = .wait pid →
      ∃ st, t.standing pid = some st ∧ (sw.suspended = true ↔ st.terminating = false))
    ∧ (t.Enabled .continueCall → ∃ t', t.run .continueCall = .ok t')
    ∧ ∀ t', HeedfulStep t t' → OnlyDead t t' := by
  obtain ⟨ls, hwaits⟩ := waits_of_reach h
  refine ⟨?_, ?_, ?_⟩
  · intro w sw pid hw halive hstack
    obtain ⟨_, st, hst, _, hiff⟩ := hwaits.noted.waiting w sw pid hw halive hstack
    exact ⟨st, hst, hiff⟩
  · intro henabled
    obtain ⟨_, _, s', _, _, hcall, _⟩ := hwaits.continueCall (henabled.2.mpr rfl).2
    exact ⟨{ t with scheduler := s' }, by rw [run, inScheduler, hcall, ok_bind]⟩
  · intro t' hstep
    obtain ⟨e, henabled, hheed, hrun⟩ := hstep
    obtain ⟨_, _, hdead⟩ := hwaits.step henabled hheed hrun
    exact hdead

/-! ## Runs that can be computed -/

instance (s : Scheduler) (pid : Nat) : Decidable (s.Releases pid) :=
  decidable_of_iff (∀ st ∈ s.standing pid, st.terminating = false ∧
    ∀ w ∈ st.waitingProcess, ∀ sw ∈ s.standing w, sw.suspended = true →
      sw.terminating = false ∧ sw.kernelStack = .wait pid)
    ⟨fun h st hst => ⟨(h st hst).1, fun w sw hw hsw => (h st hst).2 w hw sw hsw⟩,
      fun h st hst => ⟨(h st hst).1, fun w hw sw hsw => (h st hst).2 w sw hw hsw⟩⟩

instance (s : Scheduler) (pid : Nat) : Decidable (s.NotAwaited pid) :=
  decidable_of_iff (∀ w < s.processes.watermark, ∀ sw ∈ s.standing w,
      sw.kernelStack = .wait pid → sw.terminating = true)
    ⟨fun h w sw hsw => by
      obtain ⟨proc, hproc, _⟩ := process_of_standing hsw
      exact h w (Pool.lookup_lt_watermark hproc) sw hsw,
     fun h w _ sw hsw => h w sw hsw⟩

instance (t : Timed) : (e : Event) → Decidable (t.Heedful e)
  | .kill pid => inferInstanceAs (Decidable (t.scheduler.Releases (pid.toNat % 65536)))
  | .exit _ => inferInstanceAs (Decidable (t.scheduler.Releases t.scheduler.currentPid))
  | .wait pid => inferInstanceAs (Decidable (∀ st ∈ t.standing (pid % 65536).toNat,
      (pid % 65536).toNat ≠ t.scheduler.currentPid ∧ t.scheduler.NotAwaited (pid % 65536).toNat
      ∧ (st.terminating = false → t.scheduler.CanBlock
        ∧ t.suspensionTimeout t.scheduler.currentPid ≤ 0)))
  | .fork _ _ | .setTimeout _ | .yield | .tick _ | .continueCall | .continueTick => .isTrue trivial

instance (t : Timed) (e : Event) : Decidable (t.Enabled e) :=
  inferInstanceAs (Decidable ((_ ↔ _) ∧ ((_ ∧ _) ↔ _)))

/-- `proc_init`, before the first tick. -/
def boot : Checked Timed := do
  let scheduler ← Scheduler.boot
  .ok { scheduler, suspensionTimeout := fun _ => -1, ticking := fun _ => none }

/-- Events in their order; heedful ones, if that is asked for. -/
def runAll (heedful : Bool) (events : List Event) (t : Timed) : Checked Timed :=
  runGuarded (fun t e => t.Enabled e ∧ (heedful = true → t.Heedful e)) run events t

theorem runAll_reach {heedful : Bool} {events : List Event} {Step' : Timed → Timed → Prop}
    (hstep : ∀ t e t', t.Enabled e → (heedful = true → t.Heedful e) → t.run e = .ok t' → Step' t t')
    (h : (boot >>= runAll heedful events) = .ok t) : Reach Initial Step' t := by
  obtain ⟨t0, hboot, hrun⟩ := bind_ok.mp h
  have hinit : t0.Initial := by
    rw [boot, bind_ok] at hboot
    obtain ⟨s0, hboot, hrest⟩ := hboot
    cases hrest
    exact ⟨boot_initial hboot, fun _ => rfl⟩
  refine Reach.runGuarded ?_ (.init hinit) hrun
  intro t e t' _ hguard hcall
  exact hstep t e t' hguard.1 hguard.2 hcall

/-- Process 3 waits for process 1 while the timer runs; process 1 exits. -/
theorem wait_wakes_exited :
    ∃ t sw, Reach Initial HeedfulStep t ∧ t.standing 3 = some sw ∧ sw.kernelStack = .wait 1
      ∧ sw.terminating = false ∧ sw.suspended = false
      ∧ ∃ st, t.standing 1 = some st ∧ st.terminating = true := by
  have hrun : ((boot >>= runAll true [.fork 0 0, .fork 0 0, .fork 0 0, .yield, .setTimeout 0,
      .wait 1, .tick 10, .exit 0]).map fun t => t.standing 3)
      = .ok (some ⟨false, false, none, .wait 1⟩) := by decide +kernel
  obtain ⟨t, ht, hstanding⟩ := map_ok.mp hrun
  have hreach : Reach Initial HeedfulStep t :=
    runAll_reach (fun _ e _ henabled hheed hcall => ⟨e, henabled, hheed rfl, hcall⟩) ht
  obtain ⟨st, hst, hiff⟩ := (wait_wakes hreach).1 3 _ 1 hstanding rfl rfl
  refine ⟨t, _, hreach, hstanding, rfl, rfl, rfl, st, hst, ?_⟩
  cases hterm : st.terminating with
  | true => rfl
  | false => exact absurd (hiff.mpr hterm) Bool.false_ne_true

/-- **Two ways to miss the end.** Processes 3 and 2 wait for process 1, which exits: process 3
stays suspended. Process 2 waits with a timeout it set before: the timer resumes it, and the
assertion fails. -/
theorem wait_fails :
    (∃ t sw st, Reach Initial Step t ∧ t.standing 3 = some sw ∧ sw.kernelStack = .wait 1
      ∧ sw.terminating = false ∧ sw.suspended = true ∧ t.standing 1 = some st
      ∧ st.terminating = true)
    ∧ ∃ t, Reach Initial Step t ∧ t.Enabled .continueCall
      ∧ t.run .continueCall
        = .error (.assertion "processes[pid].terminating && \"woke up without pid terminating\"") := by
  constructor
  · have hrun : ((boot >>= runAll false [.fork 0 0, .fork 0 0, .fork 0 0, .yield, .wait 1, .wait 1,
        .exit 0]).map fun t => (t.standing 3, t.standing 1))
        = .ok (some ⟨false, true, none, .wait 1⟩, some ⟨true, false, some 2, .exit⟩) := by
      decide +kernel
    obtain ⟨t, ht, hstanding⟩ := map_ok.mp hrun
    rw [Prod.mk.injEq] at hstanding
    refine ⟨t, _, _, ?_, hstanding.1, rfl, rfl, rfl, hstanding.2, rfl⟩
    exact runAll_reach (fun _ e _ henabled _ hcall => ⟨e, henabled, hcall⟩) ht
  · have hrun : ((boot >>= runAll false [.fork 0 0, .fork 0 0, .yield, .setTimeout 50, .wait 1,
        .tick 100]).map fun t => (decide (t.Enabled .continueCall),
          (t.run .continueCall).map fun _ => ()))
        = .ok (true, .error (.assertion
          "processes[pid].terminating && \"woke up without pid terminating\"")) := by
      decide +kernel
    obtain ⟨t, ht, hresult⟩ := map_ok.mp hrun
    rw [Prod.mk.injEq] at hresult
    refine ⟨t, ?_, of_decide_eq_true hresult.1, ?_⟩
    · exact runAll_reach (fun _ e _ henabled _ hcall => ⟨e, henabled, hcall⟩) ht
    · have hfault := hresult.2
      cases hcall : t.run .continueCall with
      | ok t' =>
        rw [hcall] at hfault
        cases hfault
      | error fault =>
        rw [hcall] at hfault
        cases hfault
        rfl

end Timed

end Peos2.Kernel
