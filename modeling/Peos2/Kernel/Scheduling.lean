/-
  Kernel.Scheduling — which process is on which queue.

  A process that is neither terminating nor the idle process is on the queue of
  its `suspended` flag, and no other is on any. Suspending, resuming, switching
  and forking keep this, and after a switch the current process is one that can
  run.
-/
import Peos2.Kernel.RunQueue

namespace Peos2.Kernel

open Peos2.Lib Peos2.Support Option

/-- Whether a process is terminating and whether it is suspended. -/
def Process.flags (proc : Process) : Bool × Bool := (proc.terminating, proc.suspended)

/-- A process without its links and its tick. -/
def Process.vital (proc : Process) : Process := { proc.core with lastTick := 0 }

def QueueName.flag : QueueName → Bool
  | .running => false
  | .suspended => true

theorem QueueName.flag_inj {q q' : QueueName} (h : q.flag = q'.flag) : q = q' := by
  cases q <;> cases q' <;> first | rfl | cases h

namespace Scheduler

/-! ## The queues and the flags -/

def flags (s : Scheduler) (pid : Nat) : Option (Bool × Bool) := (s.process pid).map Process.flags

/-- The status the process in slot `pid` was last unblocked with. -/
def status (s : Scheduler) (pid : Nat) : Option Int := (s.process pid).map Process.unblockStatus

/-- What the process in slot `pid` is, apart from its links and its tick. -/
def vital (s : Scheduler) (pid : Nat) : Option Process := (s.process pid).map Process.vital

def Queued (s : Scheduler) (q : QueueName) (pid : Nat) : Prop :=
  pid ≠ s.idleProcess ∧ s.flags pid = some (false, q.flag)

/-- The invariant: a queue holds the processes that belong there, which are
those that are not terminating and have its flag. The idle process is on none. -/
structure Inv (s : Scheduler) (ls : QueueName → List Nat) : Prop where
  linked : s.Linked ls
  member : ∀ q pid, pid ∈ ls q ↔ s.Queued q pid
  idle : s.flags s.idleProcess = some (false, false)

variable {s s' s'' : Scheduler} {ls : QueueName → List Nat} {pid : Nat} {proc : Process}
  {q : QueueName} {b t : Bool}

theorem process_of_flags {fl : Bool × Bool} (h : s.flags pid = some fl) :
    ∃ proc, s.process pid = some proc ∧ proc.flags = fl := map_eq_some_iff.mp h

theorem flags_of_process (h : s.process pid = some proc) : s.flags pid = some proc.flags := by
  unfold flags
  rw [h]
  rfl

section Observe

variable {β : Type} {g : Process → β}

theorem observe_core (hg : ∀ proc, g proc.core = g proc) (s : Scheduler) (j : Nat) :
    (s.core j).map g = (s.process j).map g := by
  unfold core
  rw [map_map, show g ∘ Process.core = g from funext hg]

theorem Relinked.observe (h : Relinked s s') (hg : ∀ proc, g proc.core = g proc) (pid : Nat) :
    (s'.process pid).map g = (s.process pid).map g := by
  rw [← observe_core hg s', h.core, observe_core hg]

theorem observe_vital (h : ∀ j, s'.vital j = s.vital j) (hg : ∀ proc, g proc.vital = g proc)
    (j : Nat) : (s'.process j).map g = (s.process j).map g := by
  have hvital := congrArg (Option.map g) (h j)
  unfold vital at hvital
  rwa [map_map, map_map, show g ∘ Process.vital = g from funext hg] at hvital

theorem Relinked.flags (h : Relinked s s') (pid : Nat) : s'.flags pid = s.flags pid :=
  h.observe (fun _ => rfl) pid

theorem Relinked.status (h : Relinked s s') (pid : Nat) : s'.status pid = s.status pid :=
  h.observe (fun _ => rfl) pid

theorem observe_of_store {v : Process} (hp : s.process pid = some proc)
    (hl : ∀ j, s'.process j = if j = pid then some v else s.process j) (hg : g v = g proc)
    (j : Nat) : (s'.process j).map g = (s.process j).map g := by
  rw [hl]
  split
  · next hj => rw [hj, hp, map_some, map_some, hg]
  · rfl

end Observe

/-- The processes have the flags they had, and the same ones are current and
idle. -/
structure SameFlags (s s' : Scheduler) : Prop where
  flags : ∀ pid, s'.flags pid = s.flags pid
  currentPid : s'.currentPid = s.currentPid
  idleProcess : s'.idleProcess = s.idleProcess

theorem Inv.congr (h : s.Inv ls) (hlinked : s'.Linked ls)
    (hflags : ∀ pid, s'.flags pid = s.flags pid) (hidle : s'.idleProcess = s.idleProcess) :
    s'.Inv ls := by
  refine ⟨hlinked, ?_, ?_⟩
  · intro q pid
    unfold Queued
    rw [hflags, hidle]
    exact h.member q pid
  · rw [hflags, hidle]
    exact h.idle

theorem Inv.modify (h : s.Inv ls) (hp : s.process pid = some proc) {f : Process → Process}
    (hnext : (f proc).nextProcess = proc.nextProcess)
    (hprev : (f proc).prevProcess = proc.prevProcess) (hflags : (f proc).flags = proc.flags) :
    ∃ s', s.modify pid f = .ok s' ∧ s'.Inv ls ∧ SameFlags s s' ∧
      ∀ j, s'.process j = if j = pid then some (f proc) else s.process j := by
  obtain ⟨s', hcall, hlinked, hl, hcurrent, hidle⟩ := modify_data h.linked hp hnext hprev
  have hsame : ∀ j, s'.flags j = s.flags j := observe_of_store hp hl hflags
  exact ⟨s', hcall, h.congr hlinked hsame hidle, ⟨hsame, hcurrent, hidle⟩, hl⟩

/-! ## Suspending and resuming -/

structure Reflagged (s : Scheduler) (pid : Nat) (fl : Bool × Bool) (s' : Scheduler) : Prop where
  flags : ∀ j, s'.flags j = if j = pid then some fl else s.flags j
  status : ∀ j, s'.status j = s.status j
  currentPid : s'.currentPid = s.currentPid
  idleProcess : s'.idleProcess = s.idleProcess

/-- The `suspended` flag of the process is `b`, and of no process is anything else new
but the links. -/
def Flagged (s : Scheduler) (pid : Nat) (b : Bool) (s' : Scheduler) : Prop :=
  ∀ j, s'.core j = if j = pid then (s.core j).map fun proc => { proc with suspended := b }
    else s.core j

theorem Flagged.observe (h : Flagged s pid b s') {β : Type} {g : Process → β}
    (hg : ∀ proc, g proc.core = g proc) (j : Nat) :
    (s'.process j).map g = if j = pid then
      (s.process j).map fun proc => g { proc with suspended := b } else (s.process j).map g := by
  rw [← observe_core hg s', h j]
  split
  · unfold core
    rw [map_map, map_map]
    exact congrArg (fun f => (s.process j).map f) (funext fun proc => hg { proc with suspended := b })
  · exact observe_core hg s j

theorem flagged_self (hproc : s.process pid = some proc) (hsusp : proc.suspended = b) :
    Flagged s pid b s := by
  intro j
  split
  next hj =>
    unfold core
    rw [hj, hproc, ← hsusp]
    rfl
  · rfl

theorem Flagged.reflagged (h : Flagged s pid b s') (hproc : s.process pid = some proc)
    (hcurrent : s'.currentPid = s.currentPid) (hidle : s'.idleProcess = s.idleProcess) :
    Reflagged s pid (proc.terminating, b) s' := by
  refine ⟨?_, ?_, hcurrent, hidle⟩
  · intro j
    unfold flags
    rw [h.observe (fun _ => rfl)]
    split
    · next hj => rw [hj, hproc]; rfl
    · rfl
  · intro j
    unfold status
    rw [h.observe (fun _ => rfl)]
    split <;> rfl

/-- A process is moved from its queue to the front of the other. -/
theorem requeue_linked (h : s.Linked ls) {src : QueueName} (hmem : pid ∈ ls src)
    (dst : QueueName) (b : Bool) :
    ∃ s' ls', s.requeue pid src dst b = .ok s' ∧ s'.Linked ls' ∧
      (∀ q' i, i ∈ ls' q' ↔ (i = pid ∧ q' = dst) ∨ (i ≠ pid ∧ i ∈ ls q')) ∧
      Flagged s pid b s' ∧ s'.currentPid = s.currentPid ∧ s'.idleProcess = s.idleProcess := by
  obtain ⟨proc, hproc⟩ := h.live src pid hmem
  obtain ⟨s1, hdeq, hr1, hl1⟩ := dequeue_spec h hmem
  obtain ⟨proc1, hproc1, hcore1⟩ := hr1.process hproc
  have hfree : ∀ q', pid ∉ Function.update ls src ((ls src).erase pid) q' := by
    intro q' hin
    exact ((h.mem_dequeued hmem).mp hin).1 rfl
  obtain ⟨s2, henq, hr2, hl2⟩ := enqueueFront_spec hl1 hproc1 hfree dst
  obtain ⟨proc2, hproc2, hcore2⟩ := hr2.process hproc1
  obtain ⟨s3, hset, hl3, hprocess, hcurrent, hidle⟩ := modify_data hl2 hproc2
    (f := fun proc => { proc with suspended := b }) rfl rfl
  refine ⟨s3, _, ?_, hl3, ?_, ?_, hcurrent.trans (hr2.currentPid.trans hr1.currentPid),
    hidle.trans (hr2.idleProcess.trans hr1.idleProcess)⟩
  · rw [requeue, hdeq, ok_bind, henq, ok_bind]
    exact hset
  · intro q' i
    rw [mem_enqueued, h.mem_dequeued hmem]
  · intro j
    unfold core
    rw [hprocess]
    split
    next hj =>
      rw [hj, hproc, map_some, map_some, map_some]
      show some { proc2.core with suspended := b } = _
      rw [hcore2, hcore1]
    · exact (hr2.core j).trans (hr1.core j)

theorem requeue_spec (h : s.Inv ls) {src dst : QueueName} (hpid : s.Queued src pid) :
    ∃ s' ls', s.requeue pid src dst dst.flag = .ok s' ∧ s'.Inv ls' ∧
      Reflagged s pid (false, dst.flag) s' ∧ Flagged s pid dst.flag s' := by
  have hmem : pid ∈ ls src := (h.member src pid).mpr hpid
  obtain ⟨proc, hproc, hflags⟩ := process_of_flags hpid.2
  obtain ⟨s', ls', hcall, hlinked, hmember, hflagged, hcurrent, hidle⟩ :=
    requeue_linked h.linked hmem dst dst.flag
  have hre := hflagged.reflagged hproc hcurrent hidle
  rw [show proc.terminating = false from congrArg Prod.fst hflags] at hre
  refine ⟨s', ls', hcall, ⟨hlinked, ?_, ?_⟩, hre, hflagged⟩
  · intro q' i
    unfold Queued
    rw [hmember, hidle, hre.flags]
    by_cases hi : i = pid
    · rw [hi, if_pos rfl]
      constructor
      · rintro (⟨_, hq⟩ | ⟨hne, _⟩)
        · rw [hq]
          exact ⟨hpid.1, rfl⟩
        · exact absurd rfl hne
      · intro ⟨_, heq⟩
        left
        exact ⟨rfl, (QueueName.flag_inj (congrArg Prod.snd (some.inj heq))).symm⟩
    rw [if_neg hi]
    constructor
    · rintro (⟨heq, _⟩ | ⟨_, hin⟩)
      · exact absurd heq hi
      · exact (h.member q' i).mp hin
    · intro hq
      exact .inr ⟨hi, (h.member q' i).mpr hq⟩
  · rw [hidle, hre.flags, if_neg (Ne.symm hpid.1)]
    exact h.idle

theorem suspend_spec (h : s.Inv ls) (hpid : pid ≠ s.idleProcess)
    (hflags : s.flags pid = some (false, b)) :
    ∃ s' ls', s.suspend pid = .ok s' ∧ s'.Inv ls' ∧ Reflagged s pid (false, true) s' ∧
      Flagged s pid true s' := by
  obtain ⟨proc, hproc, hfl⟩ := process_of_flags hflags
  have hsusp : proc.suspended = b := congrArg Prod.snd hfl
  rw [suspend, get_spec hproc, ok_bind, hsusp]
  cases b with
  | true =>
    have hself := flagged_self hproc hsusp
    have hre := hself.reflagged hproc rfl rfl
    rw [show proc.terminating = false from congrArg Prod.fst hfl] at hre
    exact ⟨s, ls, if_pos rfl, h, hre, hself⟩
  | false =>
    exact requeue_spec h ⟨hpid, hflags⟩

theorem resume_spec (h : s.Inv ls) (hflags : s.flags pid = some (t, b))
    (halive : b = true → t = false) :
    ∃ s' ls', s.resume pid = .ok s' ∧ s'.Inv ls' ∧ Reflagged s pid (t, false) s' ∧
      Flagged s pid false s' := by
  obtain ⟨proc, hproc, hfl⟩ := process_of_flags hflags
  have hsusp : proc.suspended = b := congrArg Prod.snd hfl
  rw [resume, get_spec hproc, ok_bind, hsusp]
  cases b with
  | false =>
    have hself := flagged_self hproc hsusp
    have hre := hself.reflagged hproc rfl rfl
    rw [show proc.terminating = t from congrArg Prod.fst hfl] at hre
    exact ⟨s, ls, if_pos rfl, h, hre, hself⟩
  | true =>
    have ht := halive rfl
    rw [ht] at hflags ⊢
    -- the idle process is not suspended
    have hidle : pid ≠ s.idleProcess := by
      intro heq
      rw [heq, h.idle] at hflags
      cases hflags
    exact requeue_spec h ⟨hidle, hflags⟩

/-! ## Switching -/

/-- After a switch the flags are what they were, and the current process is the
one it was or one that can run. -/
structure Switched (s s' : Scheduler) : Prop where
  flags : ∀ pid, s'.flags pid = s.flags pid
  status : ∀ pid, s'.status pid = s.status pid
  idleProcess : s'.idleProcess = s.idleProcess
  current : s'.currentPid = s.currentPid ∨ s'.flags s'.currentPid = some (false, false)

theorem SameFlags.switched (h : SameFlags s s') (hstatus : ∀ pid, s'.status pid = s.status pid)
    (h' : Switched s' s'') : Switched s s'' := by
  refine ⟨fun pid => (h'.flags pid).trans (h.flags pid),
    fun pid => (h'.status pid).trans (hstatus pid), h'.idleProcess.trans h.idleProcess, ?_⟩
  rw [← h.currentPid]
  exact h'.current

theorem Inv.decideNextProcess (h : s.Inv ls) :
    ∃ pid, s.decideNextProcess = .ok pid ∧ s.flags pid = some (false, false) := by
  obtain ⟨pid, hcall, hpid⟩ := decideNextProcess_spec h.linked
  refine ⟨pid, hcall, ?_⟩
  rcases hpid with ⟨hidle, _⟩ | ⟨hin, _⟩
  · rw [hidle]
    exact h.idle
  · exact ((h.member .running pid).mp hin).2

theorem switchProcess_spec (h : s.Inv ls) (hflags : s.flags pid = some (false, false)) :
    ∃ s', s.switchProcess pid = .ok s' ∧ s'.Inv ls ∧ Switched s s' ∧ s'.currentPid = pid ∧
      ∀ j, s'.vital j = s.vital j := by
  obtain ⟨proc, hproc, _⟩ := process_of_flags hflags
  obtain ⟨s1, hcall, hinv, hsame, hl⟩ := h.modify hproc
    (f := fun proc => { proc with lastTick := s.tickCount }) rfl rfl rfl
  have hlinked : Linked { s1 with currentPid := pid } ls :=
    hinv.linked.congr rfl (fun q => by cases q <;> rfl)
  refine ⟨{ s1 with currentPid := pid }, ?_, hinv.congr hlinked (fun _ => rfl) rfl,
    ⟨hsame.flags, observe_of_store hproc hl rfl, hsame.idleProcess, .inr ?_⟩, rfl,
    observe_of_store hproc hl rfl⟩
  · rw [switchProcess, hcall, ok_bind]
  · exact (hsame.flags pid).trans hflags

theorem procSwitch_spec (h : s.Inv ls) (hflags : s.flags pid = some (t, false)) :
    ∃ s', s.procSwitch pid = .ok s' ∧ s'.Inv ls ∧ Switched s s' ∧
      (t = false → s'.currentPid = pid) ∧ ∀ j, s'.vital j = s.vital j := by
  obtain ⟨proc, hproc, hfl⟩ := process_of_flags hflags
  have hterm : proc.terminating = t := congrArg Prod.fst hfl
  have hsusp : proc.suspended = false := congrArg Prod.snd hfl
  unfold procSwitch
  split
  next hcurrent =>
    exact ⟨s, rfl, h, ⟨fun _ => rfl, fun _ => rfl, rfl, .inl rfl⟩, fun _ => hcurrent.2,
      fun _ => rfl⟩
  rw [get_spec hproc, ok_bind, hsusp, Bool.not_false, check_true, ok_bind]
  have htarget : ∃ pid', s.switchTarget pid proc = .ok pid' ∧
      s.flags pid' = some (false, false) ∧ (t = false → pid' = pid) := by
    unfold switchTarget
    rw [hterm]
    cases t with
    | true =>
      obtain ⟨pid', hcall, hflags'⟩ := h.decideNextProcess
      exact ⟨pid', hcall, hflags', fun ht => nomatch ht⟩
    | false => exact ⟨pid, rfl, hflags, fun _ => rfl⟩
  obtain ⟨pid', hpid', hflags', heq⟩ := htarget
  rw [hpid', ok_bind]
  obtain ⟨s', hcall, hinv, hswitched, hcurrent, hvital⟩ := switchProcess_spec h hflags'
  exact ⟨s', hcall, hinv, hswitched, fun ht => hcurrent.trans (heq ht), hvital⟩

theorem touchCurrent_spec (h : s.Inv ls) :
    ∃ s', s.touchCurrent = .ok s' ∧ s'.Inv ls ∧ SameFlags s s' ∧ ∀ j, s'.vital j = s.vital j := by
  unfold touchCurrent
  split
  next hvalid =>
    obtain ⟨proc, hproc⟩ := (h.linked.wf.valid_iff_lookup s.currentPid).mp hvalid
    obtain ⟨s', hcall, hinv, hsame, hl⟩ := h.modify hproc
      (f := fun proc => { proc with lastTick := s.tickCount }) rfl rfl rfl
    exact ⟨s', hcall, hinv, hsame, observe_of_store hproc hl rfl⟩
  · exact ⟨s, rfl, h, ⟨fun _ => rfl, rfl, rfl⟩, fun _ => rfl⟩

theorem procYield_spec (h : s.Inv ls) :
    ∃ s', s.procYield = .ok s' ∧ s'.Inv ls ∧ Switched s s' ∧
      s'.flags s'.currentPid = some (false, false) ∧ ∀ j, s'.vital j = s.vital j := by
  have hlinked : Linked { s with tickCount := s.tickCount + 1 } ls :=
    h.linked.congr rfl (fun q => by cases q <;> rfl)
  obtain ⟨s1, htouch, hinv1, hsame, hvital1⟩ :=
    touchCurrent_spec (h.congr hlinked (fun _ => rfl) rfl)
  obtain ⟨pid, hpid, hflags⟩ := hinv1.decideNextProcess
  obtain ⟨s2, hswitch, hinv2, hswitched, hcurrent, hvital2⟩ := procSwitch_spec hinv1 hflags
  have hticked : SameFlags s s1 := ⟨hsame.flags, hsame.currentPid, hsame.idleProcess⟩
  refine ⟨s2, ?_, hinv2, hticked.switched (observe_vital hvital1 fun _ => rfl) hswitched, ?_,
    fun j => (hvital2 j).trans (hvital1 j)⟩
  · rw [procYield, htouch, ok_bind, hpid, ok_bind]
    exact hswitch
  · rw [hcurrent rfl, hswitched.flags]
    exact hflags

theorem procBlock_spec (h : s.Inv ls) (hpid : pid ≠ s.idleProcess)
    (hflags : s.flags pid = some (false, b)) :
    ∃ s' ls', s.procBlock pid = .ok s' ∧ s'.Inv ls' ∧
      (∀ j, s'.flags j = if j = pid then some (false, true) else s.flags j) ∧
      (∀ j, s'.status j = s.status j) ∧ s'.idleProcess = s.idleProcess ∧
      s'.flags s'.currentPid = some (false, false) := by
  obtain ⟨s1, ls1, hsuspend, hinv1, hre, _⟩ := suspend_spec h hpid hflags
  obtain ⟨s2, hyield, hinv2, hswitched, hcurrent, _⟩ := procYield_spec hinv1
  refine ⟨s2, ls1, ?_, hinv2, fun j => (hswitched.flags j).trans (hre.flags j),
    fun j => (hswitched.status j).trans (hre.status j),
    hswitched.idleProcess.trans hre.idleProcess, hcurrent⟩
  rw [procBlock, hsuspend, ok_bind]
  exact hyield

theorem procBlock_ok (hcall : s.procBlock pid = .ok s') : ∃ proc, s.process pid = some proc := by
  rw [procBlock, bind_ok] at hcall
  obtain ⟨s1, hsuspend, _⟩ := hcall
  obtain ⟨proc, hget, _⟩ := bind_ok.mp hsuspend
  exact ⟨proc, Pool.get_ok hget⟩

/-- The process that is unblocked runs at once. -/
theorem procUnblockAndSwitch_spec (h : s.Inv ls) (hflags : s.flags pid = some (t, b))
    (halive : b = true → t = false) (st : Int) :
    ∃ s' ls', s.procUnblockAndSwitch pid st = .ok s' ∧ s'.Inv ls' ∧
      (∀ j, s'.flags j = if j = pid then some (t, false) else s.flags j) ∧
      (∀ j, s'.status j = if j = pid then some st else s.status j) ∧
      s'.idleProcess = s.idleProcess ∧
      (s'.currentPid = s.currentPid ∨ s'.flags s'.currentPid = some (false, false)) ∧
      (t = false → s'.currentPid = pid) := by
  obtain ⟨proc, hproc, _⟩ := process_of_flags hflags
  obtain ⟨s1, hset, hinv1, hsame, hl⟩ := h.modify hproc
    (f := fun proc => { proc with unblockStatus := st }) rfl rfl rfl
  obtain ⟨s2, ls2, hresume, hinv2, hre, _⟩ :=
    resume_spec hinv1 ((hsame.flags pid).trans hflags) halive
  obtain ⟨s3, hswitch, hinv3, hswitched, hcurrent, _⟩ :=
    procSwitch_spec hinv2 ((hre.flags pid).trans (if_pos rfl))
  have hvalid : s.processes.valid pid = true := (h.linked.wf.valid_iff_lookup pid).mpr ⟨proc, hproc⟩
  refine ⟨s3, ls2, ?_, hinv3, ?_, ?_,
    hswitched.idleProcess.trans (hre.idleProcess.trans hsame.idleProcess), ?_, hcurrent⟩
  · unfold procUnblockAndSwitch
    rw [if_pos hvalid, hset, ok_bind, hresume, ok_bind]
    exact hswitch
  · intro j
    rw [hswitched.flags, hre.flags, hsame.flags]
  · intro j
    rw [hswitched.status, hre.status]
    unfold status
    rw [hl]
    split <;> rfl
  · rw [← hsame.currentPid, ← hre.currentPid]
    exact hswitched.current

/-! ## Forking -/

theorem Linked.withProcesses (h : s.Linked ls) {processes : Pool Process 128 0xFFFF}
    (hwf : processes.WF) (hkeep : ∀ q, ∀ i ∈ ls q, processes.lookup i = s.process i) :
    Linked { s with processes } ls := by
  refine ⟨hwf, ?_, ?_, h.nodup, h.apart, ?_⟩
  · intro q
    refine thread_congr ?_ ?_ (h.thread q)
    · intro i hi
      show ((processes.lookup i).map Process.nextProcess).getD noProcess = _
      rw [hkeep q i hi]
      rfl
    · intro i hi
      show ((processes.lookup i).map Process.prevProcess).getD noProcess = _
      rw [hkeep q i hi]
      rfl
  · intro q
    rw [← h.head q]
    cases q <;> rfl
  · intro q i hi
    obtain ⟨proc, hproc⟩ := h.live q i hi
    exact ⟨proc, (hkeep q i hi).trans hproc⟩

theorem spawn_spec (h : s.Inv ls) {prevProcess nextProcess : Nat}
    (hcall : s.spawn prevProcess nextProcess = .ok (pid, s')) :
    ∃ ls', s'.Inv ls' ∧ s.process pid = none ∧
      (∀ j, s'.flags j = if j = pid then some (false, false) else s.flags j) ∧
      (∀ j, j ≠ pid → s'.status j = s.status j) ∧
      s'.currentPid = s.currentPid ∧ s'.idleProcess = s.idleProcess ∧
      ∀ j, s'.core j = if j = pid then some (Process.new noProcess noProcess) else s.core j := by
  rw [spawn, bind_ok] at hcall
  obtain ⟨⟨pid1, processes⟩, hput, hcall⟩ := hcall
  obtain ⟨s1, henq, hcall⟩ := bind_ok.mp hcall
  cases hcall
  obtain ⟨_, hwf, hfresh, hl⟩ := Pool.emplaceAnywhere_ok h.linked.wf hput
  have hdead : s.process pid = none := hfresh
  have hnew : ∀ q, pid ∉ ls q := by
    intro q hin
    obtain ⟨proc, hproc⟩ := h.linked.live q pid hin
    rw [hdead] at hproc
    cases hproc
  have hlinked : Linked { s with processes } ls := by
    refine h.linked.withProcesses hwf ?_
    intro q i hi
    have hi' : i ≠ pid := by
      intro heq
      exact hnew q (heq ▸ hi)
    rw [hl, if_neg hi']
    rfl
  have hproc : process { s with processes } pid = some (.new prevProcess nextProcess) := by
    show processes.lookup pid = _
    rw [hl, if_pos rfl]
  obtain ⟨s2, hspec, hr, hl2⟩ := enqueueFront_spec hlinked hproc hnew .running
  rw [hspec] at henq
  cases henq
  have hcore : ∀ j, s'.core j
      = if j = pid then some (Process.new noProcess noProcess) else s.core j := by
    intro j
    rw [hr.core]
    show (processes.lookup j).map Process.core = _
    rw [hl]
    split <;> rfl
  have hflags : ∀ j, s'.flags j = if j = pid then some (false, false) else s.flags j := by
    intro j
    rw [flags, ← observe_core (fun _ => rfl), hcore]
    split
    · rfl
    · exact observe_core (fun _ => rfl) s j
  have hstatus : ∀ j, j ≠ pid → s'.status j = s.status j := by
    intro j hj
    rw [status, ← observe_core (fun _ => rfl), hcore, if_neg hj]
    exact observe_core (fun _ => rfl) s j
  have hidle : s'.idleProcess = s.idleProcess := hr.idleProcess
  have hidlene : s.idleProcess ≠ pid := by
    intro heq
    obtain ⟨proc, hproc, _⟩ := process_of_flags h.idle
    rw [heq, hdead] at hproc
    cases hproc
  refine ⟨_, ⟨hl2, ?_, ?_⟩, hdead, hflags, hstatus, hr.currentPid, hidle, hcore⟩
  · intro q i
    unfold Queued
    rw [mem_enqueued, hidle, hflags]
    by_cases hi : i = pid
    · rw [if_pos hi]
      constructor
      · rintro (⟨_, hq⟩ | hin)
        · rw [hq, hi]
          exact ⟨Ne.symm hidlene, rfl⟩
        · exact absurd (hi ▸ hin) (hnew q)
      · intro ⟨_, heq⟩
        left
        refine ⟨hi, ?_⟩
        cases q with
        | running => rfl
        | suspended => cases heq
    · rw [if_neg hi]
      constructor
      · rintro (⟨heq, _⟩ | hin)
        · exact absurd heq hi
        · exact (h.member q i).mp hin
      · intro hq
        exact .inr ((h.member q i).mpr hq)
  · rw [hidle, hflags, if_neg hidlene]
    exact h.idle

/-! ## The beginning -/

theorem Initial.flags (h : s.Initial) : s.processes.WF ∧
    ∀ j, s.flags j = if j = s.idleProcess then some (false, false) else none := by
  obtain ⟨prevProcess, nextProcess, pid, hput, hidle⟩ := h.processes
  have hblank : (Pool.blank : Pool Process 128 0xFFFF).WF := Pool.blank_wf (by decide)
  obtain ⟨_, hwf, _, hl⟩ := Pool.emplaceAnywhere_ok hblank hput
  refine ⟨hwf, ?_⟩
  intro j
  show (s.processes.lookup j).map Process.flags = _
  rw [hl, hidle]
  split
  · rfl
  · rfl

theorem Initial.inv (h : s.Initial) : s.Inv fun _ => [] := by
  obtain ⟨hwf, hflags⟩ := h.flags
  refine ⟨⟨hwf, fun _ => trivial, ?_, fun _ => List.nodup_nil, ?_, ?_⟩, ?_, ?_⟩
  · intro q
    cases q with
    | running => exact h.runningHead
    | suspended => exact h.suspendedHead
  · intro q q' i hi
    exact absurd hi List.not_mem_nil
  · intro q i hi
    exact absurd hi List.not_mem_nil
  · intro q i
    unfold Queued
    rw [hflags]
    constructor
    · intro hi
      exact absurd hi List.not_mem_nil
    · intro ⟨hne, hfl⟩
      rw [if_neg hne] at hfl
      cases hfl
  · rw [hflags, if_pos rfl]

/-- `proc_init` -/
def boot : Checked Scheduler := do
  let (pid, processes) ← Pool.blank.emplaceAnywhere (Process.new 0 0)
  .ok { processes, currentPid := noProcess, runningHead := noProcess,
        suspendedHead := noProcess, idleProcess := pid, tickCount := 0 }

theorem boot_initial (h : boot = .ok s) : s.Initial := by
  rw [boot, bind_ok] at h
  obtain ⟨⟨pid, processes⟩, hput, h⟩ := h
  cases h
  exact ⟨⟨0, 0, pid, hput, rfl⟩, rfl, rfl, rfl⟩

end Scheduler

end Peos2.Kernel
