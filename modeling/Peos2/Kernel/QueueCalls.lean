/-
  Kernel.QueueCalls — any calls on the two queues of processes.

  `proc_enqueue`, `proc_suspend`, `proc_resume` and `proc_kill` in any order, on
  processes that were enqueued and not killed. A killed process leaves its links
  behind and resumes the one that waits for it. Processes are created and destroyed
  in between, and anything may be stored as the waiting process of another.

  Main result: `queues_wellFormed`.
-/
import Peos2.Kernel.Termination

namespace Peos2.Kernel

open Peos2.Lib Peos2.Support List Option

/-! ## Calls -/

namespace Scheduler

/-- `void proc_enqueue(proc_handle pid)` -/
def procEnqueue (s : Scheduler) (pid : Nat) : Checked Scheduler := s.enqueueFront pid .running

def suspendedFlag (s : Scheduler) (pid : Nat) : Option Bool :=
  (s.process pid).map Process.suspended

/-- The list from the head of a queue: it ends, no process is on it twice, and
neighbours point at each other. -/
structure IsQueue (s : Scheduler) (q : QueueName) (l : List Nat) : Prop where
  head : s.head q = l.headD noProcess
  thread : Thread s.next s.prev noProcess l noProcess
  nodup : l.Nodup

end Scheduler

/-- The scheduler, and who was enqueued and killed so far. -/
structure Audit where
  scheduler : Scheduler
  enqueued : List Nat
  killed : List Nat

inductive QueueCall where
  /-- `processes.emplace_anywhere(...)`; the links of a new process hold anything. -/
  | create (prevProcess nextProcess : Nat)
  /-- `proc_enqueue(pid)` -/
  | enqueue (pid : Nat)
  /-- `proc_suspend(pid)` -/
  | suspend (pid : Nat)
  /-- `proc_resume(pid)` -/
  | resume (pid : Nat)
  /-- `proc_kill(pid, exit_status)` -/
  | kill (pid : Nat) (exitStatus : Int)
  /-- `processes[pid].waiting_process = waiting`, as `syscall_wait` does. -/
  | await (pid waiting : Nat)
  /-- `destroy_process(pid)` -/
  | destroy (pid : Nat)
  deriving Repr, DecidableEq

namespace Audit

def Alive (a : Audit) (pid : Nat) : Prop := pid ∈ a.enqueued ∧ pid ∉ a.killed

def perform (a : Audit) : QueueCall → Checked Audit
  | .create prevProcess nextProcess => do
      let (_, processes) ← a.scheduler.processes.emplaceAnywhere (.new prevProcess nextProcess)
      .ok { a with scheduler := { a.scheduler with processes } }
  | .enqueue pid => do
      let scheduler ← a.scheduler.procEnqueue pid
      .ok { a with scheduler, enqueued := pid :: a.enqueued }
  | .suspend pid => do
      let scheduler ← a.scheduler.suspend pid
      .ok { a with scheduler }
  | .resume pid => do
      let scheduler ← a.scheduler.resume pid
      .ok { a with scheduler }
  | .kill pid exitStatus => do
      let scheduler ← a.scheduler.procKill pid exitStatus
      .ok { a with scheduler, killed := pid :: a.killed }
  | .await pid waiting => do
      let scheduler ← a.scheduler.modify pid fun proc => { proc with waitingProcess := some waiting }
      .ok { a with scheduler }
  | .destroy pid => do
      let scheduler ← a.scheduler.destroyProcess pid
      .ok { scheduler, enqueued := a.enqueued.filter (· ≠ pid), killed := a.killed.filter (· ≠ pid) }

/-- Which calls are made: what is enqueued is on neither queue and was not killed, anything else
is done to what was enqueued and not killed, and who waits for one that is killed was not
killed. -/
def Permitted (a : Audit) : QueueCall → Prop
  | .create _ _ => True
  | .enqueue pid => (∃ proc, a.scheduler.process pid = some proc) ∧ pid ∉ a.killed
      ∧ ∀ q, ¬ a.scheduler.OnQueue q pid
  | .suspend pid => a.Alive pid
  | .resume pid => a.Alive pid
  | .kill pid _ => a.Alive pid ∧ ∀ proc w, a.scheduler.process pid = some proc →
      proc.waitingProcess = some w →
      w ∉ a.killed ∧ w ≠ pid ∧ ∃ waiting, a.scheduler.process w = some waiting
  | .await _ _ => True
  | .destroy pid => pid ∈ a.killed

structure Initial (a : Audit) : Prop where
  wf : a.scheduler.processes.WF
  fresh : ∀ pid proc, a.scheduler.process pid = some proc → proc.suspended = false
  heads : ∀ q, a.scheduler.head q = noProcess
  enqueued : a.enqueued = []
  killed : a.killed = []

def Step (a a' : Audit) : Prop := ∃ call, a.Permitted call ∧ a.perform call = .ok a'

/-- The invariant: the queues are the lists `ls`, of the processes that are
alive. One that was never enqueued is not suspended. -/
structure Sound (a : Audit) (ls : QueueName → List Nat) : Prop where
  linked : a.scheduler.Linked ls
  member : ∀ q pid, pid ∈ ls q ↔ a.Alive pid ∧ a.scheduler.suspendedFlag pid = some q.flag
  known : ∀ pid, pid ∈ a.enqueued ∨ pid ∈ a.killed → ∃ proc, a.scheduler.process pid = some proc
  fresh : ∀ pid, pid ∉ a.enqueued → pid ∉ a.killed → a.scheduler.suspendedFlag pid ≠ some true

variable {a a' : Audit} {ls : QueueName → List Nat} {pid : Nat} {proc : Process}

theorem Initial.sound (h : a.Initial) : a.Sound fun _ => [] := by
  refine ⟨⟨h.wf, fun _ => trivial, h.heads, fun _ => nodup_nil, ?_, ?_⟩, ?_, ?_, ?_⟩
  · intro q q' i hi
    exact absurd hi not_mem_nil
  · intro q i hi
    exact absurd hi not_mem_nil
  · intro q i
    constructor
    · intro hi
      exact absurd hi not_mem_nil
    · intro hi
      rw [Alive, h.enqueued] at hi
      exact absurd hi.1.1 not_mem_nil
  · intro i hi
    rw [h.enqueued, h.killed] at hi
    rcases hi with hi | hi <;> exact absurd hi not_mem_nil
  · intro i _ _ hflag
    obtain ⟨proc, hproc, hsusp⟩ := map_eq_some_iff.mp hflag
    rw [h.fresh i proc hproc] at hsusp
    cases hsusp

/-! ## Suspending and resuming -/

open Scheduler

variable {s s' : Scheduler}

theorem suspendedFlag_of_process (h : s.process pid = some proc) :
    s.suspendedFlag pid = some proc.suspended := by
  unfold suspendedFlag
  rw [h]
  rfl

theorem exists_process_iff_core {j : Nat} (h : (s'.core j).isSome = (s.core j).isSome) :
    (∃ proc, s'.process j = some proc) ↔ ∃ proc, s.process j = some proc := by
  unfold core at h
  rw [isSome_map, isSome_map] at h
  rw [← isSome_iff_exists, ← isSome_iff_exists, h]

theorem Sound.mem_flag (h : a.Sound ls) (halive : a.Alive pid) {q : QueueName}
    (hproc : a.scheduler.process pid = some proc) (hflag : proc.suspended = q.flag) : pid ∈ ls q := by
  refine (h.member q pid).mpr ⟨halive, ?_⟩
  rw [suspendedFlag_of_process hproc, hflag]

theorem Sound.requeue (h : a.Sound ls) (halive : a.Alive pid) {src : QueueName} (hmem : pid ∈ ls src)
    (dst : QueueName) :
    ∃ s' ls', a.scheduler.requeue pid src dst dst.flag = .ok s'
      ∧ ({ a with scheduler := s' } : Audit).Sound ls' := by
  obtain ⟨s', ls', hcall, hlinked, hmember, hflagged, _⟩ :=
    requeue_linked h.linked hmem dst dst.flag
  obtain ⟨proc, hproc⟩ := h.linked.live src pid hmem
  have hflag : ∀ j, s'.suspendedFlag j
      = if j = pid then some dst.flag else a.scheduler.suspendedFlag j := by
    intro j
    unfold suspendedFlag
    rw [hflagged.observe (fun _ => rfl)]
    split
    · next hj => rw [hj, hproc]; rfl
    · rfl
  have hlive : ∀ j, (∃ proc, s'.process j = some proc) ↔ ∃ proc, a.scheduler.process j = some proc := by
    intro j
    apply exists_process_iff_core
    rw [hflagged j]
    split
    · rw [isSome_map]
    · rfl
  refine ⟨s', ls', hcall, hlinked, ?_, ?_, ?_⟩
  · intro q i
    rw [hmember, hflag]
    by_cases hi : i = pid
    · rw [hi, if_pos rfl]
      constructor
      · rintro (⟨_, hq⟩ | ⟨hne, _⟩)
        · exact ⟨halive, by rw [hq]⟩
        · exact absurd rfl hne
      · intro ⟨_, heq⟩
        exact .inl ⟨rfl, (QueueName.flag_inj (some.inj heq)).symm⟩
    rw [if_neg hi]
    constructor
    · rintro (⟨heq, _⟩ | ⟨_, hin⟩)
      · exact absurd heq hi
      · exact (h.member q i).mp hin
    · intro hin
      exact .inr ⟨hi, (h.member q i).mpr hin⟩
  · intro i hi
    exact (hlive i).mpr (h.known i hi)
  · intro i hi hk
    have hne : i ≠ pid := fun heq => hi (heq ▸ halive.1)
    rw [hflag, if_neg hne]
    exact h.fresh i hi hk

theorem Sound.suspend (h : a.Sound ls) (halive : a.Alive pid) :
    ∃ s' ls', a.scheduler.suspend pid = .ok s' ∧ ({ a with scheduler := s' } : Audit).Sound ls' := by
  obtain ⟨proc, hproc⟩ := h.known pid (.inl halive.1)
  rw [Scheduler.suspend, get_spec hproc, ok_bind]
  cases hsusp : proc.suspended with
  | true => exact ⟨a.scheduler, ls, rfl, h⟩
  | false =>
    exact h.requeue halive (h.mem_flag halive hproc (q := .running) hsusp) .suspended

theorem Sound.resume (h : a.Sound ls) (hkilled : pid ∉ a.killed)
    (hproc : a.scheduler.process pid = some proc) :
    ∃ s' ls', a.scheduler.resume pid = .ok s' ∧ ({ a with scheduler := s' } : Audit).Sound ls' := by
  rw [Scheduler.resume, get_spec hproc, ok_bind]
  cases hsusp : proc.suspended with
  | false => exact ⟨a.scheduler, ls, rfl, h⟩
  | true =>
    -- a process that is suspended was enqueued
    have halive : a.Alive pid := by
      refine ⟨?_, hkilled⟩
      by_contra henq
      refine h.fresh pid henq hkilled ?_
      rw [suspendedFlag_of_process hproc, hsusp]
    exact h.requeue halive (h.mem_flag halive hproc (q := .suspended) hsusp) .running

/-! ## Enqueueing and killing -/

theorem follows_of_mem {l : List Nat} : ∀ {before : Nat},
    Thread s.next s.prev before l noProcess → (∀ i ∈ l, ∃ proc, s.process i = some proc) →
    pid ∈ l → s.Follows (l.headD noProcess) pid := by
  induction l with
  | nil =>
    intro before _ _ hin
    exact absurd hin not_mem_nil
  | cons i l ih =>
    intro before hthread hlive hin
    obtain ⟨_, hnext, hrest⟩ := hthread
    show s.Follows i pid
    rcases mem_cons.mp hin with rfl | hin
    · exact .here pid
    · obtain ⟨proc, hproc⟩ := hlive i mem_cons_self
      refine .next hproc ?_
      rw [← next_eq hproc, hnext]
      exact ih hrest (fun j hj => hlive j (mem_cons_of_mem i hj)) hin

section

variable (h : a.Sound ls)

include h

theorem Sound.enqueue (hcall : a.Permitted (.enqueue pid)) :
    ∃ s' ls', a.scheduler.procEnqueue pid = .ok s'
      ∧ ({ a with scheduler := s', enqueued := pid :: a.enqueued } : Audit).Sound ls' := by
  obtain ⟨⟨proc, hproc⟩, hkilled, hoff⟩ := hcall
  have hfree : ∀ q, pid ∉ ls q := by
    intro q hin
    refine hoff q ?_
    unfold OnQueue
    rw [h.linked.head]
    exact follows_of_mem (h.linked.thread q) (h.linked.live q) hin
  -- it is not suspended, as it was not enqueued before
  have hnew : pid ∉ a.enqueued := by
    intro henq
    obtain ⟨q, hq⟩ : ∃ q : QueueName, proc.suspended = q.flag := by
      cases proc.suspended with
      | true => exact ⟨.suspended, rfl⟩
      | false => exact ⟨.running, rfl⟩
    exact hfree q (h.mem_flag ⟨henq, hkilled⟩ hproc hq)
  have hflag : a.scheduler.suspendedFlag pid = some false := by
    have hne := h.fresh pid hnew hkilled
    rw [suspendedFlag_of_process hproc] at hne ⊢
    cases hsusp : proc.suspended with
    | true => exact absurd (congrArg some hsusp) hne
    | false => rfl
  obtain ⟨s', hcall, hr, hlinked⟩ := enqueueFront_spec h.linked hproc hfree .running
  have hflags : ∀ j, s'.suspendedFlag j = a.scheduler.suspendedFlag j := hr.observe (fun _ => rfl)
  refine ⟨s', _, hcall, hlinked, ?_, ?_, ?_⟩
  · intro q i
    rw [mem_enqueued, hflags, h.member]
    unfold Alive
    by_cases hi : i = pid
    · rw [hi, hflag]
      constructor
      · rintro (⟨_, hq⟩ | ⟨halive, _⟩)
        · exact ⟨⟨mem_cons_self, hkilled⟩, by rw [hq]; rfl⟩
        · exact absurd halive.1 hnew
      · intro ⟨_, heq⟩
        exact .inl ⟨rfl, (QueueName.flag_inj (q := .running) (some.inj heq)).symm⟩
    have hmem : i ∈ pid :: a.enqueued ↔ i ∈ a.enqueued := by
      rw [mem_cons, or_iff_right hi]
    rw [hmem]
    constructor
    · rintro (⟨heq, _⟩ | hin)
      · exact absurd heq hi
      · exact hin
    · exact .inr
  · intro i hi
    have hlive : ∃ proc, a.scheduler.process i = some proc := by
      rcases hi with hi | hi
      · rcases mem_cons.mp hi with rfl | hi
        · exact ⟨proc, hproc⟩
        · exact h.known i (.inl hi)
      · exact h.known i (.inr hi)
    obtain ⟨p, hp⟩ := hlive
    obtain ⟨p', hp', _⟩ := hr.process hp
    exact ⟨p', hp'⟩
  · intro i hi hk
    rw [hflags]
    exact h.fresh i (fun hin => hi (mem_cons_of_mem pid hin)) hk

theorem Sound.retire (halive : a.Alive pid)
    (hproc : a.scheduler.process pid = some proc) (status : Int) :
    ∃ s1 s2 ls' proc2, a.scheduler.dequeue pid (if proc.suspended then .suspended else .running)
        = .ok s1
      ∧ s1.modify pid (fun proc => { proc with terminating := true, exitStatus := status }) = .ok s2
      ∧ ({ a with scheduler := s2, killed := pid :: a.killed } : Audit).Sound ls'
      ∧ s2.process pid = some proc2 ∧ proc2.waitingProcess = proc.waitingProcess
      ∧ ∀ j proc, j ≠ pid → a.scheduler.process j = some proc → ∃ proc, s2.process j = some proc := by
  obtain ⟨q, hq, hflag⟩ : ∃ q : QueueName,
      (if proc.suspended = true then QueueName.suspended else .running) = q
        ∧ proc.suspended = q.flag := by
    cases proc.suspended with
    | true => exact ⟨.suspended, rfl, rfl⟩
    | false => exact ⟨.running, rfl, rfl⟩
  have hmem : pid ∈ ls q := h.mem_flag halive hproc hflag
  obtain ⟨s1, hdeq, hr, hlinked1⟩ := dequeue_spec h.linked hmem
  obtain ⟨proc1, hproc1, hcore1⟩ := hr.process hproc
  obtain ⟨s2, hset, hlinked2, hprocess, _⟩ := modify_data hlinked1 hproc1
    (f := fun proc => { proc with terminating := true, exitStatus := status }) rfl rfl
  have hflags : ∀ j, s2.suspendedFlag j = a.scheduler.suspendedFlag j := by
    intro j
    have hstore : s2.suspendedFlag j = s1.suspendedFlag j :=
      observe_of_store (g := Process.suspended) hproc1 hprocess rfl j
    exact hstore.trans (hr.observe (fun _ => rfl) j)
  have hlive : ∀ j proc, a.scheduler.process j = some proc → ∃ proc, s2.process j = some proc := by
    intro j p hp
    rw [hprocess]
    split
    · exact ⟨_, rfl⟩
    · obtain ⟨p', hp', _⟩ := hr.process hp
      exact ⟨p', hp'⟩
  have hmember : ∀ q' i, i ∈ Function.update ls q ((ls q).erase pid) q'
      ↔ ((i ∈ a.enqueued ∧ i ∉ pid :: a.killed) ∧ s2.suspendedFlag i = some q'.flag) := by
    intro q' i
    rw [h.linked.mem_dequeued hmem, hflags, h.member, mem_cons, not_or]
    constructor
    · intro ⟨hne, ⟨henq, hkilled⟩, hfl⟩
      exact ⟨⟨henq, hne, hkilled⟩, hfl⟩
    · intro ⟨⟨henq, hne, hkilled⟩, hfl⟩
      exact ⟨hne, ⟨henq, hkilled⟩, hfl⟩
  refine ⟨s1, s2, _, _, by rw [hq]; exact hdeq, hset, ⟨hlinked2, hmember, ?_, ?_⟩,
    by rw [hprocess, if_pos rfl], ?_, fun j p _ hp => hlive j p hp⟩
  · intro i hi
    have hold : ∃ proc, a.scheduler.process i = some proc := by
      rcases hi with hi | hi
      · exact h.known i (.inl hi)
      · rcases mem_cons.mp hi with rfl | hi
        · exact ⟨proc, hproc⟩
        · exact h.known i (.inr hi)
    obtain ⟨p, hp⟩ := hold
    exact hlive i p hp
  · intro i hi hk
    show s2.suspendedFlag i ≠ some true
    rw [hflags]
    exact h.fresh i hi (fun hin => hk (mem_cons_of_mem pid hin))
  · show proc1.core.waitingProcess = _
    rw [hcore1]
    rfl

theorem Sound.kill {status : Int} (hcall : a.Permitted (.kill pid status))
    (hidle : pid ≠ a.scheduler.idleProcess) :
    ∃ s' ls', a.scheduler.procKill pid status = .ok s'
      ∧ ({ a with scheduler := s', killed := pid :: a.killed } : Audit).Sound ls' := by
  obtain ⟨halive, hwaiter⟩ := hcall
  obtain ⟨proc, hproc⟩ := h.known pid (.inl halive.1)
  obtain ⟨s1, s2, ls', proc2, hdeq, hset, hsound, hproc2, hwaiting, hlive⟩ :=
    h.retire halive hproc status
  have hvalid : ¬ a.scheduler.processes.valid pid = false := by
    rw [(h.linked.wf.valid_iff_lookup pid).mpr ⟨proc, hproc⟩]
    exact Bool.true_eq_false.mp
  have hunfold : a.scheduler.procKill pid status = s1.exitProcess pid status := by
    rw [procKill, decide_eq_true hidle, check_true, ok_bind, if_neg hvalid, get_spec hproc, ok_bind,
      hdeq, ok_bind]
  rw [hunfold, exitProcess, hset, ok_bind, get_spec hproc2, ok_bind, hwaiting]
  cases hw : proc.waitingProcess with
  | none => exact ⟨s2, ls', rfl, hsound⟩
  | some w =>
    obtain ⟨hkilled, hne, waiting, hwaits⟩ := hwaiter proc w hproc hw
    obtain ⟨waiting2, hwaiting2⟩ := hlive w waiting hne hwaits
    have hkilled2 : w ∉ pid :: a.killed := by
      intro hin
      rcases mem_cons.mp hin with heq | hin
      · exact hne heq
      · exact hkilled hin
    exact hsound.resume hkilled2 hwaiting2

/-! ## The calls around them -/

theorem Sound.create {i : Nat} {processes : Pool Process 128 0xFFFF}
    {prevProcess nextProcess : Nat}
    (hcall : a.scheduler.processes.emplaceAnywhere (.new prevProcess nextProcess)
      = .ok (i, processes)) :
    ({ a with scheduler := { a.scheduler with processes } } : Audit).Sound ls := by
  obtain ⟨_, hwf, hnone, hl⟩ := Pool.emplaceAnywhere_ok h.linked.wf hcall
  have hne : ∀ j, (∃ proc, a.scheduler.process j = some proc) → j ≠ i := by
    intro j ⟨proc, hproc⟩ heq
    have hdead : a.scheduler.process i = none := hnone
    rw [heq, hdead] at hproc
    cases hproc
  have hkeep : ∀ j, j ≠ i → processes.lookup j = a.scheduler.process j := by
    intro j hj
    rw [hl, if_neg hj]
    rfl
  have hflag : ∀ j, suspendedFlag { a.scheduler with processes } j
      = if j = i then some false else a.scheduler.suspendedFlag j := by
    intro j
    show (processes.lookup j).map Process.suspended = _
    rw [hl]
    split <;> rfl
  refine ⟨h.linked.withProcesses hwf fun q j hj => hkeep j (hne j (h.linked.live q j hj)),
    ?_, ?_, ?_⟩
  · intro q j
    rw [h.member, hflag]
    by_cases hj : j = i
    · -- the new one was not enqueued
      have hnew : ¬ a.Alive j := fun halive => hne j (h.known j (.inl halive.1)) hj
      exact ⟨fun hin => absurd hin.1 hnew, fun hin => absurd hin.1 hnew⟩
    · rw [if_neg hj]
      rfl
  · intro j hj
    have hlive := h.known j hj
    obtain ⟨proc, hproc⟩ := hlive
    exact ⟨proc, (hkeep j (hne j ⟨proc, hproc⟩)).trans hproc⟩
  · intro j hj hk
    rw [hflag]
    split
    · exact fun heq => Bool.false_ne_true (some.inj heq)
    · exact h.fresh j hj hk

theorem Sound.await {waiting : Nat}
    (hcall : a.scheduler.modify pid (fun proc => { proc with waitingProcess := some waiting })
      = .ok s') : ({ a with scheduler := s' } : Audit).Sound ls := by
  obtain ⟨proc, hproc⟩ := Scheduler.modify_ok hcall
  obtain ⟨s1, hspec, hlinked, hprocess, _⟩ := modify_data h.linked hproc
    (f := fun proc => { proc with waitingProcess := some waiting }) rfl rfl
  rw [hspec] at hcall
  cases hcall
  have hflag : ∀ j, s'.suspendedFlag j = a.scheduler.suspendedFlag j :=
    observe_of_store (g := Process.suspended) hproc hprocess rfl
  refine ⟨hlinked, ?_, ?_, ?_⟩
  · intro q j
    rw [h.member, hflag]
    rfl
  · intro j hj
    obtain ⟨p, hp⟩ := h.known j hj
    show ∃ proc, s'.process j = some proc
    rw [hprocess]
    split
    · exact ⟨_, rfl⟩
    · exact ⟨p, hp⟩
  · intro j hj hk
    rw [hflag]
    exact h.fresh j hj hk

theorem Sound.destroy (hkilled : pid ∈ a.killed)
    (hcall : a.scheduler.destroyProcess pid = .ok s') :
    ({ scheduler := s', enqueued := a.enqueued.filter (· ≠ pid),
       killed := a.killed.filter (· ≠ pid) } : Audit).Sound ls := by
  rw [destroyProcess, bind_ok] at hcall
  obtain ⟨_, _, hcall⟩ := hcall
  obtain ⟨processes, herase, hcall⟩ := bind_ok.mp hcall
  cases hcall
  obtain ⟨_, hwf, hl⟩ := Pool.erase_ok h.linked.wf herase
  have hkeep : ∀ j, j ≠ pid → processes.lookup j = a.scheduler.process j := by
    intro j hj
    rw [hl, if_neg hj]
    rfl
  have hoff : ∀ q j, j ∈ ls q → j ≠ pid := by
    intro q j hj heq
    exact ((h.member q j).mp hj).1.2 (heq ▸ hkilled)
  have hflag : ∀ j, suspendedFlag { a.scheduler with processes } j
      = if j = pid then none else a.scheduler.suspendedFlag j := by
    intro j
    show (processes.lookup j).map Process.suspended = _
    rw [hl]
    split <;> rfl
  have hmem : ∀ (l : List Nat) j, j ∈ l.filter (· ≠ pid) ↔ j ∈ l ∧ j ≠ pid := by
    intro l j
    rw [mem_filter, decide_eq_true_iff]
  refine ⟨h.linked.withProcesses hwf fun q j hj => hkeep j (hoff q j hj), ?_, ?_, ?_⟩
  · intro q j
    unfold Alive
    rw [hmem, hmem, hflag]
    by_cases hj : j = pid
    · rw [if_pos hj]
      exact ⟨fun hin => absurd hj (hoff q j hin), fun hin => absurd hin.2 (by simp)⟩
    · rw [if_neg hj, h.member]
      unfold Alive
      rw [and_iff_left hj, and_iff_left hj]
  · intro j hj
    rw [hmem, hmem] at hj
    have hne : j ≠ pid := hj.elim And.right And.right
    obtain ⟨p, hp⟩ := h.known j (hj.imp And.left And.left)
    exact ⟨p, (hkeep j hne).trans hp⟩
  · intro j hj hk
    rw [hmem] at hj hk
    rw [hflag]
    split
    · simp
    next hne =>
      exact h.fresh j (fun hin => hj ⟨hin, hne⟩) (fun hin => hk ⟨hin, hne⟩)

/-! ## Whole runs -/

theorem Sound.step (hstep : Step a a') : ∃ ls', a'.Sound ls' := by
  obtain ⟨call, hpermitted, hcall⟩ := hstep
  cases call with
  | create prevProcess nextProcess =>
    rw [perform, bind_ok] at hcall
    obtain ⟨⟨i, processes⟩, hput, hcall⟩ := hcall
    cases hcall
    exact ⟨ls, h.create hput⟩
  | enqueue pid =>
    obtain ⟨s', ls', hspec, hsound⟩ := h.enqueue hpermitted
    rw [perform, hspec, ok_bind] at hcall
    cases hcall
    exact ⟨ls', hsound⟩
  | suspend pid =>
    obtain ⟨s', ls', hspec, hsound⟩ := h.suspend hpermitted
    rw [perform, hspec, ok_bind] at hcall
    cases hcall
    exact ⟨ls', hsound⟩
  | resume pid =>
    obtain ⟨proc, hproc⟩ := h.known pid (.inl hpermitted.1)
    obtain ⟨s', ls', hspec, hsound⟩ := h.resume hpermitted.2 hproc
    rw [perform, hspec, ok_bind] at hcall
    cases hcall
    exact ⟨ls', hsound⟩
  | kill pid status =>
    -- a call that returns has passed the assertion
    have hidle : pid ≠ a.scheduler.idleProcess := by
      rw [perform, bind_ok] at hcall
      obtain ⟨s', hkill, _⟩ := hcall
      rw [procKill, bind_ok] at hkill
      obtain ⟨_, hne, _⟩ := hkill
      exact of_decide_eq_true (check_ok.mp hne)
    obtain ⟨s', ls', hspec, hsound⟩ := h.kill hpermitted hidle
    rw [perform, hspec, ok_bind] at hcall
    cases hcall
    exact ⟨ls', hsound⟩
  | await pid waiting =>
    rw [perform, bind_ok] at hcall
    obtain ⟨s', hset, hcall⟩ := hcall
    cases hcall
    exact ⟨ls, h.await hset⟩
  | destroy pid =>
    rw [perform, bind_ok] at hcall
    obtain ⟨s', hdestroy, hcall⟩ := hcall
    cases hcall
    exact ⟨ls, h.destroy hpermitted hdestroy⟩

end

theorem sound_of_reach (h : Reach Initial Step a) : ∃ ls, a.Sound ls := by
  refine @Reach.invariant _ _ _ (fun a => ∃ ls, a.Sound ls) ?_ ?_ a h
  · exact fun a h0 => ⟨_, h0.sound⟩
  · intro a a' _ hsound hstep
    obtain ⟨ls, hsound⟩ := hsound
    exact hsound.step hstep

/-- **The queues are well formed** after every sequence of calls: the lists from the two heads
end, without repetition and with neighbours that point at each other; together they hold exactly
the processes that were enqueued and not killed, each on the queue of its flag. No further call
fails, but for the assertion about the idle process. -/
theorem queues_wellFormed (h : Reach Initial Step a) :
    (∃ running suspended : List Nat, a.scheduler.IsQueue .running running
      ∧ a.scheduler.IsQueue .suspended suspended
      ∧ (∀ pid, pid ∈ running → pid ∉ suspended)
      ∧ (∀ pid, pid ∈ running ∨ pid ∈ suspended ↔ a.Alive pid)
      ∧ (∀ pid, pid ∈ running → a.scheduler.suspendedFlag pid = some false)
      ∧ (∀ pid, pid ∈ suspended → a.scheduler.suspendedFlag pid = some true))
    ∧ ∀ pid,
      (a.Permitted (.enqueue pid) → ∃ a', a.perform (.enqueue pid) = .ok a')
      ∧ (a.Permitted (.suspend pid) → ∃ a', a.perform (.suspend pid) = .ok a')
      ∧ (a.Permitted (.resume pid) → ∃ a', a.perform (.resume pid) = .ok a')
      ∧ ∀ status, a.Permitted (.kill pid status) → pid ≠ a.scheduler.idleProcess →
        ∃ a', a.perform (.kill pid status) = .ok a' := by
  obtain ⟨ls, hsound⟩ := sound_of_reach h
  have hqueue : ∀ q, a.scheduler.IsQueue q (ls q) := fun q =>
    ⟨hsound.linked.head q, hsound.linked.thread q, hsound.linked.nodup q⟩
  refine ⟨⟨ls .running, ls .suspended, hqueue .running, hqueue .suspended, ?_, ?_, ?_, ?_⟩, ?_⟩
  · intro pid hrunning hsuspended
    cases hsound.linked.apart .running .suspended pid hrunning hsuspended
  · intro pid
    constructor
    · rintro (hin | hin)
      · exact ((hsound.member _ pid).mp hin).1
      · exact ((hsound.member _ pid).mp hin).1
    · intro halive
      obtain ⟨proc, hproc⟩ := hsound.known pid (.inl halive.1)
      cases hsusp : proc.suspended with
      | false => exact .inl (hsound.mem_flag halive hproc (q := .running) hsusp)
      | true => exact .inr (hsound.mem_flag halive hproc (q := .suspended) hsusp)
  · exact fun pid hin => ((hsound.member .running pid).mp hin).2
  · exact fun pid hin => ((hsound.member .suspended pid).mp hin).2
  · intro pid
    refine ⟨?_, ?_, ?_, ?_⟩
    · intro hcall
      obtain ⟨s', _, hspec, _⟩ := hsound.enqueue hcall
      exact ⟨_, by rw [perform, hspec, ok_bind]⟩
    · intro hcall
      obtain ⟨s', _, hspec, _⟩ := hsound.suspend hcall
      exact ⟨_, by rw [perform, hspec, ok_bind]⟩
    · intro hcall
      obtain ⟨proc, hproc⟩ := hsound.known pid (.inl hcall.1)
      obtain ⟨s', _, hspec, _⟩ := hsound.resume hcall.2 hproc
      exact ⟨_, by rw [perform, hspec, ok_bind]⟩
    · intro status hcall hidle
      obtain ⟨s', _, hspec, _⟩ := hsound.kill hcall hidle
      exact ⟨_, by rw [perform, hspec, ok_bind]⟩

/-- Calls that are seen to be permitted; a process is enqueued once. -/
def plain (a : Audit) : QueueCall → Bool
  | .create _ _ | .await _ _ => true
  | .enqueue pid => (a.scheduler.process pid).isSome && !a.killed.contains pid
      && !a.enqueued.contains pid
  | .suspend pid | .resume pid => a.enqueued.contains pid && !a.killed.contains pid
  | .kill pid _ => a.enqueued.contains pid && !a.killed.contains pid
      && (a.scheduler.process pid).all fun proc => proc.waitingProcess.all fun w =>
        !a.killed.contains w && w != pid && (a.scheduler.process w).isSome
  | .destroy pid => a.killed.contains pid

theorem permitted_of_plain (h : a.Sound ls) {call : QueueCall} (hplain : a.plain call = true) :
    a.Permitted call := by
  cases call with
  | create prevProcess nextProcess => trivial
  | enqueue pid =>
    simp only [plain, Bool.and_eq_true, Bool.not_eq_true', contains_eq_mem,
      decide_eq_false_iff_not, isSome_iff_exists] at hplain
    obtain ⟨⟨⟨proc, hproc⟩, hkilled⟩, hnew⟩ := hplain
    refine ⟨⟨proc, hproc⟩, hkilled, ?_⟩
    intro q hon
    rcases Follows.mem hon h.linked.wf (h.linked.head q) (h.linked.thread q) with hin | hend
    · exact hnew ((h.member q pid).mp hin).1.1
    · exact ne_noProcess h.linked.wf hproc hend
  | suspend pid => simpa [plain, Permitted, Alive] using hplain
  | resume pid => simpa [plain, Permitted, Alive] using hplain
  | kill pid status =>
    simp only [plain, Bool.and_eq_true, Bool.not_eq_true', contains_eq_mem,
      decide_eq_true_iff, decide_eq_false_iff_not] at hplain
    refine ⟨hplain.1, ?_⟩
    intro proc w hproc hw
    have hwaiter := hplain.2
    rw [hproc, all_some, hw] at hwaiter
    simpa [isSome_iff_exists, and_assoc] using hwaiter
  | await pid waiting => trivial
  | destroy pid => simpa [plain, Permitted] using hplain

def blank : Audit where
  scheduler :=
    { processes := .blank, currentPid := noProcess, runningHead := noProcess,
      suspendedHead := noProcess, idleProcess := noProcess, tickCount := 0 }
  enqueued := []
  killed := []

theorem blank_initial : blank.Initial := by
  refine ⟨Pool.blank_wf (by decide), ?_, ?_, rfl, rfl⟩
  · intro pid proc hproc
    cases hproc
  · intro q
    cases q <;> rfl

/-- Process 0 waits for process 2 and is resumed when that is killed, from the middle
of the queue. -/
def killAwaited : List QueueCall :=
  [.create 5 9, .create 7 7, .create 0 1, .create 3 3, .enqueue 1, .enqueue 2, .enqueue 3,
    .enqueue 0, .suspend 0, .await 2 0, .suspend 1, .kill 2 7]

theorem queues_wellFormed_killed :
    ∃ a, Reach Initial Step a ∧ a.enqueued = [0, 3, 2, 1] ∧ a.killed = [2]
      ∧ ∃ running, a.scheduler.IsQueue .running running ∧ 0 ∈ running ∧ 2 ∉ running := by
  have hrun : ((runGuarded (fun a call => a.plain call = true) perform killAwaited blank).map
      fun a => (a.enqueued, a.killed, a.scheduler.suspendedFlag 0))
      = .ok ([0, 3, 2, 1], [2], some false) := by decide +kernel
  obtain ⟨a, ha, hresult⟩ := map_ok.mp hrun
  simp only [Prod.mk.injEq] at hresult
  obtain ⟨henqueued, hkilled, hflag⟩ := hresult
  have hreach : Reach Initial Step a := by
    refine Reach.runGuarded ?_ (.init blank_initial) ha
    intro a call a' hreach hplain hcall
    obtain ⟨ls, hsound⟩ := sound_of_reach hreach
    exact ⟨call, permitted_of_plain hsound hplain, hcall⟩
  obtain ⟨running, suspended, hrunning, _, _, hboth, _, hsuspended⟩ := (queues_wellFormed hreach).1
  refine ⟨a, hreach, henqueued, hkilled, running, hrunning, ?_, ?_⟩
  · have halive : a.Alive 0 := by
      rw [Alive, henqueued, hkilled]
      decide
    rcases (hboth 0).mpr halive with hin | hin
    · exact hin
    · rw [hsuspended 0 hin] at hflag
      cases hflag
  · intro hin
    have halive := (hboth 2).mp (.inl hin)
    rw [Alive, hkilled] at halive
    exact halive.2 mem_cons_self

end Audit

end Peos2.Kernel
