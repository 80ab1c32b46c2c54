/-
  Kernel.Termination — when a killed process stays dead.

  Killing a process takes it off its queue and sets a flag, but others keep referring to
  it: the process it was waiting for will resume it, a timer or an interrupt handler may
  unblock it, and it may still be running. None of them looks at the flag, and
  `proc_switch`, which does, asks the same queue again. So a process killed while it
  was suspended can be put back on the running queue.

  Main results: `killed_never_runs`, `killed_runs`.
-/
import Peos2.Kernel.Scheduling
import Peos2.Lib.Run

namespace Peos2.Kernel.Scheduler

open Peos2.Lib Peos2.Support Pool Option

variable {s s' : Scheduler} {ls : QueueName → List Nat} {pid : Nat} {proc : Process}
  {q : QueueName}

/-! ## The calls -/

theorem modify_ok {f : Process → Process} (h : s.modify pid f = .ok s') :
    ∃ proc, s.process pid = some proc := by
  rw [Scheduler.modify, bind_ok] at h
  obtain ⟨proc, hget, _⟩ := h
  exact ⟨proc, get_ok hget⟩

theorem Inv.modify_ok (h : s.Inv ls) {f : Process → Process}
    (hcall : s.modify pid f = .ok s')
    (hf : ∀ proc, (f proc).nextProcess = proc.nextProcess ∧
      (f proc).prevProcess = proc.prevProcess ∧ (f proc).flags = proc.flags) :
    s'.Inv ls ∧ SameFlags s s' := by
  obtain ⟨proc, hproc⟩ := Scheduler.modify_ok hcall
  obtain ⟨hnext, hprev, hflags⟩ := hf proc
  obtain ⟨s1, hspec, hinv, hsame, _⟩ := h.modify hproc hnext hprev hflags
  rw [hspec] at hcall
  cases hcall
  exact ⟨hinv, hsame⟩

/-- What `proc_kill` takes for granted: the process was not killed before, and the one that
waits for it, if suspended, is another one, not killed either. -/
def Killable (s : Scheduler) (pid : Nat) : Prop :=
  ∀ proc, s.process pid = some proc → proc.terminating = false ∧
    ∀ w, proc.waitingProcess = some w → ∀ t, s.flags w = some (t, true) → t = false ∧ w ≠ pid

theorem retire_spec (h : s.Inv ls) (hpid : s.Queued q pid) (hproc : s.process pid = some proc)
    (status : Int) :
    ∃ s1 s2 ls', s.dequeue pid q = .ok s1 ∧
      s1.modify pid (fun proc => { proc with terminating := true, exitStatus := status })
        = .ok s2 ∧
      s2.Inv ls' ∧ Reflagged s pid (true, q.flag) s2 ∧
      ∀ j, s2.core j = if j = pid then
          some { proc.core with terminating := true, exitStatus := status }
        else s.core j := by
  have hmem : pid ∈ ls q := (h.member q pid).mpr hpid
  have hsusp : proc.suspended = q.flag := by
    have hfl := (flags_of_process hproc).symm.trans hpid.2
    exact congrArg Prod.snd (some.inj hfl)
  obtain ⟨s1, hdeq, hr1, hl1⟩ := dequeue_spec h.linked hmem
  obtain ⟨proc1, hproc1, hcore1⟩ := hr1.process hproc
  obtain ⟨s2, hset, hl2, hprocess, hcurrent, hidle⟩ := modify_data hl1 hproc1
    (f := fun proc => { proc with terminating := true, exitStatus := status }) rfl rfl
  have hidle2 : s2.idleProcess = s.idleProcess := hidle.trans hr1.idleProcess
  have hflags2 : ∀ j, s2.flags j = if j = pid then some (true, q.flag) else s.flags j := by
    intro j
    unfold flags
    rw [hprocess]
    split
    · show some (true, proc1.core.suspended) = _
      rw [hcore1]
      show some (true, proc.suspended) = _
      rw [hsusp]
    · exact hr1.flags j
  have hstatus2 : ∀ j, s2.status j = s.status j := by
    intro j
    have hstore : s2.status j = s1.status j :=
      observe_of_store (g := Process.unblockStatus) hproc1 hprocess rfl j
    exact hstore.trans (hr1.status j)
  refine ⟨s1, s2, _, hdeq, hset, ⟨hl2, ?_, ?_⟩,
    ⟨hflags2, hstatus2, hcurrent.trans hr1.currentPid, hidle2⟩, ?_⟩
  · intro q' i
    unfold Queued
    rw [h.linked.mem_dequeued hmem, hidle2, hflags2]
    by_cases hi : i = pid
    · rw [if_pos hi]
      constructor
      · intro hin
        exact absurd hi hin.1
      · intro ⟨_, heq⟩
        cases heq
    · rw [if_neg hi]
      exact (and_iff_right hi).trans (h.member q' i)
  · rw [hidle2, hflags2, if_neg (Ne.symm hpid.1)]
    exact h.idle
  · intro j
    unfold core
    rw [hprocess]
    split
    · show some { proc1.core with terminating := true, exitStatus := status } = _
      rw [hcore1]
    · exact hr1.core j

theorem Inv.resume_ok (h : s.Inv ls) (halive : ∀ t, s.flags pid = some (t, true) → t = false)
    (hcall : s.resume pid = .ok s') :
    ∃ ls' t, s'.Inv ls' ∧ Reflagged s pid (t, false) s' ∧ Flagged s pid false s' := by
  obtain ⟨proc, hproc⟩ : ∃ proc, s.process pid = some proc := by
    rw [resume, bind_ok] at hcall
    obtain ⟨proc, hget, _⟩ := hcall
    exact ⟨proc, get_ok hget⟩
  have hflags := flags_of_process hproc
  have hsusp : proc.suspended = true → proc.terminating = false := by
    intro hs
    apply halive
    rw [hflags]
    unfold Process.flags
    rw [hs]
  obtain ⟨s1, ls', hspec, hinv, hre⟩ := resume_spec h hflags hsusp
  rw [hspec] at hcall
  cases hcall
  exact ⟨ls', _, hinv, hre⟩

variable {status : Int}

theorem procKill_invalid (hwf : s.processes.WF) (hnone : s.process pid = none)
    (hcall : s.procKill pid status = .ok s') : s' = s := by
  have hvalid : s.processes.valid pid = false := by
    rw [Bool.eq_false_iff]
    intro hvalid
    obtain ⟨proc, hproc⟩ := (hwf.valid_iff_lookup pid).mp hvalid
    have hnone : s.processes.lookup pid = none := hnone
    rw [hnone] at hproc
    cases hproc
  rw [procKill, bind_ok] at hcall
  obtain ⟨_, _, hcall⟩ := hcall
  rw [if_pos hvalid] at hcall
  cases hcall
  rfl

theorem procKill_split (h : s.Inv ls) (hcare : s.Killable pid) (hproc : s.process pid = some proc)
    (hcall : s.procKill pid status = .ok s') :
    ∃ s2 ls2, s2.Inv ls2 ∧ s2.currentPid = s.currentPid ∧ s2.idleProcess = s.idleProcess ∧
      (∀ j, s2.core j = if j = pid then
          some { proc.core with terminating := true, exitStatus := status }
        else s.core j) ∧
      ((proc.waitingProcess = none ∧ s' = s2) ∨
        ∃ w, proc.waitingProcess = some w ∧ (∀ t, s2.flags w = some (t, true) → t = false) ∧
          s2.resume w = .ok s') := by
  obtain ⟨hterm, hwaiting⟩ := hcare proc hproc
  rw [procKill, bind_ok] at hcall
  obtain ⟨_, hne, hcall⟩ := hcall
  have hidle : pid ≠ s.idleProcess := of_decide_eq_true (check_ok.mp hne)
  have hvalid : ¬ s.processes.valid pid = false := by
    rw [(h.linked.wf.valid_iff_lookup pid).mpr ⟨proc, hproc⟩]
    exact Bool.true_eq_false.mp
  rw [if_neg hvalid, get_spec hproc, ok_bind] at hcall
  -- the queue is the one of its flag
  obtain ⟨q, hq, hflag⟩ : ∃ q : QueueName,
      (if proc.suspended = true then QueueName.suspended else .running) = q ∧
      q.flag = proc.suspended := by
    cases proc.suspended with
    | true => exact ⟨.suspended, rfl, rfl⟩
    | false => exact ⟨.running, rfl, rfl⟩
  have hqueued : s.Queued q pid := by
    refine ⟨hidle, ?_⟩
    rw [flags_of_process hproc, hflag, ← hterm]
    rfl
  obtain ⟨s1, s2, ls', hdeq, hset, hinv2, hre, hcore2⟩ := retire_spec h hqueued hproc status
  obtain ⟨proc2, hproc2, hpcore⟩ : ∃ proc2, s2.process pid = some proc2 ∧
      proc2.core = { proc.core with terminating := true, exitStatus := status } := by
    have hcore := hcore2 pid
    rw [if_pos rfl] at hcore
    exact map_eq_some_iff.mp hcore
  have hwait2 : proc2.waitingProcess = proc.waitingProcess := by
    show proc2.core.waitingProcess = _
    rw [hpcore]
    rfl
  rw [hq, hdeq, ok_bind, exitProcess, hset, ok_bind, get_spec hproc2, ok_bind, hwait2] at hcall
  refine ⟨s2, ls', hinv2, hre.currentPid, hre.idleProcess, hcore2, ?_⟩
  cases hw : proc.waitingProcess with
  | none =>
    rw [hw] at hcall
    cases hcall
    exact .inl ⟨rfl, rfl⟩
  | some w =>
    rw [hw] at hcall
    refine .inr ⟨w, rfl, ?_, hcall⟩
    intro t ht
    rw [hre.flags] at ht
    split at ht
    next heq =>
      -- it waits for itself, and is suspended
      have hflags := hqueued.2
      rw [show q.flag = true from congrArg Prod.snd (some.inj ht), ← heq] at hflags
      exact absurd heq (hwaiting w hw false hflags).2
    · exact (hwaiting w hw t ht).1

theorem procKill_ok (h : s.Inv ls) (hcare : s.Killable pid)
    (hcall : s.procKill pid status = .ok s') :
    ∃ ls', s'.Inv ls' ∧ s'.currentPid = s.currentPid ∧ s'.idleProcess = s.idleProcess := by
  cases hproc : s.process pid with
  | none =>
    rw [procKill_invalid h.linked.wf hproc hcall]
    exact ⟨ls, h, rfl, rfl⟩
  | some proc =>
    obtain ⟨s2, ls2, hinv2, hcurrent2, hidle2, _, hrest⟩ := procKill_split h hcare hproc hcall
    rcases hrest with ⟨_, heq⟩ | ⟨w, _, halive, hresume⟩
    · rw [heq]
      exact ⟨ls2, hinv2, hcurrent2, hidle2⟩
    · obtain ⟨ls3, t, hinv3, hre3, _⟩ := hinv2.resume_ok halive hresume
      exact ⟨ls3, hinv3, hre3.currentPid.trans hcurrent2, hre3.idleProcess.trans hidle2⟩

theorem destroyProcess_ok (h : s.Inv ls) (hproc : s.process pid = some proc)
    (hterm : proc.terminating = true) (hcall : s.destroyProcess pid = .ok s') :
    s'.Inv ls ∧ s'.currentPid = s.currentPid := by
  rw [destroyProcess, get_spec hproc, ok_bind, bind_ok] at hcall
  obtain ⟨processes, herase, hcall⟩ := hcall
  cases hcall
  obtain ⟨_, hwf, hl⟩ := erase_ok h.linked.wf herase
  have hnotflags : ∀ b, s.flags pid ≠ some (false, b) := by
    intro b hfl
    rw [flags_of_process hproc] at hfl
    have ht : proc.terminating = false := congrArg Prod.fst (some.inj hfl)
    rw [hterm] at ht
    cases ht
  have hflags : ∀ j, flags { s with processes } j = if j = pid then none else s.flags j := by
    intro j
    show (processes.lookup j).map Process.flags = _
    rw [hl]
    split <;> rfl
  have hidle : s.idleProcess ≠ pid := fun heq => hnotflags false (heq ▸ h.idle)
  refine ⟨⟨h.linked.withProcesses hwf ?_, ?_, ?_⟩, rfl⟩
  · intro q i hi
    rw [hl, if_neg]
    · rfl
    · intro heq
      exact hnotflags q.flag (heq ▸ ((h.member q i).mp hi).2)
  · intro q i
    unfold Queued
    rw [hflags, h.member]
    by_cases hi : i = pid
    · rw [if_pos hi]
      constructor
      · intro ⟨_, hfl⟩
        exact absurd (hi ▸ hfl) (hnotflags q.flag)
      · intro ⟨_, hfl⟩
        cases hfl
    · rw [if_neg hi]
      rfl
  · show flags { s with processes } s.idleProcess = _
    rw [hflags, if_neg hidle]
    exact h.idle

/-! ## Careful runs -/

def CanBlock (s : Scheduler) : Prop :=
  s.currentPid ≠ s.idleProcess ∧
    ∀ proc, s.process s.currentPid = some proc → proc.terminating = false

/-- The condition. What is killed was not killed before, and the process that waits for it,
if suspended, is another one, not killed; what is unblocked, if suspended, was not killed; and a
process that blocks was not killed. -/
def Careful (s : Scheduler) : Operation → Prop
  | .kill pid => s.Killable (pid.toNat % 65536)
  | .exit _ => s.Killable s.currentPid
  | .wait pid => ∀ proc, s.process (pid % 65536).toNat = some proc →
      proc.terminating = false → s.CanBlock
  | .block => s.CanBlock
  | .unblock pid _ => ∀ t, s.flags pid = some (t, true) → t = false
  | .fork _ _ => True
  | .continueCall => True
  | .yield => True

/-- What an operation may do to the current process. -/
def Moved (s s' : Scheduler) : Prop :=
  s'.currentPid = s.currentPid ∨ s'.flags s'.currentPid = some (false, false)

section

variable (h : s.Inv ls)

include h

theorem suspend_ok (hcan : s.CanBlock) (hcall : s.suspend s.currentPid = .ok s') :
    ∃ ls', s'.Inv ls' ∧ s'.currentPid = s.currentPid ∧ Flagged s s.currentPid true s' := by
  obtain ⟨proc, hproc⟩ : ∃ proc, s.process s.currentPid = some proc := by
    rw [suspend, bind_ok] at hcall
    obtain ⟨proc, hget, _⟩ := hcall
    exact ⟨proc, get_ok hget⟩
  have hflags : s.flags s.currentPid = some (false, proc.suspended) := by
    rw [flags_of_process hproc, ← hcan.2 proc hproc]
    rfl
  obtain ⟨s1, ls', hspec, hinv, hre, hflagged⟩ := suspend_spec h hcan.1 hflags
  rw [hspec] at hcall
  cases hcall
  exact ⟨ls', hinv, hre.currentPid, hflagged⟩

theorem procYield_ok {s0 : Scheduler} (hcurrent : s.currentPid = s0.currentPid)
    (hcall : s.procYield = .ok s') : ∃ ls', s'.Inv ls' ∧ Moved s0 s' := by
  obtain ⟨s1, hspec, hinv, hswitched, _⟩ := procYield_spec h
  rw [hspec] at hcall
  cases hcall
  refine ⟨ls, hinv, ?_⟩
  unfold Moved
  rw [← hcurrent]
  exact hswitched.current

theorem syscallExit_ok (hcare : s.Killable s.currentPid)
    (hcall : s.syscallExit status = .ok s') : ∃ ls', s'.Inv ls' ∧ Moved s s' := by
  rw [syscallExit, bind_ok] at hcall
  obtain ⟨s1, hkill, hcall⟩ := hcall
  obtain ⟨s2, hset, hcall⟩ := bind_ok.mp hcall
  obtain ⟨ls1, hinv1, hcurrent1, _⟩ := procKill_ok h hcare hkill
  obtain ⟨hinv2, hsame⟩ := hinv1.modify_ok hset (fun _ => ⟨rfl, rfl, rfl⟩)
  exact procYield_ok hinv2 (hsame.currentPid.trans hcurrent1) hcall

theorem syscallWait_ok {pid : Int} (hcare : s.Careful (.wait pid))
    (hcall : s.syscallWait pid = .ok s') : ∃ ls', s'.Inv ls' ∧ Moved s s' := by
  unfold syscallWait at hcall
  simp only at hcall
  split at hcall
  · cases hcall
    exact ⟨ls, h, .inl rfl⟩
  split at hcall
  · cases hcall
    exact ⟨ls, h, .inl rfl⟩
  obtain ⟨proc, hget, hcall⟩ := bind_ok.mp hcall
  have hproc : s.process (pid % 65536).toNat = some proc := get_ok hget
  split at hcall
  next hterm =>
    -- the caller blocks until the process has exited
    obtain ⟨s1, hsuspend, hcall⟩ := bind_ok.mp hcall
    obtain ⟨s2, hwaiting, hcall⟩ := bind_ok.mp hcall
    obtain ⟨s3, hstack, hcall⟩ := bind_ok.mp hcall
    obtain ⟨ls1, hinv1, hcurrent1, _⟩ := suspend_ok h (hcare proc hproc hterm) hsuspend
    obtain ⟨hinv2, hsame2⟩ := hinv1.modify_ok hwaiting (fun _ => ⟨rfl, rfl, rfl⟩)
    obtain ⟨hinv3, hsame3⟩ := hinv2.modify_ok hstack (fun _ => ⟨rfl, rfl, rfl⟩)
    exact procYield_ok hinv3 (hsame3.currentPid.trans (hsame2.currentPid.trans hcurrent1)) hcall
  next hterm =>
    obtain ⟨hinv, hcurrent⟩ := destroyProcess_ok h hproc (by simpa using hterm) hcall
    exact ⟨ls, hinv, .inl hcurrent⟩

theorem continueCall_ok (hcall : s.continueCall = .ok s') :
    ∃ ls', s'.Inv ls' ∧ Moved s s' := by
  rw [continueCall, bind_ok] at hcall
  obtain ⟨current, _, hcall⟩ := hcall
  cases hstack : current.kernelStack with
  | user =>
    rw [hstack] at hcall
    cases hcall
    exact ⟨ls, h, .inl rfl⟩
  | wait pid =>
    rw [hstack] at hcall
    obtain ⟨s1, hset, hcall⟩ := bind_ok.mp hcall
    obtain ⟨proc, hget, hcall⟩ := bind_ok.mp hcall
    obtain ⟨_, hterm, hcall⟩ := bind_ok.mp hcall
    obtain ⟨hinv1, hsame⟩ := h.modify_ok hset (fun _ => ⟨rfl, rfl, rfl⟩)
    obtain ⟨hinv, hcurrent⟩ := destroyProcess_ok hinv1 (get_ok hget) (check_ok.mp hterm) hcall
    exact ⟨ls, hinv, .inl (hcurrent.trans hsame.currentPid)⟩
  | exit =>
    rw [hstack] at hcall
    cases hcall

theorem procUnblockAndSwitch_ok (halive : ∀ t, s.flags pid = some (t, true) → t = false)
    (hcall : s.procUnblockAndSwitch pid status = .ok s') : ∃ ls', s'.Inv ls' ∧ Moved s s' := by
  by_cases hvalid : s.processes.valid pid = true
  · obtain ⟨proc, hproc⟩ := (h.linked.wf.valid_iff_lookup pid).mp hvalid
    have hflags : s.flags pid = some (proc.terminating, proc.suspended) := flags_of_process hproc
    obtain ⟨s1, ls1, hspec, hinv, _, _, _, hmoved, _⟩ := procUnblockAndSwitch_spec h hflags
      (fun hsusp => halive proc.terminating (hsusp ▸ hflags)) status
    rw [hspec] at hcall
    cases hcall
    exact ⟨ls1, hinv, hmoved⟩
  · unfold procUnblockAndSwitch at hcall
    rw [if_neg hvalid] at hcall
    cases hcall
    exact ⟨ls, h, .inl rfl⟩

theorem run_ok {op : Operation} (hcare : s.Careful op)
    (hrun : s.run op = .ok s') : ∃ ls', s'.Inv ls' ∧ Moved s s' := by
  cases op with
  | fork prevProcess nextProcess =>
    rw [run, bind_ok] at hrun
    obtain ⟨⟨pid, s1⟩, hcall, hrun⟩ := hrun
    cases hrun
    obtain ⟨ls', hinv, _, _, _, hcurrent, _⟩ := spawn_spec h hcall
    exact ⟨ls', hinv, .inl hcurrent⟩
  | kill pid =>
    obtain ⟨ls', hinv, hcurrent, _⟩ := procKill_ok h hcare hrun
    exact ⟨ls', hinv, .inl hcurrent⟩
  | exit exitStatus => exact syscallExit_ok h hcare hrun
  | wait pid => exact syscallWait_ok h hcare hrun
  | continueCall => exact continueCall_ok h hrun
  | block =>
    rw [run, procBlock, bind_ok] at hrun
    obtain ⟨s1, hsuspend, hrun⟩ := hrun
    obtain ⟨ls1, hinv1, hcurrent1, _⟩ := suspend_ok h hcare hsuspend
    exact procYield_ok hinv1 hcurrent1 hrun
  | unblock pid status => exact procUnblockAndSwitch_ok h hcare hrun
  | yield => exact procYield_ok h rfl hrun

end

def CarefulStep (s s' : Scheduler) : Prop := ∃ op, s.Careful op ∧ s.Step op s'

theorem reach_inv (h : Reach Initial CarefulStep s) : ∃ ls, s.Inv ls := by
  refine @Reach.invariant _ _ _ (fun s => ∃ ls, s.Inv ls) ?_ ?_ s h
  · intro s h0
    exact ⟨_, h0.inv⟩
  · intro s s' _ ⟨ls, hinv⟩ ⟨op, hcare, _, hrun⟩
    obtain ⟨ls', hinv', _⟩ := run_ok hinv hcare hrun
    exact ⟨ls', hinv'⟩

/-! ## Killed processes -/

/-- What one finds by following `next_process` from a process. -/
inductive Follows (s : Scheduler) : Nat → Nat → Prop
  | here (pid : Nat) : Follows s pid pid
  | next {pid pid' : Nat} {proc : Process} : s.process pid = some proc →
      Follows s proc.nextProcess pid' → Follows s pid pid'

def OnQueue (s : Scheduler) (q : QueueName) (pid : Nat) : Prop := s.Follows (s.head q) pid

theorem Follows.mem {first : Nat} (hfollows : s.Follows first pid)
    (hwf : s.processes.WF) : ∀ {l : List Nat} {before : Nat}, first = l.headD noProcess →
      Thread s.next s.prev before l noProcess → pid ∈ l ∨ pid = noProcess := by
  induction hfollows with
  | here first =>
    intro l before hfirst _
    cases l with
    | nil => exact .inr hfirst
    | cons i l =>
      left
      rw [hfirst]
      exact List.mem_cons_self
  | next hproc _ ih =>
    intro l before hfirst hthread
    cases l with
    | nil =>
      -- there is no process with the number that ends a queue
      have hlt := Nat.lt_of_lt_of_le (lookup_lt_watermark hproc) hwf.room
      have hend : noProcess < 128 := by
        rw [hfirst] at hlt
        exact hlt
      exact absurd hend (by decide)
    | cons i l =>
      obtain ⟨_, hnext, hrest⟩ := hthread
      have hi : s.next i = _ := congrArg (fun o => (Option.map _ o).getD _)
        ((congrArg s.process hfirst).symm.trans hproc)
      rcases ih (hi.symm.trans hnext) hrest with hin | hend
      · exact .inl (List.mem_cons_of_mem _ hin)
      · exact .inr hend

theorem OnQueue.flags (h : s.Inv ls) (hon : s.OnQueue q pid) (hproc : s.process pid = some proc) :
    proc.flags = (false, q.flag) := by
  rcases Follows.mem hon h.linked.wf (h.linked.head q) (h.linked.thread q) with hin | hend
  · have hflags := ((h.member q pid).mp hin).2
    rw [flags_of_process hproc] at hflags
    exact some.inj hflags
  · have hlt := Nat.lt_of_lt_of_le (lookup_lt_watermark hproc) h.linked.wf.room
    rw [hend] at hlt
    exact absurd hlt (by decide)

/-- **A killed process stays dead** as long as the operations are careful: it is on neither
queue, `decide_next_process` does not return it, and none makes it the current process. -/
theorem killed_never_runs (h : Reach Initial CarefulStep s) :
    (∀ q pid proc, s.OnQueue q pid → s.process pid = some proc → proc.terminating = false) ∧
    (∃ pid proc, s.decideNextProcess = .ok pid ∧ s.process pid = some proc ∧
      proc.terminating = false) ∧
    ∀ s', CarefulStep s s' → s'.currentPid ≠ s.currentPid →
      ∃ proc, s'.process s'.currentPid = some proc ∧ proc.terminating = false := by
  obtain ⟨ls, hinv⟩ := reach_inv h
  refine ⟨?_, ?_, ?_⟩
  · intro q pid proc hon hproc
    exact congrArg Prod.fst (hon.flags hinv hproc)
  · obtain ⟨pid, hcall, hflags⟩ := hinv.decideNextProcess
    obtain ⟨proc, hproc, hfl⟩ := process_of_flags hflags
    exact ⟨pid, proc, hcall, hproc, congrArg Prod.fst hfl⟩
  · intro s' ⟨op, hcare, _, hrun⟩ hne
    obtain ⟨ls', _, hmoved⟩ := run_ok hinv hcare hrun
    rcases hmoved with hsame | hflags
    · exact absurd hsame hne
    · obtain ⟨proc, hproc, hfl⟩ := process_of_flags hflags
      exact ⟨proc, hproc, congrArg Prod.fst hfl⟩

/-! ## Runs that can be computed -/

instance (pid : Nat) : Decidable (s.Killable pid) :=
  decidable_of_iff (∀ proc ∈ s.process pid, proc.terminating = false ∧
    ∀ w ∈ proc.waitingProcess, ∀ t, s.flags w = some (t, true) → t = false ∧ w ≠ pid) Iff.rfl

instance : Decidable s.CanBlock :=
  decidable_of_iff (s.currentPid ≠ s.idleProcess ∧
    ∀ proc ∈ s.process s.currentPid, proc.terminating = false) Iff.rfl

instance : (op : Operation) → Decidable (s.Careful op)
  | .kill pid => inferInstanceAs (Decidable (s.Killable (pid.toNat % 65536)))
  | .exit _ => inferInstanceAs (Decidable (s.Killable s.currentPid))
  | .wait pid => decidable_of_iff (∀ proc ∈ s.process (pid % 65536).toNat,
      proc.terminating = false → s.CanBlock) Iff.rfl
  | .block => inferInstanceAs (Decidable s.CanBlock)
  | .unblock pid _ =>
    inferInstanceAs (Decidable (∀ t, s.flags pid = some (t, true) → t = false))
  | .fork _ _ => .isTrue trivial
  | .continueCall => .isTrue trivial
  | .yield => .isTrue trivial

/-- Operations in their order; careful ones, if that is asked for. -/
def runAll (careful : Bool) (ops : List Operation) (s : Scheduler) : Checked Scheduler :=
  runGuarded (fun s op => (s.midCall = true ↔ op = .continueCall) ∧
    (careful = true → s.Careful op)) run ops s

theorem runAll_reach {careful : Bool} {ops : List Operation} {Step' : Scheduler → Scheduler → Prop}
    (hstep : ∀ s op s', s.Step op s' → (careful = true → s.Careful op) → Step' s s')
    (h : (boot >>= runAll careful ops) = .ok s) : Reach Initial Step' s := by
  obtain ⟨s0, hboot, hrun⟩ := bind_ok.mp h
  refine Reach.runGuarded ?_ (.init (boot_initial hboot)) hrun
  intro s op s' _ ⟨hready, hcare⟩ hop
  exact hstep s op s' ⟨hready, hop⟩ hcare

theorem killed_never_runs_skipped :
    ∃ s proc, Reach Initial CarefulStep s ∧ s.process 1 = some proc ∧ proc.terminating = true ∧
      ∀ q, ¬ s.OnQueue q 1 := by
  have hrun : ((boot >>= runAll true [.fork 0 0, .fork 0 0, .yield, .kill 1, .yield]).map
      fun s => (s.process 1).map Process.terminating) = .ok (some true) := by decide +kernel
  obtain ⟨s, hs, hterm⟩ := map_ok.mp hrun
  obtain ⟨proc, hproc, hterm⟩ := map_eq_some_iff.mp hterm
  have hreach : Reach Initial CarefulStep s :=
    runAll_reach (fun _ op _ hop hcare => ⟨op, hcare rfl, hop⟩) hs
  refine ⟨s, proc, hreach, hproc, hterm, ?_⟩
  intro q hon
  have halive := (killed_never_runs hreach).1 q 1 proc hon hproc
  rw [hterm] at halive
  cases halive

/-- **A killed process runs.**  Process 3 waits for process 1 and is killed; then
process 1 exits, and resumes it. -/
theorem killed_runs : ∃ s s' proc proc',
    Reach Initial (fun s s' => ∃ op, s.Step op s') s ∧ s.Step (.exit 0) s' ∧
    s.process 3 = some proc ∧ proc.terminating = true ∧ s.currentPid ≠ 3 ∧
    s'.process 3 = some proc' ∧ proc'.terminating = true ∧ s'.currentPid = 3 ∧
    s'.OnQueue .running 3 := by
  have hrun : ((boot >>= runAll false [.fork 0 0, .fork 0 0, .fork 0 0, .yield, .wait 1,
      .kill 3, .yield]) >>= fun s => (s.run (.exit 0)).map fun s' =>
        ([s.process 3, s'.process 3].map (Option.map Process.terminating),
          [s.currentPid, s'.currentPid, s'.runningHead], s.midCall))
      = .ok ([some true, some true], [1, 3, 3], false) := by decide +kernel
  obtain ⟨s, hs, hrun⟩ := bind_ok.mp hrun
  obtain ⟨s', hexit, hrun⟩ := map_ok.mp hrun
  simp only [Prod.mk.injEq, List.map_cons, List.map_nil, List.cons.injEq, and_true] at hrun
  obtain ⟨⟨hterm, hterm'⟩, ⟨hcurrent, hcurrent', hhead⟩, hmid⟩ := hrun
  obtain ⟨proc, hproc, hterm⟩ := Option.map_eq_some_iff.mp hterm
  obtain ⟨proc', hproc', hterm'⟩ := Option.map_eq_some_iff.mp hterm'
  refine ⟨s, s', proc, proc', runAll_reach (fun _ op _ hop _ => ⟨op, hop⟩) hs,
    ⟨by simp [hmid], hexit⟩, hproc, hterm, by simp [hcurrent], hproc', hterm', hcurrent', ?_⟩
  show s'.Follows s'.runningHead 3
  rw [hhead]
  exact .here 3

end Peos2.Kernel.Scheduler
