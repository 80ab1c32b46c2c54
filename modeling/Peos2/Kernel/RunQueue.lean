/-
  Kernel.RunQueue — the two queues of processes as lists.

  `Linked s ls` says that the queues of `s` are the lists `ls`. A process is on one of
  them at most; one that is on none may have any links. Enqueueing and dequeueing are
  consing and erasing, and change nothing but links.
-/
import Mathlib.Logic.Function.Basic
import Peos2.Kernel.Process

namespace Peos2.Kernel

open Peos2.Lib Peos2.Support List Function Option

def Process.core (proc : Process) : Process :=
  { proc with prevProcess := noProcess, nextProcess := noProcess }

namespace Scheduler

/-! ## Links and the rest -/

def process (s : Scheduler) (pid : Nat) : Option Process := s.processes.lookup pid

/-- What the process in slot `pid` is, apart from its links. -/
def core (s : Scheduler) (pid : Nat) : Option Process := (s.process pid).map Process.core

/-- `next_process` of `pid` -/
def next (s : Scheduler) (pid : Nat) : Nat := ((s.process pid).map Process.nextProcess).getD noProcess

/-- `prev_process` of `pid` -/
def prev (s : Scheduler) (pid : Nat) : Nat := ((s.process pid).map Process.prevProcess).getD noProcess

/-- The queues of `s` are the lists `ls`. -/
structure Linked (s : Scheduler) (ls : QueueName → List Nat) : Prop where
  wf : s.processes.WF
  thread : ∀ q, Thread s.next s.prev noProcess (ls q) noProcess
  head : ∀ q, s.head q = (ls q).headD noProcess
  nodup : ∀ q, (ls q).Nodup
  apart : ∀ q q' pid, pid ∈ ls q → pid ∈ ls q' → q = q'
  live : ∀ q, ∀ pid ∈ ls q, ∃ proc, s.process pid = some proc

/-- Only links and heads of queues are different. -/
structure Relinked (s s' : Scheduler) : Prop where
  core : ∀ pid, s'.core pid = s.core pid
  currentPid : s'.currentPid = s.currentPid
  idleProcess : s'.idleProcess = s.idleProcess

variable {s s' s'' : Scheduler} {ls : QueueName → List Nat} {pid : Nat} {proc : Process}
  {q : QueueName}

theorem Relinked.refl (s : Scheduler) : Relinked s s := ⟨fun _ => rfl, rfl, rfl⟩

theorem Relinked.trans (h : Relinked s s') (h' : Relinked s' s'') : Relinked s s'' :=
  ⟨fun pid => (h'.core pid).trans (h.core pid), h'.currentPid.trans h.currentPid,
    h'.idleProcess.trans h.idleProcess⟩

theorem Relinked.process (h : Relinked s s') (hp : s.process pid = some proc) :
    ∃ proc', s'.process pid = some proc' ∧ proc'.core = proc.core := by
  have hcore := h.core pid
  unfold Scheduler.core at hcore
  rw [hp, map_some, map_eq_some_iff] at hcore
  exact hcore

theorem next_eq (h : s.process pid = some proc) : s.next pid = proc.nextProcess := by
  unfold next
  rw [h]
  rfl

theorem prev_eq (h : s.process pid = some proc) : s.prev pid = proc.prevProcess := by
  unfold prev
  rw [h]
  rfl

theorem get_spec (h : s.process pid = some proc) : s.get pid = .ok proc := Pool.get_spec h

theorem ne_noProcess (hwf : s.processes.WF) (h : s.process pid = some proc) : pid ≠ noProcess := by
  have hlt := Nat.lt_of_lt_of_le (Pool.lookup_lt_watermark h) hwf.room
  unfold noProcess
  omega

theorem modify_spec (hwf : s.processes.WF) (h : s.process pid = some proc) (f : Process → Process) :
    ∃ processes, s.modify pid f = .ok { s with processes } ∧ processes.WF ∧
      ∀ j, processes.lookup j = if j = pid then some (f proc) else s.process j := by
  obtain ⟨processes, hset, hwf', hl⟩ := Pool.set_spec hwf h (f proc)
  refine ⟨processes, ?_, hwf', hl⟩
  rw [modify, Pool.get_spec h, ok_bind, hset, ok_bind]

theorem link_of_store {find find' : Nat → Option Process} {link : Process → Nat} {v : Process}
    (hl : ∀ j, find' j = if j = pid then some v else find j) :
    (fun j => ((find' j).map link).getD noProcess)
      = storeAt (fun j => ((find j).map link).getD noProcess) pid (link v) := by
  funext j
  rw [hl]
  unfold storeAt
  split <;> rfl

theorem modify_links (hwf : s.processes.WF) (h : s.process pid = some proc)
    {f : Process → Process} (hf : (f proc).core = proc.core) :
    ∃ s', s.modify pid f = .ok s' ∧ s'.processes.WF ∧ Relinked s s' ∧
      (∀ j, s'.process j = if j = pid then some (f proc) else s.process j) ∧
      s'.next = storeAt s.next pid (f proc).nextProcess ∧
      s'.prev = storeAt s.prev pid (f proc).prevProcess ∧ ∀ q, s'.head q = s.head q := by
  obtain ⟨processes, hcall, hwf', hl⟩ := modify_spec hwf h f
  refine ⟨_, hcall, hwf', ⟨?_, rfl, rfl⟩, hl, link_of_store hl, link_of_store hl,
    fun q => by cases q <;> rfl⟩
  intro j
  show (processes.lookup j).map Process.core = _
  rw [hl]
  split
  next hj =>
    rw [hj, map_some, hf]
    unfold core
    rw [h]
    rfl
  · rfl

theorem modify_data (h : s.Linked ls) (hp : s.process pid = some proc)
    {f : Process → Process} (hnext : (f proc).nextProcess = proc.nextProcess)
    (hprev : (f proc).prevProcess = proc.prevProcess) :
    ∃ s', s.modify pid f = .ok s' ∧ s'.Linked ls ∧
      (∀ j, s'.process j = if j = pid then some (f proc) else s.process j) ∧
      s'.currentPid = s.currentPid ∧ s'.idleProcess = s.idleProcess := by
  obtain ⟨processes, hcall, hwf, hl⟩ := modify_spec h.wf hp f
  have hnext' : next { s with processes } = s.next :=
    (link_of_store hl).trans (storeAt_eq_self _ ((next_eq hp).trans hnext.symm))
  have hprev' : prev { s with processes } = s.prev :=
    (link_of_store hl).trans (storeAt_eq_self _ ((prev_eq hp).trans hprev.symm))
  refine ⟨{ s with processes }, hcall, ⟨hwf, ?_, ?_, h.nodup, h.apart, ?_⟩, hl, rfl, rfl⟩
  · intro q
    rw [hnext', hprev']
    exact h.thread q
  · intro q
    rw [← h.head q]
    cases q <;> rfl
  · intro q i hi
    show ∃ proc, processes.lookup i = some proc
    rw [hl]
    split
    · exact ⟨_, rfl⟩
    · exact h.live q i hi

theorem Linked.length_lt (h : s.Linked ls) (q : QueueName) : (ls q).length < 129 := by
  have hle := Pool.length_le_of_nodup (h.nodup q) (n := 128) fun i hi => by
    obtain ⟨proc, hproc⟩ := h.live q i hi
    exact Nat.lt_of_lt_of_le (Pool.lookup_lt_watermark hproc) h.wf.room
  omega

/-! ## Putting a process on a queue -/

theorem head_setHead (s : Scheduler) (pid : Nat) (q q' : QueueName) :
    (s.setHead pid q).head q' = if q' = q then pid else s.head q' := by
  cases q <;> cases q' <;> rfl

theorem process_setHead (s : Scheduler) (pid : Nat) (q : QueueName) :
    (s.setHead pid q).processes = s.processes := by
  cases q <;> rfl

theorem next_setHead (s : Scheduler) (pid : Nat) (q : QueueName) :
    (s.setHead pid q).next = s.next := by
  cases q <;> rfl

theorem prev_setHead (s : Scheduler) (pid : Nat) (q : QueueName) :
    (s.setHead pid q).prev = s.prev := by
  cases q <;> rfl

theorem relinked_setHead (s : Scheduler) (pid : Nat) (q : QueueName) :
    Relinked s (s.setHead pid q) := by
  cases q <;> exact ⟨fun _ => rfl, rfl, rfl⟩

theorem Linked.congr (h : s.Linked ls) (hprocesses : s'.processes = s.processes)
    (hhead : ∀ q, s'.head q = s.head q) : s'.Linked ls := by
  have hprocess : s'.process = s.process := by
    unfold process
    rw [hprocesses]
  have hnext : s'.next = s.next := by
    unfold next
    rw [hprocess]
  have hprev : s'.prev = s.prev := by
    unfold prev
    rw [hprocess]
  refine ⟨hprocesses ▸ h.wf, ?_, fun q => (hhead q).trans (h.head q), h.nodup, h.apart, ?_⟩
  · rw [hnext, hprev]
    exact h.thread
  · rw [hprocess]
    exact h.live

variable {l : List Nat} {i : Nat}

theorem Linked.replace (h : s.Linked ls) (hr : Relinked s s') (hwf : s'.processes.WF)
    (hthread : Thread s'.next s'.prev noProcess l noProcess) (hnd : l.Nodup)
    (hhead : ∀ q', s'.head q' = if q' = q then l.headD noProcess else s.head q')
    (hothers : ∀ q', q' ≠ q → ∀ i ∈ ls q', s'.next i = s.next i ∧ s'.prev i = s.prev i)
    (hmem : ∀ i ∈ l, (∃ proc, s.process i = some proc) ∧ ∀ q', q' ≠ q → i ∉ ls q') :
    s'.Linked (Function.update ls q l) := by
  refine ⟨hwf, ?_, ?_, ?_, ?_, ?_⟩
  · intro q'
    by_cases hq : q' = q
    · rw [hq, update_self]
      exact hthread
    · rw [update_of_ne hq]
      exact thread_congr (fun i hi => (hothers q' hq i hi).1) (fun i hi => (hothers q' hq i hi).2)
        (h.thread q')
  · intro q'
    rw [hhead]
    by_cases hq : q' = q
    · rw [if_pos hq, hq, update_self]
    · rw [if_neg hq, update_of_ne hq, h.head]
  · intro q'
    by_cases hq : q' = q
    · rw [hq, update_self]
      exact hnd
    · rw [update_of_ne hq]
      exact h.nodup q'
  · intro q1 q2 i h1 h2
    by_cases hq1 : q1 = q <;> by_cases hq2 : q2 = q
    · rw [hq1, hq2]
    · rw [hq1, update_self] at h1
      rw [update_of_ne hq2] at h2
      exact absurd h2 ((hmem i h1).2 q2 hq2)
    · rw [hq2, update_self] at h2
      rw [update_of_ne hq1] at h1
      exact absurd h1 ((hmem i h2).2 q1 hq1)
    · rw [update_of_ne hq1] at h1
      rw [update_of_ne hq2] at h2
      exact h.apart q1 q2 i h1 h2
  · intro q' i hi
    have hlive : ∃ proc, s.process i = some proc := by
      by_cases hq : q' = q
      · rw [hq, update_self] at hi
        exact (hmem i hi).1
      · rw [update_of_ne hq] at hi
        exact h.live q' i hi
    obtain ⟨proc, hproc⟩ := hlive
    obtain ⟨proc', hproc', _⟩ := hr.process hproc
    exact ⟨proc', hproc'⟩

theorem setPrevProcess_spec (hwf : s.processes.WF)
    (hlive : ∀ i ∈ l, ∃ proc, s.process i = some proc) (x : Nat) :
    ∃ s', s.setPrevProcess (l.headD noProcess) x = .ok s' ∧ s'.processes.WF ∧ Relinked s s' ∧
      s'.next = s.next ∧ (∀ j l', l = j :: l' → s'.prev = storeAt s.prev j x) ∧
      (l = [] → s'.prev = s.prev) ∧ ∀ q', s'.head q' = s.head q' := by
  cases l with
  | nil =>
    refine ⟨s, if_neg (fun hne => hne rfl), hwf, Relinked.refl s, rfl, ?_,
      fun _ => rfl, fun _ => rfl⟩
    intro j l hcons
    cases hcons
  | cons j l =>
    obtain ⟨first, hfirst⟩ := hlive j mem_cons_self
    obtain ⟨s1, hcall, hwf1, hr1, _, hnext1, hprev1, hhead1⟩ := modify_links hwf hfirst
      (f := fun proc => { proc with prevProcess := x }) rfl
    refine ⟨s1, ?_, hwf1, hr1, ?_, ?_, ?_, hhead1⟩
    · show (if j ≠ noProcess then _ else _) = _
      rw [if_pos (ne_noProcess hwf hfirst)]
      exact hcall
    · rw [hnext1, storeAt_eq_self _ (next_eq hfirst)]
    · intro j' l' hcons
      cases hcons
      exact hprev1
    · intro hnil
      cases hnil

theorem setNextProcess_spec (hwf : s.processes.WF)
    (hlive : ∀ i ∈ l, ∃ proc, s.process i = some proc) (x : Nat) :
    ∃ s', s.setNextProcess (l.getLastD noProcess) x = .ok s' ∧ s'.processes.WF ∧ Relinked s s' ∧
      s'.prev = s.prev ∧ (∀ l' j, l = l' ++ [j] → s'.next = storeAt s.next j x) ∧
      (l = [] → s'.next = s.next) ∧ ∀ q', s'.head q' = s.head q' := by
  unfold setNextProcess
  rcases eq_nil_or_concat l with rfl | ⟨l', j, hl⟩
  · refine ⟨s, if_neg (fun hne => hne rfl), hwf, Relinked.refl s, rfl, ?_,
      fun _ => rfl, fun _ => rfl⟩
    intro l' j hcons
    simp at hcons
  rw [concat_eq_append] at hl
  obtain ⟨last, hlast⟩ := hlive j (by rw [hl]; simp)
  obtain ⟨s1, hcall, hwf1, hr1, _, hnext1, hprev1, hhead1⟩ := modify_links hwf hlast
    (f := fun proc => { proc with nextProcess := x }) rfl
  have hj : l.getLastD noProcess = j := by rw [hl]; simp
  refine ⟨s1, ?_, hwf1, hr1, ?_, ?_, ?_, hhead1⟩
  · rw [hj, if_pos (ne_noProcess hwf hlast)]
    exact hcall
  · rw [hprev1, storeAt_eq_self _ (prev_eq hlast)]
  · intro l₁ j1 hcons
    rw [hl] at hcons
    obtain ⟨_, hjj⟩ := append_inj' hcons rfl
    cases hjj
    exact hnext1
  · intro hnil
    rw [hl] at hnil
    simp at hnil

/-- `enqueue_front` puts a process that is on no queue in front of one. -/
theorem enqueueFront_spec (h : s.Linked ls) (hp : s.process pid = some proc)
    (hfree : ∀ q', pid ∉ ls q') (q : QueueName) :
    ∃ s', s.enqueueFront pid q = .ok s' ∧ Relinked s s' ∧
      s'.Linked (Function.update ls q (pid :: ls q)) := by
  obtain ⟨s1, hfirst, hwf1, hr1, hnext1, hprev1, hprev1', hhead1⟩ :=
    setPrevProcess_spec h.wf (h.live q) pid
  obtain ⟨proc1, hproc1, _⟩ := hr1.process hp
  obtain ⟨s2, hcall, hwf2, hr2, _, hnext2, hprev2, hhead2⟩ := modify_links hwf1 hproc1
    (f := fun proc => { proc with nextProcess := s1.head q, prevProcess := noProcess }) rfl
  have hr : Relinked s (s2.setHead pid q) := (hr1.trans hr2).trans (relinked_setHead s2 pid q)
  refine ⟨s2.setHead pid q, ?_, hr, ?_⟩
  · rw [enqueueFront, h.head, hfirst, ok_bind, hcall, ok_bind]
  have hnext : (s2.setHead pid q).next = storeAt s.next pid ((ls q).headD noProcess) := by
    rw [next_setHead, hnext2, hnext1]
    show storeAt s.next pid (s1.head q) = _
    rw [hhead1, h.head]
  have hprev : (s2.setHead pid q).prev = storeAt s1.prev pid noProcess := by
    rw [prev_setHead, hprev2]
  refine h.replace hr (by rw [process_setHead]; exact hwf2) ?_
    (nodup_cons.mpr ⟨hfree q, h.nodup q⟩) ?_ ?_ ?_
  · rw [hnext, hprev]
    refine thread_enqueue (hfree q) (h.nodup q) (h.thread q) ?_ ?_
    · intro j l hcons
      rw [hprev1 j l hcons]
    · intro hnil
      rw [hprev1' hnil]
  · intro q'
    rw [head_setHead, hhead2, hhead1]
    rfl
  · -- the stores go to `pid` and to the first of this queue
    intro q' hq i hi
    have hpid : i ≠ pid := fun heq => hfree q' (heq ▸ hi)
    rw [hnext, hprev]
    refine ⟨storeAt_ne _ _ hpid, ?_⟩
    rw [storeAt_ne _ _ hpid]
    cases hl : ls q with
    | nil => rw [hprev1' hl]
    | cons j l =>
      rw [hprev1 j l hl]
      apply storeAt_ne
      intro heq
      exact hq (h.apart q' q i hi (by rw [hl, heq]; exact mem_cons_self))
  · intro i hi
    rcases mem_cons.mp hi with rfl | hi
    · exact ⟨⟨proc, hp⟩, fun q' _ => hfree q'⟩
    · exact ⟨h.live q i hi, fun q' hq hi' => hq (h.apart q' q i hi' hi)⟩

/-! ## Taking a process off its queue -/

/-- In `s'` the last of `l₁` and the first of `l₂`, where there are such, are
linked to each other. -/
structure Cut (s : Scheduler) (l₁ l₂ : List Nat) (s' : Scheduler) : Prop where
  wf : s'.processes.WF
  relinked : Relinked s s'
  head : ∀ q, s'.head q = s.head q
  next : ∀ l j, l₁ = l ++ [j] → s'.next = storeAt s.next j (l₂.headD noProcess)
  next_nil : l₁ = [] → s'.next = s.next
  prev : ∀ j l, l₂ = j :: l → s'.prev = storeAt s.prev j (l₁.getLastD noProcess)
  prev_nil : l₂ = [] → s'.prev = s.prev

variable {l₁ l₂ : List Nat}

theorem Cut.next_of_notMem (h : Cut s l₁ l₂ s') (hi : i ∉ l₁) : s'.next i = s.next i := by
  rcases eq_nil_or_concat l₁ with hnil | ⟨l, j, hj⟩
  · rw [h.next_nil hnil]
  · rw [concat_eq_append] at hj
    rw [h.next l j hj]
    apply storeAt_ne
    intro heq
    exact hi (by rw [heq, hj]; simp)

theorem Cut.prev_of_notMem (h : Cut s l₁ l₂ s') (hi : i ∉ l₂) : s'.prev i = s.prev i := by
  cases hl : l₂ with
  | nil => rw [h.prev_nil hl]
  | cons j l =>
    rw [h.prev j l hl]
    apply storeAt_ne
    intro heq
    exact hi (by rw [heq, hl]; exact mem_cons_self)

theorem dequeue_cut (h : s.Linked ls) (hl : ls q = l₁ ++ pid :: l₂) :
    ∃ s', Cut s l₁ l₂ s' ∧ s.dequeue pid q
      = .ok (if s'.head q = pid then s'.setHead (l₂.headD noProcess) q else s') := by
  have hthread := h.thread q
  have hnd := h.nodup q
  rw [hl] at hthread hnd
  have hnotin : pid ∉ l₁ ++ l₂ := (nodup_cons.mp (nodup_middle.mp hnd)).1
  have hlive : ∀ i ∈ l₁ ++ pid :: l₂, ∃ proc, s.process i = some proc := by
    intro i hi
    exact h.live q i (hl ▸ hi)
  obtain ⟨proc, hproc⟩ := hlive pid (by simp)
  have hprevp : proc.prevProcess = l₁.getLastD noProcess :=
    (prev_eq hproc).symm.trans (prev_mem_of_thread hthread)
  have hnextp : proc.nextProcess = l₂.headD noProcess :=
    (next_eq hproc).symm.trans (next_mem_of_thread hthread)
  -- the neighbour in front
  obtain ⟨s1, hfront, hwf1, hr1, hprev1, hnext1, hnext1', hhead1⟩ := setNextProcess_spec h.wf
    (fun i hi => hlive i (mem_append_left _ hi)) (l₂.headD noProcess)
  obtain ⟨proc1, hproc1, _⟩ := hr1.process hproc
  have hlive1 : ∀ i ∈ l₂, ∃ proc, s1.process i = some proc := by
    intro i hi
    obtain ⟨p, hp⟩ := hlive i (mem_append_right _ (mem_cons_of_mem _ hi))
    obtain ⟨p', hp', _⟩ := hr1.process hp
    exact ⟨p', hp'⟩
  -- the neighbour behind
  obtain ⟨s2, hback, hwf2, hr2, hnext2, hprev2, hprev2', hhead2⟩ :=
    setPrevProcess_spec hwf1 hlive1 (l₁.getLastD noProcess)
  obtain ⟨proc2, hproc2, _⟩ := hr2.process hproc1
  have hcut : Cut s l₁ l₂ s2 := by
    refine ⟨hwf2, hr1.trans hr2, fun q' => (hhead2 q').trans (hhead1 q'), ?_, ?_, ?_, ?_⟩
    · intro l j hj
      rw [hnext2, hnext1 l j hj]
    · intro hnil
      rw [hnext2, hnext1' hnil]
    · intro j l hj
      rw [hprev2 j l hj, hprev1]
    · intro hnil
      rw [hprev2' hnil, hprev1]
  -- the process itself keeps its links
  have hnextp2 : proc2.nextProcess = l₂.headD noProcess := by
    rw [← next_eq hproc2, hcut.next_of_notMem fun hin => hnotin (mem_append_left _ hin),
      next_eq hproc, hnextp]
  have hnextp1 : proc1.nextProcess = l₂.headD noProcess := by
    rw [← next_eq hproc1, ← hnext2, next_eq hproc2, hnextp2]
  have hprevp1 : proc1.prevProcess = l₁.getLastD noProcess := by
    rw [← prev_eq hproc1, hprev1, prev_eq hproc, hprevp]
  refine ⟨s2, hcut, ?_⟩
  rw [dequeue, get_spec hproc, ok_bind, hprevp, hnextp, hfront, ok_bind, get_spec hproc1,
    ok_bind, hprevp1, hnextp1, hback, ok_bind, get_spec hproc2, ok_bind, hnextp2]

theorem dequeue_spec (h : s.Linked ls) (hpid : pid ∈ ls q) :
    ∃ s', s.dequeue pid q = .ok s' ∧ Relinked s s' ∧
      s'.Linked (Function.update ls q ((ls q).erase pid)) := by
  obtain ⟨l₁, l₂, hl⟩ := append_of_mem hpid
  obtain ⟨s2, hcut, hcall⟩ := dequeue_cut h hl
  have hthread := h.thread q
  have hnd := h.nodup q
  rw [hl] at hthread hnd
  obtain ⟨hnotin, hnd'⟩ := nodup_cons.mp (nodup_middle.mp hnd)
  have hmem : ∀ i ∈ l₁ ++ l₂, i ∈ ls q := by
    intro i hi
    rw [hl]
    rcases mem_append.mp hi with hi | hi
    · exact mem_append_left _ hi
    · exact mem_append_right _ (mem_cons_of_mem _ hi)
  have herase : (ls q).erase pid = l₁ ++ l₂ := by
    have hnotin1 : pid ∉ l₁ := fun hin => hnotin (mem_append_left _ hin)
    rw [hl, erase_append_right _ hnotin1, erase_cons_head]
  have hthread2 : Thread s2.next s2.prev noProcess (l₁ ++ l₂) noProcess :=
    thread_unlink hnd hthread hcut.next hcut.next_nil hcut.prev hcut.prev_nil
  have hsame : ∀ q', q' ≠ q → ∀ i ∈ ls q', s2.next i = s.next i ∧ s2.prev i = s.prev i := by
    intro q' hq i hi
    have hout : i ∉ l₁ ++ l₂ := fun hin => hq (h.apart q' q i hi (hmem i hin))
    exact ⟨hcut.next_of_notMem fun hin => hout (mem_append_left _ hin),
      hcut.prev_of_notMem fun hin => hout (mem_append_right _ hin)⟩
  have hothers : ∀ i ∈ l₁ ++ l₂, (∃ proc, s.process i = some proc) ∧
      ∀ q', q' ≠ q → i ∉ ls q' := fun i hi =>
    ⟨h.live q i (hmem i hi), fun q' hq hi' => hq (h.apart q' q i hi' (hmem i hi))⟩
  have hhead : s2.head q = (l₁ ++ pid :: l₂).headD noProcess := by
    rw [hcut.head, h.head, hl]
  rw [hcall, herase]
  by_cases hfirst : s2.head q = pid
  · -- only the first of a queue is its head
    have hnil : l₁ = [] := by
      cases hl1 : l₁ with
      | nil => rfl
      | cons first rest =>
        rw [hhead, hl1] at hfirst
        have heq : first = pid := hfirst
        exact absurd (by rw [hl1, heq]; simp) hnotin
    have hr := hcut.relinked.trans (relinked_setHead s2 (l₂.headD noProcess) q)
    rw [if_pos hfirst]
    refine ⟨_, rfl, hr, h.replace hr ?_ ?_ hnd' ?_ ?_ hothers⟩
    · rw [process_setHead]
      exact hcut.wf
    · rw [next_setHead, prev_setHead]
      exact hthread2
    · intro q'
      rw [head_setHead, hcut.head, hnil]
      rfl
    · rw [next_setHead, prev_setHead]
      exact hsame
  · rw [if_neg hfirst]
    refine ⟨_, rfl, hcut.relinked, h.replace hcut.relinked hcut.wf hthread2 hnd' ?_ hsame hothers⟩
    intro q'
    split
    next hq =>
      rw [hq, hhead]
      cases hl1 : l₁ with
      | nil =>
        rw [hhead, hl1] at hfirst
        exact absurd rfl hfirst
      | cons first rest => rfl
    · exact hcut.head q'

theorem mem_enqueued {q' : QueueName} :
    i ∈ Function.update ls q (pid :: ls q) q' ↔ (i = pid ∧ q' = q) ∨ i ∈ ls q' := by
  by_cases hq : q' = q
  · rw [hq, update_self, mem_cons]
    exact or_congr_left (and_iff_left rfl).symm
  rw [update_of_ne hq]
  constructor
  · exact .inr
  · rintro (⟨_, heq⟩ | hi)
    · exact absurd heq hq
    · exact hi

theorem Linked.mem_dequeued (h : s.Linked ls) (hpid : pid ∈ ls q) {q' : QueueName} :
    i ∈ Function.update ls q ((ls q).erase pid) q' ↔ i ≠ pid ∧ i ∈ ls q' := by
  by_cases hq : q' = q
  · rw [hq, update_self, (h.nodup q).mem_erase_iff]
  · rw [update_of_ne hq]
    constructor
    · intro hi
      exact ⟨fun heq => hq (h.apart q' q pid (heq ▸ hi) hpid), hi⟩
    · exact And.right

/-! ## The next process -/

def tick (s : Scheduler) (pid : Nat) : Nat :=
  ((s.process pid).map fun proc => proc.lastTick.toNat).getD 0

theorem leastFrom_spec {before : Nat} : ∀ {l : List Nat} {fuel node : Nat} {tick : UInt64}
    {pid : Nat}, Thread s.next s.prev before l noProcess → node = l.headD noProcess →
    l.length < fuel → s.processes.WF → (∀ i ∈ l, ∃ proc, s.process i = some proc) →
    ∃ pid', s.leastFrom fuel node tick pid = .ok pid' ∧
      (pid' = pid ∧ (∀ j ∈ l, tick.toNat ≤ s.tick j) ∨
        pid' ∈ l ∧ s.tick pid' < tick.toNat ∧ ∀ j ∈ l, s.tick pid' ≤ s.tick j) := by
  intro l
  induction l generalizing before with
  | nil =>
    intro fuel node tick pid _ hnode hfuel _ _
    obtain ⟨n, rfl⟩ := Nat.exists_eq_add_of_lt hfuel
    refine ⟨pid, ?_, .inl ⟨rfl, by simp⟩⟩
    rw [hnode]
    exact if_pos rfl
  | cons i l ih =>
    intro fuel node tick pid hthread hnode hfuel hwf hlive
    obtain ⟨_, hnext, hrest⟩ := hthread
    obtain ⟨proc, hproc⟩ := hlive i mem_cons_self
    obtain ⟨n, rfl⟩ : ∃ n, fuel = n + 1 := ⟨fuel - 1, by omega⟩
    have hnode : node = i := hnode
    have hproc' : proc.nextProcess = l.headD noProcess := (next_eq hproc).symm.trans hnext
    have hlen : l.length < n := by
      rw [length_cons] at hfuel
      omega
    have hlive' : ∀ j ∈ l, ∃ proc, s.process j = some proc :=
      fun j hj => hlive j (mem_cons_of_mem _ hj)
    have htick : s.tick i = proc.lastTick.toNat := by simp [Scheduler.tick, hproc]
    rw [leastFrom, hnode, if_neg (ne_noProcess hwf hproc), get_spec hproc, ok_bind, hproc']
    simp only [mem_cons, forall_eq_or_imp]
    split
    next hless =>
      rw [UInt64.lt_iff_toNat_lt] at hless
      obtain ⟨pid', hcall, hleast⟩ := @ih i n _ proc.lastTick i hrest rfl hlen hwf hlive'
      refine ⟨pid', hcall, .inr ?_⟩
      rcases hleast with ⟨rfl, hall⟩ | ⟨hmem, hlt, hall⟩
      · exact ⟨.inl rfl, by omega, le_rfl, by rwa [htick]⟩
      · exact ⟨.inr hmem, by omega, by omega, hall⟩
    next hless =>
      rw [UInt64.lt_iff_toNat_lt] at hless
      obtain ⟨pid', hcall, hleast⟩ := @ih i n _ tick pid hrest rfl hlen hwf hlive'
      refine ⟨pid', hcall, hleast.imp (And.imp_right fun hall => ⟨by omega, hall⟩) ?_⟩
      exact fun ⟨hmem, hlt, hall⟩ => ⟨.inr hmem, hlt, by omega, hall⟩

/-- The next process is the one on the running queue that has waited longest; the
idle process if none there has a tick. -/
theorem decideNextProcess_spec (h : s.Linked ls) :
    ∃ pid, s.decideNextProcess = .ok pid ∧
      (pid = s.idleProcess ∧ (∀ j ∈ ls .running, 18446744073709551615 ≤ s.tick j) ∨
        pid ∈ ls .running ∧ ∀ j ∈ ls .running, s.tick pid ≤ s.tick j) := by
  obtain ⟨pid, hcall, hleast⟩ := @leastFrom_spec s _ _ 129 _ 0xFFFFFFFFFFFFFFFF noProcess
    (h.thread .running) (h.head .running) (h.length_lt .running) h.wf (h.live .running)
  refine ⟨if pid = noProcess then s.idleProcess else pid, ?_, ?_⟩
  · show (s.leastFrom 129 (s.head .running) 0xFFFFFFFFFFFFFFFF noProcess >>= _) = _
    rw [hcall, ok_bind]
  · rcases hleast with ⟨hnone, hall⟩ | ⟨hmem, _, hall⟩
    · exact .inl ⟨if_pos hnone, hall⟩
    · obtain ⟨proc, hproc⟩ := h.live .running pid hmem
      rw [if_neg (ne_noProcess h.wf hproc)]
      exact .inr ⟨hmem, hall⟩

end Scheduler

end Peos2.Kernel
