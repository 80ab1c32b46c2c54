/-
  Kernel.RoundRobin — the order in which yields select processes.

  A yield stamps the process that stops and the one that starts with the new tick, and
  selects the one with the least tick. So a process that was selected is not selected
  again before those that waited meanwhile. The tick has 64 bits; when it wraps
  around, the process that stops has the least tick.

  Main result: `round_robin`.
-/
import Peos2.Kernel.Termination

namespace Peos2.Kernel.Scheduler

open Peos2.Lib Peos2.Support

/-- What `decide_next_process` returns in `proc_yield`. -/
def selected (s : Scheduler) : Checked Nat := do
  let s ← { s with tickCount := s.tickCount + 1 }.touchCurrent
  s.decideNextProcess

/-- `n` yields in a row, with the processes they select. -/
def yields : Nat → Scheduler → Checked (List Nat × Scheduler)
  | 0, s => .ok ([], s)
  | n + 1, s => do
      let pid ← s.selected
      let s ← s.procYield
      let (pids, s) ← yields n s
      .ok (pid :: pids, s)

variable {s s' : Scheduler} {ls : QueueName → List Nat} {pid p q n : Nat}

/-! ## One yield -/

theorem modify_tick (h : s.Inv ls) {t : UInt64}
    (hcall : s.modify pid (fun proc => { proc with lastTick := t }) = .ok s') :
    s'.tickCount = s.tickCount ∧ ∀ j, s'.tick j = if j = pid then t.toNat else s.tick j := by
  obtain ⟨proc, hproc⟩ := modify_ok hcall
  obtain ⟨processes, hspec, _, hl⟩ := modify_spec h.linked.wf hproc
    fun proc => { proc with lastTick := t }
  cases hspec.symm.trans hcall
  refine ⟨rfl, fun j => ?_⟩
  show ((processes.lookup j).map _).getD 0 = _
  rw [hl]
  split <;> rfl

theorem touchCurrent_tick (h : s.Inv ls) (hcall : s.touchCurrent = .ok s') :
    s'.tickCount = s.tickCount ∧ (∀ j, s'.tick j = s.tick j ∨ s'.tick j = s.tickCount.toNat) ∧
      (∀ j, j ≠ s.currentPid → s'.tick j = s.tick j) ∧
      (s.flags s.currentPid ≠ none → s'.tick s.currentPid = s.tickCount.toNat) := by
  unfold touchCurrent at hcall
  split at hcall
  · obtain ⟨hcount, htick⟩ := modify_tick h hcall
    refine ⟨hcount, fun j => ?_, fun j hj => ?_, fun _ => ?_⟩
    · rw [htick]
      split <;> simp
    · rw [htick, if_neg hj]
    · rw [htick, if_pos rfl]
  next hinvalid =>
    cases hcall
    refine ⟨rfl, fun _ => .inl rfl, fun _ _ => rfl, fun hlive => absurd ?_ hinvalid⟩
    obtain ⟨fl, hfl⟩ := Option.ne_none_iff_exists'.mp hlive
    obtain ⟨proc, hproc, _⟩ := process_of_flags hfl
    exact (h.linked.wf.valid_iff_lookup _).mpr ⟨proc, hproc⟩

theorem procSwitch_tick (h : s.Inv ls) (hflags : s.flags pid = some (false, false))
    (hcall : s.procSwitch pid = .ok s') :
    s'.tickCount = s.tickCount ∧ (∀ j, s'.tick j = s.tick j ∨ s'.tick j = s.tickCount.toNat) ∧
      ∀ j, j ≠ pid → s'.tick j = s.tick j := by
  obtain ⟨proc, hproc, hfl⟩ := process_of_flags hflags
  have hterm : proc.terminating = false := congrArg Prod.fst hfl
  have hsusp : proc.suspended = false := congrArg Prod.snd hfl
  unfold procSwitch at hcall
  split at hcall
  · cases hcall
    exact ⟨rfl, fun _ => .inl rfl, fun _ _ => rfl⟩
  rw [get_spec hproc, ok_bind, hsusp, Bool.not_false, check_true, ok_bind] at hcall
  simp only [switchTarget, hterm, Bool.false_eq_true, if_false, ok_bind] at hcall
  obtain ⟨s1, hmodify, hcall⟩ := bind_ok.mp hcall
  cases hcall
  obtain ⟨hcount, htick⟩ := modify_tick h hmodify
  refine ⟨hcount, fun j => ?_, fun j hj => (htick j).trans (if_neg hj)⟩
  show s1.tick j = _ ∨ s1.tick j = _
  rw [htick]
  split <;> simp

structure Yielded (s : Scheduler) (ls : QueueName → List Nat) (pid : Nat) (s' : Scheduler) :
    Prop where
  inv : s'.Inv ls
  tickCount : s'.tickCount = s.tickCount + 1
  current : s'.currentPid = pid
  live : s'.flags pid ≠ none
  stamped : ∀ j, s'.tick j = s.tick j ∨ s'.tick j = s'.tickCount.toNat
  waiting : ∀ j, j ≠ s.currentPid → j ≠ pid → s'.tick j = s.tick j
  stopped : s.flags s.currentPid ≠ none → pid ≠ s.currentPid →
    s'.tick s.currentPid = s'.tickCount.toNat
  least : ∀ j ∈ ls .running, j ≠ s.currentPid → s.tick j < 18446744073709551615 →
    (pid ≠ s.currentPid → s.tick pid ≤ s.tick j) ∧
    (s.flags s.currentPid ≠ none → pid = s.currentPid → s'.tickCount.toNat ≤ s.tick j)

/-- A yield selects the process with the least tick. -/
theorem procYield_yielded (h : s.Inv ls) :
    ∃ pid s', s.selected = .ok pid ∧ s.procYield = .ok s' ∧ Yielded s ls pid s' := by
  obtain ⟨s0, hs0⟩ : ∃ s0, s0 = { s with tickCount := s.tickCount + 1 } := ⟨_, rfl⟩
  have hinv0 : s0.Inv ls := by
    rw [hs0]
    exact h.congr (h.linked.congr rfl (fun q => by cases q <;> rfl)) (fun _ => rfl) rfl
  obtain ⟨s1, htouch, hinv1, hsame, _⟩ := touchCurrent_spec hinv0
  obtain ⟨pid, hpid, hflags⟩ := hinv1.decideNextProcess
  obtain ⟨pid', hpid', hleast⟩ := decideNextProcess_spec hinv1.linked
  cases hpid.symm.trans hpid'
  obtain ⟨s2, hswitch, hinv2, hswitched, hcurrent, _⟩ := procSwitch_spec hinv1 hflags
  obtain ⟨hcount1, hstamp1, hother1, hcurrent1⟩ := touchCurrent_tick hinv0 htouch
  obtain ⟨hcount2, hstamp2, hother2⟩ := procSwitch_tick hinv1 hflags hswitch
  rw [hcount1] at hcount2 hstamp2
  subst hs0
  refine ⟨pid, s2, ?_, ?_, hinv2, hcount2, hcurrent rfl, ?_, ?_, ?_, ?_, ?_⟩
  · rw [selected, htouch, ok_bind]
    exact hpid
  · rw [procYield, htouch, ok_bind, hpid, ok_bind]
    exact hswitch
  · rw [hswitched.flags, hflags]
    simp
  · intro j
    rw [hcount2]
    rcases hstamp2 j with hj | hj
    · rw [hj]
      exact hstamp1 j
    · exact .inr hj
  · intro j hj hj'
    exact (hother2 j hj').trans (hother1 j hj)
  · intro hlive hne
    rw [hcount2, hother2 _ (Ne.symm hne)]
    exact hcurrent1 hlive
  · intro j hj hne hlt
    rw [← show s1.tick j = s.tick j from hother1 j hne] at hlt ⊢
    have hle : s1.tick pid ≤ s1.tick j := by
      rcases hleast with ⟨_, hall⟩ | ⟨_, hall⟩
      · exact absurd (hall j hj) (by omega)
      · exact hall j hj
    refine ⟨fun hpid => ?_, fun hlive hpid => ?_⟩
    · rw [← show s1.tick pid = s.tick pid from hother1 pid hpid]
      exact hle
    · rw [hcount2, ← show s1.tick _ = _ from hcurrent1 hlive]
      exact hpid ▸ hle

/-! ## A run of yields -/

/-- Since `p` was selected, at the tick `τ`, `q` has not been: `p` is running, or has
stopped later than that. -/
structure Ahead (s : Scheduler) (p q τ : Nat) : Prop where
  waits : s.currentPid ≠ q ∧ s.tick q ≤ τ
  ran : s.currentPid = p ∨ τ < s.tick p
  live : s.flags s.currentPid ≠ none
  since : τ ≤ s.tickCount.toNat

theorem Yielded.toNat_tickCount (h : Yielded s ls pid s')
    (hn : s.tickCount.toNat + 1 < 18446744073709551616) :
    s'.tickCount.toNat = s.tickCount.toNat + 1 := by
  rw [h.tickCount]
  exact Nat.mod_eq_of_lt hn

/-- A process is not selected again before one that waits. -/
theorem Ahead.step (ha : Ahead s p q τ) (h : Yielded s ls pid s') (hq : q ∈ ls .running)
    (hn : s.tickCount.toNat + 1 < 18446744073709551616) :
    pid ≠ p ∧ (pid ≠ q → Ahead s' p q τ) := by
  obtain ⟨⟨hcurrent, hwaits⟩, hran, hlive, hsince⟩ := ha
  have hcount := h.toNat_tickCount hn
  obtain ⟨hother, hself⟩ := h.least q hq (Ne.symm hcurrent) (by omega)
  have hne : pid ≠ p := by
    rintro rfl
    by_cases hpid : pid = s.currentPid
    · have := hself hlive hpid
      omega
    · omega
  refine ⟨hne, fun hpq => ⟨⟨h.current.trans_ne hpq, ?_⟩, .inr ?_, ?_, by omega⟩⟩
  · rw [h.waiting q (Ne.symm hcurrent) (Ne.symm hpq)]
    exact hwaits
  · by_cases hp : p = s.currentPid
    · have := h.stopped hlive (hp ▸ hne)
      rw [hp]
      omega
    · rw [h.waiting p hp (Ne.symm hne)]
      exact hran.resolve_left (Ne.symm hp)
  · rw [h.current]
    exact h.live

theorem yields_cons (h : s.Inv ls) {rest : List Nat} (hrun : s.yields n = .ok (pid :: rest, s')) :
    ∃ m s1, n = m + 1 ∧ Yielded s ls pid s1 ∧ s1.yields m = .ok (rest, s') := by
  cases n with
  | zero => cases hrun
  | succ n =>
    obtain ⟨pid, s1, hselected, hyield, h1⟩ := procYield_yielded h
    rw [yields, hselected, ok_bind, hyield, ok_bind, bind_ok] at hrun
    obtain ⟨⟨rest, s2⟩, hrest, hrun⟩ := hrun
    cases hrun
    exact ⟨n, s1, rfl, h1, hrest⟩

theorem Ahead.between (ha : Ahead s p q τ) (h : s.Inv ls) (hq : q ∈ ls .running) {b c : List Nat}
    (hn : s.tickCount.toNat + n < 18446744073709551616)
    (hrun : s.yields n = .ok (b ++ p :: c, s')) : q ∈ b := by
  induction b generalizing s n with
  | nil =>
    obtain ⟨m, s1, rfl, h1, _⟩ := yields_cons h hrun
    exact absurd rfl (ha.step h1 hq (by omega)).1
  | cons r b ih =>
    obtain ⟨m, s1, rfl, h1, hrest⟩ := yields_cons h hrun
    by_cases hr : r = q
    · exact hr ▸ List.mem_cons_self
    · have hcount := h1.toNat_tickCount (by omega)
      exact List.mem_cons_of_mem _ (ih ((ha.step h1 hq (by omega)).2 hr) h1.inv (by omega) hrest)

theorem yields_ok (h : s.Inv ls) : ∃ pids s', s.yields n = .ok (pids, s') ∧ s'.Inv ls := by
  induction n generalizing s with
  | zero => exact ⟨[], s, rfl, h⟩
  | succ n ih =>
    obtain ⟨pid, s1, hselected, hyield, h1⟩ := procYield_yielded h
    obtain ⟨pids, s2, hrest, h2⟩ := ih h1.inv
    refine ⟨pid :: pids, s2, ?_, h2⟩
    rw [yields, hselected, ok_bind, hyield, ok_bind, hrest, ok_bind]

/-- **Between two selections of a process every other one is selected.** -/
theorem round_robin (h : s.Inv ls) (hticks : ∀ j ∈ ls .running, s.tick j ≤ s.tickCount.toNat)
    (hn : s.tickCount.toNat + n < 18446744073709551616) :
    ∃ pids s', s.yields n = .ok (pids, s') ∧ s'.Inv ls ∧ ∀ a b c p,
      pids = a ++ p :: (b ++ p :: c) → ∀ q ∈ ls .running, q ≠ p → q ∈ b := by
  obtain ⟨pids, s', hrun, hinv⟩ := yields_ok h
  refine ⟨pids, s', hrun, hinv, fun a b c p hpids q hq hqp => ?_⟩
  subst hpids
  clear hinv
  -- up to the first selection only the bound on the ticks is needed
  induction a generalizing s n with
  | nil =>
    obtain ⟨m, s1, rfl, h1, hrest⟩ := yields_cons h hrun
    have hcount := h1.toNat_tickCount (by omega)
    have hle : s1.tick q ≤ s1.tickCount.toNat := by
      have := hticks q hq
      rcases h1.stamped q with hj | hj <;> omega
    have hahead : Ahead s1 p q s1.tickCount.toNat :=
      ⟨⟨h1.current.trans_ne (Ne.symm hqp), hle⟩, .inl h1.current, h1.current ▸ h1.live, le_rfl⟩
    exact hahead.between h1.inv hq (by omega) hrest
  | cons r a ih =>
    obtain ⟨m, s1, rfl, h1, hrest⟩ := yields_cons h hrun
    have hcount := h1.toNat_tickCount (by omega)
    refine ih h1.inv (fun j hj => ?_) (by omega) hrest
    have := hticks j hj
    rcases h1.stamped j with hj | hj <;> omega

/-! ## Two processes -/

/-- Two processes that never ran, at the tick `t`. -/
def pair (t : UInt64) : Checked Scheduler := do
  let s ← boot
  let (_, s) ← s.spawn 0 0
  let (_, s) ← s.spawn 0 0
  .ok { s with tickCount := t }

theorem pair_inv {t : UInt64} (h : pair t = .ok s) :
    ∃ ls, s.Inv ls ∧ ∀ j ∈ ls .running, s.tick j = 0 := by
  rw [pair, bind_ok] at h
  obtain ⟨s0, hboot, h⟩ := h
  obtain ⟨⟨p1, s1⟩, hfirst, h⟩ := bind_ok.mp h
  obtain ⟨⟨p2, s2⟩, hsecond, h⟩ := bind_ok.mp h
  cases h
  obtain ⟨ls1, hinv1, _, hflags1, _, _, hidle1, hcore1⟩ :=
    spawn_spec (boot_initial hboot).inv hfirst
  obtain ⟨ls2, hinv2, _, hflags2, _, _, hidle2, hcore2⟩ := spawn_spec hinv1 hsecond
  refine ⟨ls2, hinv2.congr (hinv2.linked.congr rfl (fun q => by cases q <;> rfl)) (fun _ => rfl) rfl,
    fun j hj => ?_⟩
  obtain ⟨hidle, hfl⟩ := (hinv2.member .running j).mp hj
  have hnew : s2.core j = some (Process.new noProcess noProcess) := by
    rw [hflags2, hflags1, (boot_initial hboot).flags.2, ← hidle1, ← hidle2] at hfl
    by_cases h2 : j = p2 <;> by_cases h1 : j = p1 <;> simp_all
  show ((s2.process j).map fun proc => proc.lastTick.toNat).getD 0 = 0
  rw [← observe_core (g := fun proc => proc.lastTick.toNat) (fun _ => rfl), hnew]
  rfl

theorem round_robin_pair : ∃ (s : Scheduler) (ls : QueueName → List Nat) (pids : List Nat)
    (s' : Scheduler), s.Inv ls ∧ s.yields 4 = .ok (pids, s') ∧
    pids = [2, 1, 2, 1] ∧ ∀ a b c p, pids = a ++ p :: (b ++ p :: c) →
      ∀ q ∈ ls .running, q ≠ p → q ∈ b := by
  have hrun : (pair 0 >>= fun s => (s.yields 4).map fun r => (r.1, s.tickCount))
      = .ok ([2, 1, 2, 1], 0) := by decide +kernel
  obtain ⟨s, hpair, hrun⟩ := bind_ok.mp hrun
  obtain ⟨⟨pids, s'⟩, hyields, hpids⟩ := map_ok.mp hrun
  obtain ⟨hpids, hcount⟩ := Prod.mk.inj hpids
  obtain ⟨ls, hinv, hticks⟩ := pair_inv hpair
  obtain ⟨pids', s'', hyields', _, hfair⟩ := round_robin (n := 4) hinv
    (fun j hj => by simp [hticks j hj]) (by rw [hcount]; decide)
  cases hyields.symm.trans hyields'
  exact ⟨s, ls, pids, s', hinv, hyields, hpids, hfair⟩

/-- **When the tick wraps around a process is selected twice in a row.** -/
theorem wrapped_selects_twice : ∃ (s : Scheduler) (ls : QueueName → List Nat) (s' : Scheduler),
    s.Inv ls ∧
    (∀ j ∈ ls .running, s.tick j ≤ s.tickCount.toNat) ∧ 1 ∈ ls .running ∧ 2 ∈ ls .running ∧
    s.yields 2 = .ok ([2, 2], s') := by
  have hrun : (pair 0xFFFFFFFFFFFFFFFE >>= fun s => (s.yields 2).map fun r =>
      (r.1, s.flags 1, s.flags 2, s.idleProcess))
      = .ok ([2, 2], some (false, false), some (false, false), 0) := by decide +kernel
  obtain ⟨s, hpair, hrun⟩ := bind_ok.mp hrun
  obtain ⟨⟨pids, s'⟩, hyields, hrun⟩ := map_ok.mp hrun
  simp only [Prod.mk.injEq] at hrun
  obtain ⟨rfl, hfirst, hsecond, hidle⟩ := hrun
  obtain ⟨ls, hinv, hticks⟩ := pair_inv hpair
  refine ⟨s, ls, s', hinv, fun j hj => by simp [hticks j hj], ?_, ?_, hyields⟩
  · exact (hinv.member .running 1).mpr ⟨by simp [hidle], hfirst⟩
  · exact (hinv.member .running 2).mpr ⟨by simp [hidle], hsecond⟩

end Peos2.Kernel.Scheduler
