/-
  Support.PoolMap — `p2::fixed_pool` over whole histories: it is a finite map from
  indices to objects.

  The map is kept beside the pool: an entry appears when something is emplaced, is
  replaced when its index is emplaced again, and goes away with `erase` and `clear`.
  Nothing of the pool is used to keep it but the index that `emplace_anywhere` answers
  with. The storage a pool is constructed in may hold anything.

  Main result: `refines_map`.
-/
import Mathlib.Data.Set.Card
import Peos2.Lib.Run
import Peos2.Support.Pool

namespace Peos2.Support

open Peos2.Lib

namespace Pool

variable {α : Type} {capacity endSentinel : Nat}

/-! ## Calls and what they mean -/

inductive Call (α : Type) where
  | emplaceAnywhere (v : α)
  | emplace (idx : Nat) (v : α)
  | erase (idx : Nat)
  | clear

/-- The circumstances the calls are made in. -/
def Admits (p : Pool α capacity endSentinel) : Call α → Prop
  | .emplaceAnywhere _ => p.full = false
  | .emplace idx _ => idx < capacity
  | .erase idx => p.valid idx = true
  | .clear => True

instance (p : Pool α capacity endSentinel) (c : Call α) : Decidable (p.Admits c) :=
  match c with
  | .emplaceAnywhere _ => inferInstanceAs (Decidable (p.full = false))
  | .emplace idx _ => inferInstanceAs (Decidable (idx < capacity))
  | .erase idx => inferInstanceAs (Decidable (p.valid idx = true))
  | .clear => .isTrue trivial

def apply (p : Pool α capacity endSentinel) :
    Call α → Checked (Option Nat × Pool α capacity endSentinel)
  | .emplaceAnywhere v => do
      let (i, p) ← p.emplaceAnywhere v
      .ok (some i, p)
  | .emplace idx v => do
      let p ← p.emplace idx v
      .ok (none, p)
  | .erase idx => do
      let p ← p.erase idx
      .ok (none, p)
  | .clear => .ok (none, p.clear)

/-- The call on the finite map, given the index it returned. -/
def Call.meaning (m : Nat → Option α) : Call α → Option Nat → Nat → Option α
  | .emplaceAnywhere v, some i => storeAt m i (some v)
  | .emplaceAnywhere _, none => m
  | .emplace idx v, _ => storeAt m idx (some v)
  | .erase idx, _ => storeAt m idx none
  | .clear, _ => fun _ => none

/-- A pool beside the map of what should be in it. -/
structure Tracked (α : Type) (capacity endSentinel : Nat) where
  pool : Pool α capacity endSentinel
  contents : Nat → Option α

namespace Tracked

def step (s : Tracked α capacity endSentinel) (c : Call α) :
    Checked (Tracked α capacity endSentinel) := do
  let (r, p) ← s.pool.apply c
  .ok ⟨p, c.meaning s.contents r⟩

/-- `fixed_pool()`, in any storage. -/
def Constructed (s : Tracked α capacity endSentinel) : Prop :=
  (∃ storage : Pool α capacity endSentinel, s.pool = storage.clear) ∧ s.contents = fun _ => none

def Step (s s' : Tracked α capacity endSentinel) : Prop :=
  ∃ c, s.pool.Admits c ∧ s.step c = .ok s'

structure Agrees (s : Tracked α capacity endSentinel) : Prop where
  wf : s.pool.WF
  lookup : ∀ i, s.pool.lookup i = s.contents i

end Tracked

/-! ## One call -/

variable {p : Pool α capacity endSentinel} {s : Tracked α capacity endSentinel}

theorem apply_spec (h : p.WF) {c : Call α} (hc : p.Admits c) :
    ∃ r p', p.apply c = .ok (r, p') ∧ p'.WF ∧ ∀ j, p'.lookup j = c.meaning p.lookup r j := by
  cases c with
  | emplaceAnywhere v =>
    obtain ⟨i, p', hput, hwf, _, hlook⟩ := emplaceAnywhere_spec h hc v
    refine ⟨some i, p', ?_, hwf, hlook⟩
    show (p.emplaceAnywhere v >>= _) = _
    rw [hput, ok_bind]
  | emplace idx v =>
    obtain ⟨p', hput, hwf, hlook⟩ := emplace_spec h hc v
    refine ⟨none, p', ?_, hwf, hlook⟩
    show (p.emplace idx v >>= _) = _
    rw [hput, ok_bind]
  | erase idx =>
    obtain ⟨v, hv⟩ := (h.valid_iff_lookup idx).mp hc
    obtain ⟨p', hgone, hwf, hlook⟩ := erase_spec h hv
    refine ⟨none, p', ?_, hwf, hlook⟩
    show (p.erase idx >>= _) = _
    rw [hgone, ok_bind]
  | clear => exact ⟨none, p.clear, rfl, clear_wf p h.admitted, lookup_clear p⟩

theorem Tracked.Agrees.contents_eq (h : s.Agrees) : s.pool.lookup = s.contents := funext h.lookup

theorem Tracked.Agrees.step {s' : Tracked α capacity endSentinel} (h : s.Agrees)
    (hstep : Tracked.Step s s') : s'.Agrees := by
  obtain ⟨c, hc, hstep⟩ := hstep
  obtain ⟨r, p', happly, hwf, hlook⟩ := apply_spec h.wf hc
  unfold Tracked.step at hstep
  rw [happly, ok_bind] at hstep
  cases hstep
  refine ⟨hwf, ?_⟩
  intro i
  rw [hlook, h.contents_eq]

/-! ## Histories -/

theorem Tracked.reach_agrees (hadm : capacity ≤ endSentinel)
    (h : Reach Tracked.Constructed Tracked.Step s) : s.Agrees := by
  refine Reach.invariant ?_ ?_ h
  · intro s h0
    obtain ⟨⟨storage, hpool⟩, hcontents⟩ := h0
    refine ⟨?_, ?_⟩
    · rw [hpool]
      exact clear_wf storage hadm
    · intro i
      rw [hpool, hcontents, lookup_clear]
  · intro s s' _ hs hstep
    exact hs.step hstep

/-- What the readers of a pool return when its contents are the map `m`. -/
structure Reads (p : Pool α capacity endSentinel) (m : Nat → Option α) : Prop where
  /-- `valid` holds of the live indices. -/
  valid : ∀ i, p.valid i = true ↔ m i ≠ none
  /-- `operator []` returns the value stored last. -/
  get : ∀ i v, m i = some v → p.get i = .ok v
  size : p.size = {i | m i ≠ none}.ncard
  ascending : p.indices.Pairwise (· < ·)
  visited : ∀ i, i ∈ p.indices ↔ m i ≠ none

theorem WF.reads (h : p.WF) : p.Reads p.lookup := by
  have hlive : ∀ i, (∃ v, p.lookup i = some v) ↔ p.lookup i ≠ none :=
    fun i => Option.ne_none_iff_exists'.symm
  have hvisited : ∀ i, i ∈ p.indices ↔ p.lookup i ≠ none := fun i => h.mem_indices.trans (hlive i)
  refine ⟨fun i => (h.valid_iff_lookup i).trans (hlive i), fun i v => get_spec, ?_,
    pairwise_indices p, hvisited⟩
  have hset : {i | p.lookup i ≠ none} = (p.indices.toFinset : Set Nat) := by
    ext i
    rw [Set.mem_ofPred_eq, List.coe_toFinset, Set.mem_ofPred_eq, hvisited]
  rw [hset, Set.ncard_coe_finset,
    List.toFinset_card_of_nodup ((pairwise_indices p).imp Nat.ne_of_lt), h.length_indices]

theorem WF.get_congr {p' : Pool α capacity endSentinel} (h : p.WF) (h' : p'.WF) {j : Nat}
    (hlook : p'.lookup j = p.lookup j) : p'.get j = p.get j := by
  cases hv : p.lookup j with
  | some v => rw [get_spec hv, get_spec (hlook.trans hv)]
  | none =>
    have hdead : ∀ {q : Pool α capacity endSentinel}, q.WF → q.lookup j = none →
        q.get j = .error (.assertion "valid(idx)") := by
      intro q hq hnone
      have hinvalid : q.valid j = false := by
        rw [Bool.eq_false_iff, ne_eq, hq.valid_iff_lookup, hnone]
        simp
      simp only [Pool.get, hinvalid, check_false, error_bind]
    rw [hdead h hv, hdead h' (hlook.trans hv)]

/-- **`p2::fixed_pool` refines a finite map.** After every history the readers return what the
map says, every call made in its circumstances returns, and `emplace_anywhere` picks an index
that was not live, changes no other and stops only on a full pool. -/
theorem refines_map (hadm : capacity ≤ endSentinel) {s : Tracked α capacity endSentinel}
    (h : Reach Tracked.Constructed Tracked.Step s) :
    s.pool.Reads s.contents
      ∧ (∀ c, s.pool.Admits c → ∃ s', s.step c = .ok s')
      ∧ (∀ v i p', s.pool.emplaceAnywhere v = .ok (i, p') → s.contents i = none
          ∧ p'.get i = .ok v ∧ ∀ j, j ≠ i → p'.valid j = s.pool.valid j ∧ p'.get j = s.pool.get j)
      ∧ (∀ v e, s.pool.emplaceAnywhere v = .error e → s.pool.full = true) := by
  have hs := Tracked.reach_agrees hadm h
  refine ⟨?_, ?_, ?_, ?_⟩
  · rw [← hs.contents_eq]
    exact hs.wf.reads
  · intro c hc
    obtain ⟨r, p', happly, _⟩ := apply_spec hs.wf hc
    refine ⟨⟨p', c.meaning s.contents r⟩, ?_⟩
    unfold Tracked.step
    rw [happly, ok_bind]
  · intro v i p' hput
    obtain ⟨_, hwf, hfree, hlook⟩ := emplaceAnywhere_ok hs.wf hput
    refine ⟨by rw [← hs.lookup, hfree], get_spec (by rw [hlook, if_pos rfl]), ?_⟩
    intro j hj
    have hsame : p'.lookup j = s.pool.lookup j := by rw [hlook, if_neg hj]
    refine ⟨?_, hs.wf.get_congr hwf hsame⟩
    rw [Bool.eq_iff_iff, hwf.valid_iff_lookup, hs.wf.valid_iff_lookup, hsame]
  · intro v e hput
    by_contra hfull
    obtain ⟨i, p', hok, _⟩ := emplaceAnywhere_spec hs.wf (Bool.eq_false_iff.mpr hfull) v
    rw [hok] at hput
    cases hput

/-- A history in a pool of three: slot 2 first, then any slot (slot 1, the
last one freed on the way up), then slot 2 is given back. -/
theorem refines_map_gap :
    ∃ s : Tracked Nat 3 255, Reach Tracked.Constructed Tracked.Step s
      ∧ (s.contents 1 = some 5 ∧ s.contents 2 = none) ∧ s.pool.Reads s.contents := by
  have hrun : ((runGuarded (fun s => s.pool.Admits) Tracked.step
      [.emplace 2 7, .emplaceAnywhere 5, .erase 2]
      (⟨Pool.blank.clear, fun _ => none⟩ : Tracked Nat 3 255)).map
        fun s => (s.contents 1, s.contents 2)) = .ok (some 5, none) := by decide
  obtain ⟨s, hs, hcontents⟩ := map_ok.mp hrun
  have hreach : Reach Tracked.Constructed Tracked.Step s :=
    Reach.runGuarded (fun _ c _ _ hc hstep => ⟨c, hc, hstep⟩) (.init ⟨⟨Pool.blank, rfl⟩, rfl⟩) hs
  exact ⟨s, hreach, Prod.mk.inj hcontents, (refines_map (by decide) hreach).1⟩

end Pool

end Peos2.Support
