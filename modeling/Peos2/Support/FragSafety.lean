/-
  Support.FragSafety — how far `p2::frag_buffer` stays inside its two arrays, the storage
  of the bytes and the pool of holes.

  In the first of two runs of insertions the positions are arbitrary: the end of an
  addition is clamped to the storage, its start and the length of the copy are not. In
  the second the additions lie inside, and only the number of holes is at stake.

  After insertions at any position holes may overlap behind the storage, where no
  addition meets them. At the end additions inside are noted: the holes are the rest.

  Main results: `safe_iff_fits`, `returns_iff_roomy`.
-/
import Mathlib.Data.List.Perm.Lattice
import Peos2.Lib.Run
import Peos2.Support.FragBuffer

namespace Peos2.Support.FragBuffer

open Peos2.Lib List Span

variable {maxLen : Nat} {b b' : FragBuffer maxLen}

/-! ## Outcomes of an insertion at any position -/

/-- No byte went outside the storage, and the holes that are kept share no
position. A failed assertion stops the insertion before its copy. -/
def Safe : Checked (FragBuffer maxLen) → Prop
  | .ok b => b.holes.values.Pairwise fun s t => ∀ x, ¬ (s.Holds x ∧ t.Holds x)
  | .error (.assertion _) => True
  | .error _ => False

/-- The addition lies inside the storage, or meets no hole, or is stopped by a
full pool. -/
def Fits (b : FragBuffer maxLen) (startPos length : Int) : Prop :=
  startPos + length ≤ intMax ∧
    (startPos + length ≤ maxLen ∨
      b.holes.values.any (clamped maxLen startPos length).overlaps = false ∨
      b.crowded (clamped maxLen startPos length) = true)

instance (startPos length : Int) : Decidable (b.Fits startPos length) :=
  inferInstanceAs (Decidable (_ ∧ (_ ∨ _ ∨ _)))

/-- An insertion with arguments an `int` can hold, neither of them negative. -/
structure Request where
  startPos : Int
  data : Bytes
  length : Int
  start_nonneg : 0 ≤ startPos
  start_le : startPos ≤ intMax
  length_nonneg : 0 ≤ length
  length_le : length ≤ intMax

/-- `insert` of the request. -/
def serve (b : FragBuffer maxLen) (r : Request) : Checked (FragBuffer maxLen) :=
  b.insert r.startPos r.data r.length

def FittingRun : FragBuffer maxLen → Prop :=
  Reach (fun b => ∃ stale, new stale = .ok b)
    (fun b b' => ∃ r : Request, b.Fits r.startPos r.length ∧ b.serve r = .ok b')

theorem Tidy.safe (hb : b.Tidy) : Safe (.ok b) := by
  show b.holes.values.Pairwise fun s t => ∀ x, ¬ (s.Holds x ∧ t.Holds x)
  apply hb.separated.imp_of_mem
  intro s t hs ht hsep
  exact (separated_iff (hb.range s hs).2.1 (hb.range t ht).2.1).mp hsep

theorem Tidy.serve (hb : b.Tidy) {r : Request} (hfits : b.Fits r.startPos r.length) :
    b.serve r = .error (.assertion "_data_begin + idx < _data_end") ∨
      ∃ b', b.serve r = .ok b' ∧ b'.Tidy := by
  have hstart := r.start_nonneg
  have hlength := r.length_nonneg
  have hmax := r.length_le
  obtain ⟨hsum, hwhere⟩ := hfits
  unfold intMax at hsum hmax
  rcases insert_of_exclusive hb.wf r.data (hb.exclusive _) (show -2147483648 ≤ r.startPos + r.length by omega)
    (by omega) with ⟨_, hcall⟩ | ⟨hopen, _, hwf, hvalues, hcall⟩
  · exact .inl hcall
  right
  rcases hwhere with hin | hnone | hcrowd
  · -- inside the storage the clamp changes nothing
    have horder : (clamped maxLen r.startPos r.length).start
        ≤ (clamped maxLen r.startPos r.length).stop := by
      show r.startPos ≤ min (r.startPos + r.length) maxLen
      omega
    rw [copy_inside hstart hlength (by omega) hin, ok_bind] at hcall
    split at hcall
    · exact ⟨_, hcall, hb.carved horder hwf hvalues _⟩
    · exact ⟨_, hcall, hb.carved horder hwf hvalues _⟩
  · rw [if_neg (by simp [hnone])] at hcall
    rw [flatMap_carve_of_clear fun k hk => Bool.eq_false_iff.mpr
      (any_eq_false.mp hnone k hk)] at hvalues
    refine ⟨_, hcall, hwf, ?_, ?_⟩
    · exact hvalues.symm.pairwise hb.separated (fun h => Span.Separated.symm h)
    · intro k hk
      exact hb.range k (hvalues.mem_iff.mp hk)
  · rw [hopen] at hcrowd
    exact absurd hcrowd (by decide)

theorem FittingRun.tidy (hcap : maxLen / 40 ≤ 0xFFFF) (hb : FittingRun b) : b.Tidy := by
  refine Reach.invariant ?_ ?_ hb
  · rintro b ⟨stale, hnew⟩
    exact Tidy.of_reset hcap hnew
  · rintro b b' _ ih ⟨r, hfits, hcall⟩
    rcases ih.serve hfits with herror | ⟨b1, hok, htidy⟩
    · rw [hcall] at herror
      cases herror
    · rw [hcall] at hok
      cases hok
      exact htidy

theorem pieces_meet {a h : Hole} (hbad : a.stop < a.start) (hover : a.overlaps h = true) :
    ¬ (a.carve h).Pairwise fun s t => ∀ x, ¬ (s.Holds x ∧ t.Holds x) := by
  obtain ⟨hleft, hright⟩ := overlaps_iff.mp hover
  have hpieces : a.carve h = [⟨h.start, a.start⟩, ⟨a.stop, h.stop⟩] := by
    rw [carve_of_overlaps hover, cut, if_pos (Int.lt_trans hleft hbad),
      if_pos (Int.lt_trans hbad hright)]
    rfl
  rw [hpieces]
  intro hpair
  have hmeet := (pairwise_cons.mp hpair).1 ⟨a.stop, h.stop⟩ (by simp) a.stop
  apply hmeet
  exact ⟨⟨Int.le_of_lt hleft, hbad⟩, Int.le_refl _, Int.lt_trans hbad hright⟩

theorem Tidy.not_safe (hb : b.Tidy) {r : Request} (hnot : ¬ b.Fits r.startPos r.length) :
    ¬ Safe (b.serve r) := by
  have hstart := r.start_nonneg
  have hlength := r.length_nonneg
  by_cases hsum : r.startPos + r.length ≤ intMax
  · -- the addition reaches past the storage, meets a hole, and the pool has room
    have hthree : ¬ (r.startPos + r.length ≤ maxLen ∨
        b.holes.values.any (clamped maxLen r.startPos r.length).overlaps = false ∨
        b.crowded (clamped maxLen r.startPos r.length) = true) := fun hc => hnot ⟨hsum, hc⟩
    rw [not_or, not_or, Bool.not_eq_false] at hthree
    obtain ⟨_, hany, hroom⟩ := hthree
    unfold intMax at hsum
    rcases insert_of_exclusive hb.wf r.data (hb.exclusive _) (show -2147483648 ≤ r.startPos + r.length by omega)
      (by omega) with ⟨hcrowd, _⟩ | ⟨_, _, _, hvalues, hcall⟩
    · exact absurd hcrowd hroom
    rw [if_pos hany] at hcall
    unfold FragBuffer.serve
    rw [hcall]
    by_cases hzero : r.length = 0
    · -- nothing is copied, but the clamped end lies before the start
      have hcopy : copy b.data maxLen r.startPos r.data r.length = .ok fun i =>
          if r.startPos ≤ i ∧ i < r.startPos + ((unsigned r.length).toNat : Nat)
          then r.data (i - r.startPos).toNat else b.data i := by
        apply if_pos
        left
        rw [hzero]
        rfl
      rw [hcopy, ok_bind]
      intro hsafe
      have hpair := hvalues.pairwise hsafe fun hst x hx => hst x hx.symm
      obtain ⟨h, hmem, hover⟩ := any_eq_true.mp hany
      apply pieces_meet (a := clamped maxLen r.startPos r.length) ?_ hover
      · exact (pairwise_flatMap.mp hpair).1 h hmem
      · show min (r.startPos + r.length) maxLen < r.startPos
        omega
    · rw [copy_outside (by omega) (by omega) (by omega)]
      exact fun hsafe => hsafe
  · have hcall : b.serve r = .error .overflow := by
      unfold FragBuffer.serve insert Queue.addInt
      unfold intMax at hsum
      rw [if_neg (by omega), error_bind]
    rw [hcall]
    exact fun hsafe => hsafe

/-- **An insertion stays inside the storage and keeps the holes disjoint exactly
when it fits.** -/
theorem safe_iff_fits (hcap : maxLen / 40 ≤ 0xFFFF) (hb : FittingRun b) (r : Request) :
    Safe (b.serve r) ↔ b.Fits r.startPos r.length := by
  have htidy := hb.tidy hcap
  constructor
  · intro hsafe
    by_contra hnot
    exact htidy.not_safe hnot hsafe
  · intro hfits
    rcases htidy.serve hfits with herror | ⟨b', hok, htidy'⟩
    · rw [herror]
      exact trivial
    · rw [hok]
      exact htidy'.safe

theorem fresh_returns : ∃ b : FragBuffer 10000, (new fun _ => 0) = .ok b :=
  reset_returns _ (by decide) (by decide)

def lastRequest : Request := ⟨9992, fun _ => 0, 8, by decide, by decide, by decide, by decide⟩

theorem safe_lastRequest : ∃ b : FragBuffer 10000, FittingRun b ∧ Safe (b.serve lastRequest) := by
  obtain ⟨b, hnew⟩ := fresh_returns
  have hrun : FittingRun b := Reach.init ⟨_, hnew⟩
  exact ⟨b, hrun, (safe_iff_fits (by decide) hrun lastRequest).mpr ⟨by decide, .inl (by decide)⟩⟩

def crossingRequest : Request := ⟨9992, fun _ => 0, 16, by decide, by decide, by decide, by decide⟩

theorem crossing_outOfBounds : ∃ b : FragBuffer 10000, FittingRun b ∧
    b.serve crossingRequest = .error .outOfBounds := by
  obtain ⟨b, hnew⟩ := fresh_returns
  refine ⟨b, Reach.init ⟨_, hnew⟩, ?_⟩
  have hrun : ((new fun _ => 0) >>= fun b : FragBuffer 10000 => b.serve crossingRequest)
      = .error .outOfBounds := by
    rfl
  rw [hnew, ok_bind] at hrun
  exact hrun

/-! ## Insertions inside the storage -/

/-- The buffers of 10000 bytes that insertions inside the storage can lead to. -/
def InsideRun : FragBuffer 10000 → Prop :=
  Reach (fun b => ∃ stale, new stale = .ok b)
    (fun b b' => ∃ (startPos : Int) (data : Bytes) (length : Int), 0 ≤ startPos ∧ 1 ≤ length ∧
      startPos + length ≤ 10000 ∧ b.insert startPos data length = .ok b')

/-- There is a free slot, or no hole goes on at both sides of the addition. -/
def Roomy (b : FragBuffer 10000) (startPos length : Int) : Prop :=
  b.holes.size < 250 ∨
    ∀ h ∈ b.holes.values, ¬ (h.start < startPos ∧ startPos + length < h.stop)

variable {length startPos : Int} {s t : Hole}

theorem crowded_eq_false_iff {b : FragBuffer 10000} (hlen : 1 ≤ length)
    (hin : startPos + length ≤ 10000) :
    b.crowded (clamped 10000 startPos length) = false ↔ b.Roomy startPos length := by
  have hclamp : clamped 10000 startPos length = ⟨startPos, startPos + length⟩ := clamped_inside hin
  have hsplit : ∀ h : Hole, (clamped 10000 startPos length).splits h = true ↔
      h.start < startPos ∧ startPos + length < h.stop := by
    intro h
    rw [hclamp, splits_iff, overlaps_iff]
    show (h.start < startPos + length ∧ startPos < h.stop) ∧ h.start < startPos ∧
      startPos + length < h.stop ↔ _
    omega
  unfold crowded Roomy
  rw [Bool.and_eq_false_iff, decide_eq_false_iff_not, any_eq_false]
  simp only [hsplit]
  exact or_congr_left Nat.not_le

theorem Tidy.inside {b : FragBuffer 10000} (hb : b.Tidy) (data : Bytes) (h0 : 0 ≤ startPos)
    (hlen : 1 ≤ length) (hin : startPos + length ≤ 10000) :
    (¬ b.Roomy startPos length ∧ b.insert startPos data length
        = .error (.assertion "_data_begin + idx < _data_end")) ∨
    (b.Roomy startPos length ∧ ∃ b', b.insert startPos data length = .ok b' ∧ b'.Tidy ∧
      b'.holes.values.Perm
        (b.holes.values.flatMap (Span.carve ⟨startPos, startPos + length⟩))) := by
  have hclamp : clamped 10000 startPos length = ⟨startPos, startPos + length⟩ := clamped_inside hin
  have hroomy := crowded_eq_false_iff (b := b) hlen hin
  rcases insert_of_exclusive hb.wf data (hb.exclusive _) (show -2147483648 ≤ startPos + length by omega) (by omega)
    with ⟨hcrowd, hcall⟩ | ⟨hopen, _, hwf, hvalues, hcall⟩
  · left
    refine ⟨?_, hcall⟩
    rw [← hroomy, hcrowd]
    decide
  right
  refine ⟨hroomy.mp hopen, ?_⟩
  have horder : (clamped 10000 startPos length).start ≤ (clamped 10000 startPos length).stop := by
    rw [hclamp]
    show startPos ≤ startPos + length
    omega
  rw [copy_inside h0 (by omega) (by omega) hin, ok_bind] at hcall
  split at hcall
  · exact ⟨_, hcall, hb.carved horder hwf hvalues _, hclamp ▸ hvalues⟩
  · exact ⟨_, hcall, hb.carved horder hwf hvalues _, hclamp ▸ hvalues⟩

theorem InsideRun.tidy {b : FragBuffer 10000} (hb : InsideRun b) : b.Tidy := by
  refine Reach.invariant ?_ ?_ hb
  · rintro b ⟨stale, hnew⟩
    exact Tidy.of_reset (by decide) hnew
  · rintro b b' _ ih ⟨startPos, data, length, h0, hlen, hin, hcall⟩
    rcases ih.inside data h0 hlen hin with ⟨_, herror⟩ | ⟨_, b1, hok, htidy, _⟩
    · rw [hcall] at herror
      cases herror
    · rw [hcall] at hok
      cases hok
      exact htidy

/-- **Inside the storage an insertion returns exactly when a full pool has no
hole to be split.** -/
theorem returns_iff_roomy {b : FragBuffer 10000} (hb : InsideRun b) {startPos length : Int}
    (data : Bytes) (h0 : 0 ≤ startPos) (hlen : 1 ≤ length) (hin : startPos + length ≤ 10000) :
    (∃ b', b.insert startPos data length = .ok b' ∧ b'.holes.size ≤ 250) ↔
      b.Roomy startPos length := by
  rcases hb.tidy.inside data h0 hlen hin with ⟨hnot, herror⟩ | ⟨hroomy, b', hok, htidy, _⟩
  · rw [herror]
    constructor
    · rintro ⟨b', hcall, _⟩
      cases hcall
    · exact fun hroomy => absurd hroomy hnot
  · exact ⟨fun _ => hroomy, fun _ => ⟨b', hok, htidy.wf.size_le⟩⟩

/-- Single bytes at the first `k` odd positions. -/
def oddInserts : Nat → Checked (FragBuffer 10000)
  | 0 => new fun _ => 0
  | k + 1 => oddInserts k >>= fun b => b.insert (2 * k + 1) (fun _ => 0) 1

theorem oddInserts_ok (k : Nat) (hk : k ≤ 249) : ∃ b, oddInserts k = .ok b ∧ InsideRun b ∧
    b.holes.size = k + 1 ∧ (⟨2 * k, intMax⟩ : Hole) ∈ b.holes.values := by
  induction k with
  | zero =>
    obtain ⟨b, hnew⟩ := fresh_returns
    obtain ⟨hwf, hvalues, _⟩ := reset_ok (by decide) hnew
    refine ⟨b, hnew, Reach.init ⟨_, hnew⟩, ?_, ?_⟩
    · rw [← hwf.length_values, hvalues]
      rfl
    · rw [hvalues]
      simp
  | succ k ih =>
    obtain ⟨b, hrun, hreach, _, hmem⟩ := ih (by omega)
    have hstart : (0 : Int) ≤ 2 * k + 1 := by omega
    have hend : (2 * k + 1 : Int) + 1 ≤ 10000 := by omega
    rcases hreach.tidy.inside (fun _ => 0) hstart (Int.le_refl 1) hend
      with ⟨hnot, _⟩ | ⟨_, b', hcall, htidy', hvalues⟩
    · exact absurd (.inl (by omega)) hnot
    -- the endless hole is split, and no other hole is met
    have hsplit : splits (⟨2 * k + 1, 2 * k + 1 + 1⟩ : Hole) ⟨2 * k, intMax⟩ = true := by
      rw [splits_iff, overlaps_iff]
      unfold intMax
      simp only
      omega
    obtain ⟨rest, hold, hnew⟩ := carve_inner hreach.tidy.separated hmem hsplit
    have hall := hvalues.trans hnew
    refine ⟨b', ?_, Reach.step hreach ⟨_, _, _, hstart, Int.le_refl 1, hend, hcall⟩, ?_, ?_⟩
    · rw [oddInserts, hrun, ok_bind]
      exact hcall
    · have hlen := hold.length_eq
      have hlen' := hall.length_eq
      rw [hreach.tidy.wf.length_values, length_cons] at hlen
      rw [htidy'.wf.length_values, length_cons, length_cons] at hlen'
      omega
    · rw [hall.mem_iff]
      have hlast : 2 * ((k + 1 : Nat) : Int) = 2 * k + 1 + 1 := by omega
      rw [hlast]
      simp

/-- With all 250 holes in use, bytes at the start still go in: they split none. -/
theorem returns_crowded : ∃ b : FragBuffer 10000, InsideRun b ∧ b.holes.size = 250 ∧
    ∃ b', b.insert 0 (fun _ => 7) 8 = .ok b' ∧ b'.holes.size ≤ 250 := by
  obtain ⟨b, _, hrun, hsize, _⟩ := oddInserts_ok 249 (by decide)
  refine ⟨b, hrun, hsize, (returns_iff_roomy hrun _ (by decide) (by decide) (by decide)).mpr ?_⟩
  refine .inr fun h hh hc => ?_
  have hnonneg := (hrun.tidy.range h hh).1
  omega

/-- **The pool of holes runs out**: the 250th byte at an odd position stops on
the assertion of the pool. -/
theorem oddInserts_exhausts : ∃ b, oddInserts 249 = .ok b ∧ InsideRun b ∧
    b.insert 499 (fun _ => 0) 1 = .error (.assertion "_data_begin + idx < _data_end") := by
  obtain ⟨b, hrun, hreach, _, hmem⟩ := oddInserts_ok 249 (Nat.le_refl _)
  refine ⟨b, hrun, hreach, ?_⟩
  rcases hreach.tidy.inside (fun _ => 0) (show (0 : Int) ≤ 499 by decide) (Int.le_refl 1)
    (by decide) with ⟨_, herror⟩ | ⟨hroomy, _⟩
  · exact herror
  · rcases hroomy with _ | hnone
    · omega
    · exact absurd (by decide) (hnone _ hmem)

/-! ## Insertions at any position -/

/-- Two holes that begin inside the storage have no position in common. -/
def SeparatedWithin (maxLen : Nat) (s t : Hole) : Prop :=
  s.start < (maxLen : Int) → t.start < (maxLen : Int) → Span.Separated s t

/-- The holes that begin inside the storage are separated. An addition ends
inside the storage, so the other holes are never met. -/
structure Orderly (b : FragBuffer maxLen) : Prop where
  wf : b.holes.WF
  separated : b.holes.values.Pairwise (SeparatedWithin maxLen)

/-- The pool has a slot for the hole that is split, and bytes that are copied stay
inside the storage. -/
def Admits (b : FragBuffer maxLen) (startPos length : Int) : Prop :=
  b.crowded (clamped maxLen startPos length) = false ∧
    (b.holes.values.any (clamped maxLen startPos length).overlaps = true →
      length = 0 ∨ startPos + length ≤ maxLen)

theorem SeparatedWithin.symm (h : SeparatedWithin maxLen s t) :
    SeparatedWithin maxLen t s := fun ht hs => (h hs ht).symm

theorem SeparatedWithin.mono {s' t' : Hole} (h : SeparatedWithin maxLen s t)
    (hs : s.start ≤ s'.start ∧ s'.stop ≤ s.stop) (ht : t.start ≤ t'.start ∧ t'.stop ≤ t.stop) :
    SeparatedWithin maxLen s' t' := fun hs' ht' =>
  (h (Int.lt_of_le_of_lt hs.1 hs') (Int.lt_of_le_of_lt ht.1 ht')).mono hs ht

theorem start_lt_of_overlaps {h : Hole}
    (hover : (clamped maxLen startPos length).overlaps h = true) : h.start < (maxLen : Int) := by
  have hbefore : h.start < min (startPos + length) (maxLen : Int) := (overlaps_iff.mp hover).1
  omega

theorem SeparatedWithin.not_overlaps (h : SeparatedWithin maxLen s t)
    (hsplit : (clamped maxLen startPos length).splits s = true) :
    (clamped maxLen startPos length).overlaps t = false := by
  by_contra hover
  rw [Bool.not_eq_false] at hover
  have hs := start_lt_of_overlaps (splits_iff.mp hsplit).1
  have hno := (h hs (start_lt_of_overlaps hover)).not_overlaps hsplit
  rw [hover] at hno
  cases hno

theorem Orderly.exclusive (hb : b.Orderly) (startPos length : Int) :
    b.holes.values.Pairwise (Exclusive (clamped maxLen startPos length)) :=
  hb.separated.imp fun hsep =>
    ⟨fun hsplit => hsep.not_overlaps hsplit, fun hsplit => hsep.symm.not_overlaps hsplit⟩

/-- The position lies in one of the ranges. -/
def Covered (ranges : List Hole) (x : Int) : Prop := ∃ r ∈ ranges, r.Holds x

/-- A range of `message` is inserted, and noted. -/
def Fills (message : Bytes) (p p' : FragBuffer maxLen × List Hole) : Prop :=
  ∃ (r : Hole) (data : Bytes), (0 ≤ r.start ∧ r.start < r.stop ∧ r.stop ≤ maxLen) ∧
    (∀ i : Nat, r.Holds i → data (i - r.start).toNat = message i) ∧
    p.1.insert r.start data (r.stop - r.start) = .ok p'.1 ∧ p'.2 = r :: p.2

def FillRun (message : Bytes) : FragBuffer maxLen × List Hole → Prop :=
  Reach (fun p => (∃ stale, new stale = .ok p.1) ∧ p.2 = []) (Fills message)

/-- The holes are what the ranges leave, and elsewhere there is the message. -/
structure Covers (message : Bytes) (p : FragBuffer maxLen × List Hole) : Prop where
  neat : p.1.Neat
  filled : ∀ x, p.1.Filled x ↔ ¬ (0 ≤ x ∧ x < intMax) ∨ Covered p.2 x
  inside : ∀ x, Covered p.2 x → 0 ≤ x ∧ x < maxLen
  bytes : ∀ i : Nat, Covered p.2 i → p.1.data i = message i

variable {message : Bytes} {p p' : FragBuffer maxLen × List Hole}

theorem covered_cons {r : Hole} {ranges : List Hole} {x : Int} :
    Covered (r :: ranges) x ↔ r.Holds x ∨ Covered ranges x := by
  simp [Covered]

theorem Covers.fills (h : Covers message p) (hmax : maxLen < 2147483648)
    (hstep : Fills message p p') : Covers message p' := by
  obtain ⟨b, ranges⟩ := p
  obtain ⟨b', _⟩ := p'
  obtain ⟨hneat, hfilled, hinside, hbytes⟩ := h
  obtain ⟨r, data, ⟨h0, hpos, hin⟩, hdata, hcall, rfl⟩ := hstep
  have hstop : r.start + (r.stop - r.start) = r.stop := by omega
  have hroom : b.crowded ⟨r.start, r.start + (r.stop - r.start)⟩ = false := by
    rcases insert_of_exclusive hneat.wf data (hneat.tidy.exclusive _)
      (show -2147483648 ≤ r.start + (r.stop - r.start) by omega) (by omega)
      with ⟨_, herror⟩ | ⟨hroom, _⟩
    · rw [herror] at hcall
      cases hcall
    · rwa [clamped_inside (by omega)] at hroom
  obtain ⟨_, hcall', hneat', _, hfilled', hold, hnew⟩ :=
    hneat.insert data hmax h0 (by omega) (by omega) hroom
  cases hcall.symm.trans hcall'
  rw [hstop] at hfilled' hold hnew
  refine ⟨hneat', ?_, ?_, ?_⟩
  · intro x
    rw [hfilled', hfilled, covered_cons, or_assoc, or_comm (a := r.Holds x)]
    rfl
  · intro x hx
    rcases covered_cons.mp hx with hr | hx
    · exact ⟨by have := hr.1; omega, by have := hr.2; omega⟩
    · exact hinside x hx
  · intro i hi
    by_cases hcov : Covered ranges i
    · -- a byte that was there is kept or written again
      rcases hold i with hsame | ⟨h1, h2, hwritten⟩
      · rw [hsame, hbytes i hcov]
      · rw [hwritten, hdata i ⟨h1, h2⟩]
    · have hr : r.Holds i := (covered_cons.mp hi).resolve_right hcov
      rw [hnew i hr.1 hr.2 ?_, hdata i hr]
      rw [hfilled]
      rintro (hout | hc)
      · apply hout
        have := hr.2
        unfold intMax
        omega
      · exact hcov hc

theorem Covers.holes (h : Covers message p) {x : Int} :
    (∃ k ∈ p.1.holes.values, k.Holds x) ↔ (0 ≤ x ∧ x < intMax) ∧ ¬ Covered p.2 x := by
  rw [← not_filled, h.filled, not_or, not_not]

theorem Covers.initial_iff (h : Covers message p) (hmax : maxLen < 2147483647) {n : Int}
    (hn : 0 < n) :
    (∀ x, Covered p.2 x ↔ 0 ≤ x ∧ x < n) ↔ p.1.holes.values = [⟨n, intMax⟩] := by
  constructor
  · intro hall
    have hlast := (h.inside (n - 1) ((hall _).mpr (by omega))).2
    refine eq_singleton_of_fill h.neat.apart (fun k hk => (h.neat.range k hk).2.1)
      (show n < 2147483647 by omega) fun x => ?_
    rw [h.holes, hall]
    omega
  · intro hvalues x
    have hlt : n < intMax := (h.neat.range ⟨n, intMax⟩ (by simp [hvalues])).2.1
    have hpoint := h.holes (x := x)
    rw [hvalues] at hpoint
    simp only [mem_singleton, exists_eq_left] at hpoint
    have hpoint : (n ≤ x ∧ x < intMax) ↔ _ := hpoint
    constructor
    · intro hx
      have hin := h.inside x hx
      unfold intMax at hpoint
      by_contra hc
      exact (hpoint.mp (by omega)).2 hx
    · intro hx
      by_contra hc
      have := (hpoint.mpr ⟨by omega, hc⟩).1
      omega

/-- **Coverage is tracked exactly**: after any insertions inside the storage that return, the
holes are apart and leave out what was inserted, where the bytes are those of the message;
`continuous_size` is the length of what was inserted if that is one piece from 0 on. -/
theorem coverage_exact (hcap : maxLen / 40 ≤ 0xFFFF) (hmax : maxLen < 2147483647)
    (hrun : FillRun message p) :
    (p.1.holes.values.Pairwise Apart ∧ ∀ k ∈ p.1.holes.values, k.start < k.stop) ∧
    (∀ x, (∃ k ∈ p.1.holes.values, k.Holds x) ↔ (0 ≤ x ∧ x < intMax) ∧ ¬ Covered p.2 x) ∧
    (∀ i : Nat, Covered p.2 i → p.1.data i = message i) ∧
    ∃ c, p.1.continuousSize = .ok c ∧ 0 ≤ c ∧
      ∀ n, 0 < n → (c = n ↔ ∀ x, Covered p.2 x ↔ 0 ≤ x ∧ x < n) := by
  have h : Covers message p := by
    refine @Reach.invariant _ _ _ (Covers message) ?_ ?_ p hrun
    · rintro ⟨b, _⟩ ⟨⟨stale, hnew⟩, rfl⟩
      refine ⟨Neat.of_new hcap hnew, fun x => ?_, ?_, ?_⟩
      · simp [filled_of_new hcap hnew, Covered]
      · rintro x ⟨_, hr, _⟩
        cases hr
      · rintro i ⟨_, hr, _⟩
        cases hr
    · exact fun p p' _ h hstep => h.fills (by omega) hstep
  refine ⟨⟨h.neat.apart, fun k hk => (h.neat.range k hk).2.1⟩, fun x => h.holes, h.bytes, ?_⟩
  rcases continuousSize_spec h.neat.wf with ⟨k, hvalues, hsize⟩ | ⟨hmany, hsize⟩
  · -- the one hole goes on to the end of the positions
    obtain ⟨hk0, hklt, hkmax⟩ := h.neat.range k (by simp [hvalues])
    obtain ⟨j, hj, hlast⟩ := h.holes.mpr ⟨show 0 ≤ intMax - 1 ∧ _ by decide, fun hc =>
      absurd (h.inside _ hc).2 (by unfold intMax; omega)⟩
    rw [hvalues, mem_singleton] at hj
    have hstop : k.stop = intMax := by
      have := hj ▸ hlast.2
      omega
    refine ⟨k.start, hsize, hk0, fun n hn => ?_⟩
    rw [h.initial_iff hmax hn, hvalues, ← hstop, singleton_inj]
    constructor
    · rintro rfl
      rfl
    · intro heq
      rw [heq]
  · refine ⟨0, hsize, le_refl 0, fun n hn => ?_⟩
    rw [h.initial_iff hmax hn]
    refine ⟨by omega, fun hvalues => absurd ?_ hmany⟩
    rw [hvalues]
    rfl

/-- Eight bytes behind a gap of forty, and then the gap. -/
theorem coverage_exact_two : ∃ p : FragBuffer 10000 × List Hole, p.2 = [⟨0, 40⟩, ⟨40, 48⟩] ∧
    p.1.continuousSize = .ok 48 ∧ ∀ i : Nat, i < 48 → p.1.data i = UInt8.ofNat i := by
  have hcalls : ((new fun _ => 0 : Checked (FragBuffer 10000)) >>= fun b =>
      b.insert 40 (fun i => UInt8.ofNat (i + 40)) 8 >>= fun b =>
        (b.insert 0 UInt8.ofNat 40).map fun _ => ()) = .ok () := by
    decide +kernel
  obtain ⟨b, hnew, hcalls⟩ := bind_ok.mp hcalls
  obtain ⟨b₁, hcall₁, hcalls⟩ := bind_ok.mp hcalls
  obtain ⟨b₂, hcall₂, _⟩ := map_ok.mp hcalls
  have hfirst : FillRun UInt8.ofNat (b₁, [⟨40, 48⟩]) := by
    refine (Reach.init (s := (b, [])) ⟨⟨_, hnew⟩, rfl⟩).step
      ⟨⟨40, 48⟩, fun i => UInt8.ofNat (i + 40), by decide, fun i hi => ?_, hcall₁, rfl⟩
    have hlow : (40 : Int) ≤ i := hi.1
    show UInt8.ofNat (((i : Int) - 40).toNat + 40) = UInt8.ofNat i
    congr 1
    omega
  have hrun : FillRun UInt8.ofNat (b₂, [⟨0, 40⟩, ⟨40, 48⟩]) :=
    hfirst.step ⟨⟨0, 40⟩, UInt8.ofNat, by decide, fun i _ => by simp, hcall₂, rfl⟩
  have hall : ∀ x, Covered [⟨0, 40⟩, ⟨40, 48⟩] x ↔ 0 ≤ x ∧ x < 48 := by
    intro x
    simp only [Covered, Span.Holds, mem_cons, not_mem_nil, or_false, exists_eq_or_imp,
      exists_eq_left]
    omega
  obtain ⟨_, _, hbytes, c, hc, _, hsize⟩ := coverage_exact (by decide) (by decide) hrun
  refine ⟨_, rfl, ?_, fun i hi => hbytes i ((hall i).mpr (by omega))⟩
  rw [hc, (hsize 48 (by decide)).mpr hall]

end Peos2.Support.FragBuffer
