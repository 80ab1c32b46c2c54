/-
  Lib.Interval — half-open intervals and what is left of them.

  Cutting an interval out of another one leaves a piece on the left, a piece
  on the right, both or neither. Carving an interval out of a list of
  intervals does this to every member that overlaps it.
-/
import Mathlib.Data.List.Pairwise
import Mathlib.Order.Lattice

namespace Peos2.Lib

/-- The interval from `start` up to, and without, `stop`. -/
@[ext]
structure Span (α : Type) where
  start : α
  stop : α
  deriving Repr, DecidableEq

namespace Span

variable {α : Type} [LinearOrder α]

/-- `x` lies in the interval. -/
def Holds (s : Span α) (x : α) : Prop := s.start ≤ x ∧ x < s.stop

/-- The test that two intervals have a point in common, for intervals that have
points. -/
def overlaps (a h : Span α) : Bool := decide (h.start < a.stop ∧ h.stop > a.start)

variable {a h k s t : Span α} {l : List (Span α)}

theorem overlaps_iff : a.overlaps h = true ↔ h.start < a.stop ∧ a.start < h.stop := by
  unfold overlaps
  rw [decide_eq_true_eq]

/-- What is left of `h` beside `a`. -/
def cut (a h : Span α) : List (Span α) :=
  (if h.start < a.start then [⟨h.start, a.start⟩] else [])
    ++ (if a.stop < h.stop then [⟨a.stop, h.stop⟩] else [])

/-- What is left of `h` when `a` is taken out. -/
def carve (a h : Span α) : List (Span α) := if a.overlaps h then a.cut h else [h]

/-- `h` goes on at both sides of `a`. -/
def splits (a h : Span α) : Bool :=
  a.overlaps h && decide (h.start < a.start) && decide (a.stop < h.stop)

theorem splits_iff :
    a.splits h = true ↔ a.overlaps h = true ∧ h.start < a.start ∧ a.stop < h.stop := by
  unfold splits
  rw [Bool.and_eq_true, Bool.and_eq_true, decide_eq_true_eq, decide_eq_true_eq, and_assoc]

/-! ## The pieces -/

theorem mem_cut : k ∈ a.cut h ↔
    (h.start < a.start ∧ k = ⟨h.start, a.start⟩) ∨ (a.stop < h.stop ∧ k = ⟨a.stop, h.stop⟩) := by
  have hif {p : Prop} [Decidable p] {s : Span α} : k ∈ (if p then [s] else []) ↔ p ∧ k = s := by
    by_cases hp : p
    · rw [if_pos hp, List.mem_singleton]
      exact (and_iff_right hp).symm
    · rw [if_neg hp]
      exact iff_of_false List.not_mem_nil (fun hc => hp hc.1)
  unfold cut
  rw [List.mem_append, hif, hif]

theorem not_overlaps_cut (hk : k ∈ a.cut h) : a.overlaps k = false := by
  rw [Bool.eq_false_iff, ne_eq, overlaps_iff]
  rintro ⟨hleft, hright⟩
  rcases mem_cut.mp hk with ⟨_, rfl⟩ | ⟨_, rfl⟩
  · exact absurd hright (lt_irrefl _)
  · exact absurd hleft (lt_irrefl _)

theorem carve_of_not_overlaps (hno : a.overlaps h = false) : a.carve h = [h] := by
  rw [carve, if_neg (by simp [hno])]

theorem carve_of_overlaps (hover : a.overlaps h = true) : a.carve h = a.cut h := by
  rw [carve, if_pos hover]

theorem carve_inside (hk : k ∈ a.carve h) : h.start ≤ k.start ∧ k.stop ≤ h.stop := by
  unfold carve at hk
  split at hk
  next hover =>
    obtain ⟨hleft, hright⟩ := overlaps_iff.mp hover
    rcases mem_cut.mp hk with ⟨_, rfl⟩ | ⟨_, rfl⟩
    · exact ⟨le_refl _, le_of_lt hright⟩
    · exact ⟨le_of_lt hleft, le_refl _⟩
  · rw [List.mem_singleton] at hk
    subst hk
    exact ⟨le_refl _, le_refl _⟩

theorem carve_nonempty (hh : h.start < h.stop) (hk : k ∈ a.carve h) : k.start < k.stop := by
  unfold carve at hk
  split at hk
  · rcases mem_cut.mp hk with ⟨hleft, rfl⟩ | ⟨hright, rfl⟩
    · exact hleft
    · exact hright
  · rw [List.mem_singleton] at hk
    subst hk
    exact hh

theorem mem_carve {x : α} : (∃ k ∈ a.carve h, k.Holds x) ↔ h.Holds x ∧ ¬ a.Holds x := by
  cases hover : a.overlaps h with
  | false =>
    rw [carve_of_not_overlaps hover]
    rw [Bool.eq_false_iff, ne_eq, overlaps_iff, not_and_or, not_lt, not_lt] at hover
    simp only [List.mem_singleton, exists_eq_left]
    constructor
    · intro hx
      refine ⟨hx, ?_⟩
      rintro ⟨hax, hxa⟩
      rcases hover with hbefore | hafter
      · exact absurd (lt_of_le_of_lt hx.1 hxa) (not_lt.mpr hbefore)
      · exact absurd (lt_of_le_of_lt hax hx.2) (not_lt.mpr hafter)
    · exact And.left
  | true =>
    rw [carve_of_overlaps hover]
    obtain ⟨hleft, hright⟩ := overlaps_iff.mp hover
    constructor
    · rintro ⟨k, hk, hkx⟩
      rcases mem_cut.mp hk with ⟨_, rfl⟩ | ⟨_, rfl⟩
      · exact ⟨⟨hkx.1, lt_trans hkx.2 hright⟩, fun hax => absurd hkx.2 (not_lt.mpr hax.1)⟩
      · refine ⟨⟨le_trans (le_of_lt hleft) hkx.1, hkx.2⟩, ?_⟩
        exact fun hax => absurd hax.2 (not_lt.mpr hkx.1)
    · rintro ⟨⟨hhx, hxh⟩, hax⟩
      rcases lt_or_ge x a.start with hbefore | hnot
      · exact ⟨_, mem_cut.mpr (.inl ⟨lt_of_le_of_lt hhx hbefore, rfl⟩), hhx, hbefore⟩
      · have hafter : a.stop ≤ x := not_lt.mp fun hlt => hax ⟨hnot, hlt⟩
        exact ⟨_, mem_cut.mpr (.inr ⟨lt_of_le_of_lt hafter hxh, rfl⟩), hafter, hxh⟩

theorem mem_flatMap_carve {x : α} :
    (∃ k ∈ l.flatMap a.carve, k.Holds x) ↔ (∃ h ∈ l, h.Holds x) ∧ ¬ a.Holds x := by
  constructor
  · rintro ⟨k, hk, hkx⟩
    obtain ⟨h, hh, hpiece⟩ := List.mem_flatMap.mp hk
    obtain ⟨hhx, hax⟩ := mem_carve.mp ⟨k, hpiece, hkx⟩
    exact ⟨⟨h, hh, hhx⟩, hax⟩
  · rintro ⟨⟨h, hh, hhx⟩, hax⟩
    obtain ⟨k, hpiece, hkx⟩ := mem_carve.mpr ⟨hhx, hax⟩
    exact ⟨k, List.mem_flatMap.mpr ⟨h, hh, hpiece⟩, hkx⟩

theorem length_cut (hover : a.overlaps h = true) :
    (a.cut h).length ≤ 1 + (if a.splits h then 1 else 0) ∧
      (a.splits h = true → (a.cut h).length = 2) := by
  unfold cut
  by_cases hl : h.start < a.start
  · by_cases hr : a.stop < h.stop
    · have hsplit : a.splits h = true := splits_iff.mpr ⟨hover, hl, hr⟩
      simp [hl, hr, hsplit]
    · have hsplit : a.splits h = false := by
        rw [Bool.eq_false_iff, ne_eq, splits_iff]
        exact fun hc => hr hc.2.2
      simp [hl, hr, hsplit]
  have hsplit : a.splits h = false := by
    rw [Bool.eq_false_iff, ne_eq, splits_iff]
    exact fun hc => hl hc.2.1
  by_cases hr : a.stop < h.stop
  · simp [hl, hr, hsplit]
  · simp [hl, hr, hsplit]

theorem length_carve_le (a : Span α) (l : List (Span α)) :
    (l.flatMap a.carve).length ≤ l.length + l.countP a.splits := by
  induction l with
  | nil => exact Nat.le_refl _
  | cons h l ih =>
    rw [List.flatMap_cons, List.length_append, List.length_cons, List.countP_cons]
    cases hover : a.overlaps h with
    | false =>
      rw [carve_of_not_overlaps hover, List.length_singleton]
      omega
    | true =>
      have hpieces := (length_cut hover).1
      rw [carve_of_overlaps hover]
      omega

/-! ## Separation -/

/-- One interval ends before the other begins. -/
def Separated (s t : Span α) : Prop := s.stop ≤ t.start ∨ t.stop ≤ s.start

theorem Separated.symm (h : Separated s t) : Separated t s := Or.symm h

theorem separated_iff (hs : s.start < s.stop) (ht : t.start < t.stop) :
    Separated s t ↔ ∀ x, ¬ (s.Holds x ∧ t.Holds x) := by
  unfold Separated Holds
  constructor
  · rintro (hbefore | hafter) x ⟨hsx, htx⟩
    · exact absurd (lt_of_lt_of_le hsx.2 (le_trans hbefore htx.1)) (lt_irrefl _)
    · exact absurd (lt_of_lt_of_le htx.2 (le_trans hafter hsx.1)) (lt_irrefl _)
  · intro h
    by_contra hnot
    rw [not_or, not_le, not_le] at hnot
    -- the later of the two beginnings lies in both
    rcases le_total s.start t.start with hle | hle
    · exact h t.start ⟨⟨hle, hnot.1⟩, le_refl _, ht⟩
    · exact h s.start ⟨⟨le_refl _, hs⟩, hle, hnot.2⟩

theorem Separated.mono {s' t' : Span α} (h : Separated s t)
    (hs : s.start ≤ s'.start ∧ s'.stop ≤ s.stop) (ht : t.start ≤ t'.start ∧ t'.stop ≤ t.stop) :
    Separated s' t' := by
  rcases h with hbefore | hafter
  · exact .inl (le_trans hs.2 (le_trans hbefore ht.1))
  · exact .inr (le_trans ht.2 (le_trans hafter hs.1))

theorem pairwise_cut {R : Span α → Span α → Prop} (hR : R ⟨h.start, a.start⟩ ⟨a.stop, h.stop⟩) :
    (a.cut h).Pairwise R := by
  unfold cut
  split <;> split
  · simp only [List.cons_append, List.nil_append, List.pairwise_cons, List.mem_singleton,
      forall_eq, List.not_mem_nil, false_implies, implies_true, List.Pairwise.nil, and_true]
    exact hR
  · simp
  · simp
  · simp

theorem pairwise_carve_of {R : Span α → Span α → Prop}
    (hmono : ∀ {s t s' t' : Span α}, R s t → (s.start ≤ s'.start ∧ s'.stop ≤ s.stop) →
      (t.start ≤ t'.start ∧ t'.stop ≤ t.stop) → R s' t') (hcut : ∀ h, (a.cut h).Pairwise R)
    (h : l.Pairwise R) : (l.flatMap a.carve).Pairwise R := by
  rw [List.pairwise_flatMap]
  constructor
  · intro s _
    unfold carve
    split
    · exact hcut s
    · simp
  · refine h.imp ?_
    intro s t hst s' hs' t' ht'
    exact hmono hst (carve_inside hs') (carve_inside ht')

theorem pairwise_carve (ha : a.start ≤ a.stop) (h : l.Pairwise Separated) :
    (l.flatMap a.carve).Pairwise Separated :=
  pairwise_carve_of Separated.mono (fun _ => pairwise_cut (.inl ha)) h

/-- There is a point between the two intervals. -/
def Apart (s t : Span α) : Prop := s.stop < t.start ∨ t.stop < s.start

instance : Std.Symm (@Apart α _) where
  symm _ _ h := Or.symm h

theorem Apart.separated (h : Apart s t) : Separated s t := h.imp le_of_lt le_of_lt

theorem Apart.mono {s' t' : Span α} (h : Apart s t) (hs : s.start ≤ s'.start ∧ s'.stop ≤ s.stop)
    (ht : t.start ≤ t'.start ∧ t'.stop ≤ t.stop) : Apart s' t' := by
  rcases h with hbefore | hafter
  · exact .inl (lt_of_le_of_lt hs.2 (lt_of_lt_of_le hbefore ht.1))
  · exact .inr (lt_of_le_of_lt ht.2 (lt_of_lt_of_le hafter hs.1))

theorem pairwise_carve_apart (ha : a.start < a.stop) (h : l.Pairwise Apart) :
    (l.flatMap a.carve).Pairwise Apart :=
  pairwise_carve_of Apart.mono (fun _ => pairwise_cut (.inl ha)) h

/-- Intervals that are apart and fill an interval are that interval. -/
theorem eq_singleton_of_fill (hl : l.Pairwise Apart) (hpoints : ∀ h ∈ l, h.start < h.stop)
    {lo hi : α} (hlt : lo < hi) (hfill : ∀ x, (∃ h ∈ l, h.Holds x) ↔ lo ≤ x ∧ x < hi) :
    l = [⟨lo, hi⟩] := by
  have happart : ∀ s ∈ l, ∀ t ∈ l, s ≠ t → Apart s t := fun s hs t ht hne => hl.forall hs ht hne
  have hwithin : ∀ h ∈ l, lo ≤ h.start ∧ h.start < hi := fun h hh =>
    (hfill h.start).mp ⟨h, hh, le_refl _, hpoints h hh⟩
  -- the interval that holds the first point is the whole one
  obtain ⟨h, hmem, hlo⟩ := (hfill lo).mpr ⟨le_refl _, hlt⟩
  have hstart : h.start = lo := le_antisymm hlo.1 (hwithin h hmem).1
  have hstop : h.stop = hi := by
    rcases lt_trichotomy h.stop hi with hless | heq | hmore
    · obtain ⟨k, hk, hkx⟩ := (hfill h.stop).mpr ⟨le_of_lt hlo.2, hless⟩
      have hne : h ≠ k := by
        rintro rfl
        exact absurd hkx.2 (lt_irrefl _)
      rcases happart h hmem k hk hne with hb | ha
      · exact absurd hkx.1 (not_le.mpr hb)
      · exact absurd (lt_trans (lt_trans ha (hpoints h hmem)) hkx.2) (lt_irrefl _)
    · exact heq
    · have hheld := (hfill hi).mp ⟨h, hmem, le_trans hlo.1 (le_of_lt hlt), hmore⟩
      exact absurd hheld.2 (lt_irrefl _)
  -- and there is no room for another
  have hall : ∀ k ∈ l, k = h := by
    intro k hk
    by_contra hne
    rcases happart k hk h hmem hne with hb | ha
    · rw [hstart] at hb
      exact absurd (lt_of_le_of_lt (hwithin k hk).1 (lt_trans (hpoints k hk) hb)) (lt_irrefl _)
    · rw [hstop] at ha
      exact absurd (lt_trans ha (hwithin k hk).2) (lt_irrefl _)
  have hwhole : h = ⟨lo, hi⟩ := Span.ext hstart hstop
  cases l with
  | nil => exact absurd hmem List.not_mem_nil
  | cons k rest =>
    have hk := hall k (by simp)
    cases rest with
    | nil => rw [hk, hwhole]
    | cons k' rest =>
      have hk' := hall k' (by simp)
      have hself := (List.pairwise_cons.mp hl).1 k' (by simp)
      rw [hk, hk'] at hself
      have hpos := hpoints h hmem
      rcases hself with hb | ha
      · exact absurd (lt_trans hb hpos) (lt_irrefl _)
      · exact absurd (lt_trans ha hpos) (lt_irrefl _)

theorem Separated.not_overlaps (hsep : Separated h k) (hsplit : a.splits h = true) :
    a.overlaps k = false := by
  obtain ⟨_, hleft, hright⟩ := splits_iff.mp hsplit
  rw [Bool.eq_false_iff, ne_eq, overlaps_iff]
  rintro ⟨h1, h2⟩
  rcases hsep with hbefore | hafter
  · exact absurd (lt_of_lt_of_le h1 (le_of_lt hright)) (not_lt.mpr hbefore)
  · exact absurd (lt_trans hleft h2) (not_lt.mpr hafter)

theorem flatMap_carve_of_clear (h : ∀ k ∈ l, a.overlaps k = false) : l.flatMap a.carve = l := by
  induction l with
  | nil => rfl
  | cons k l ih =>
    rw [List.flatMap_cons, carve_of_not_overlaps (h k (by simp)),
      ih fun k' hk' => h k' (List.mem_cons_of_mem _ hk')]
    rfl

theorem carve_inner (hl : l.Pairwise Separated) (hmem : h ∈ l) (hsplit : a.splits h = true) :
    ∃ rest, l.Perm (h :: rest) ∧
      (l.flatMap a.carve).Perm (⟨h.start, a.start⟩ :: ⟨a.stop, h.stop⟩ :: rest) := by
  obtain ⟨s, t, rfl⟩ := List.append_of_mem hmem
  have hfront : (s ++ h :: t).Perm (h :: (s ++ t)) := List.perm_middle
  obtain ⟨hover, hleft, hright⟩ := splits_iff.mp hsplit
  have hothers : ∀ k ∈ s ++ t, a.overlaps k = false := by
    have hpair := hfront.pairwise hl (fun h => Separated.symm h)
    exact fun k hk => ((List.pairwise_cons.mp hpair).1 k hk).not_overlaps hsplit
  refine ⟨s ++ t, hfront, ?_⟩
  have hcarved := hfront.flatMap_right a.carve
  rw [List.flatMap_cons, flatMap_carve_of_clear hothers, carve_of_overlaps hover, cut,
    if_pos hleft, if_pos hright] at hcarved
  exact hcarved

end Span

end Peos2.Lib
