/-
  Support.FragBuffer — `p2::frag_buffer` (`libraries/support/frag_buffer.h`).

  The buffer keeps bytes and the holes between them. An insertion takes every hole that
  overlaps the addition out of the pool and puts back what is left of it on either side,
  and then copies the bytes. The end of the addition is clamped to the size of the
  storage, the copy is not.

  Main result: `Neat.insert`.
-/
import Peos2.Lib.Interval
import Peos2.Support.Pool
import Peos2.Support.RingBuffer

namespace Peos2.Support

open Peos2.Lib List Pool Span

/-- `frag_buffer::hole` -/
abbrev Hole := Span Int

/-- `p2::frag_buffer<_MaxLen>` -/
structure FragBuffer (maxLen : Nat) where
  data : Bytes
  holes : Pool Hole (maxLen / 40) 0xFFFF

namespace FragBuffer

variable {maxLen : Nat}

/-! ## The class -/

/-- `p2::numeric_limits<int>::max()` -/
def intMax : Int := 2147483647

/-- `void reset()` -/
def reset (b : FragBuffer maxLen) : Checked (FragBuffer maxLen) := do
  let (_, holes) ← b.holes.clear.emplaceAnywhere ⟨0, intMax⟩
  .ok { b with holes }

/-- `frag_buffer()`, in storage that held `stale`. -/
def new (stale : Bytes) : Checked (FragBuffer maxLen) :=
  reset ⟨stale, Pool.blank⟩

/-- The body of the loop of `insert` for a hole in slot `i` that overlaps the
addition. -/
def replaceHole (addition : Hole) (i : Nat) (existingHole : Hole)
    (holes : Pool Hole (maxLen / 40) 0xFFFF) : Checked (Pool Hole (maxLen / 40) 0xFFFF) := do
  let leftoverLeft := max (addition.start - existingHole.start) 0
  let leftoverRight := max (existingHole.stop - addition.stop) 0
  let holes ← holes.erase i
  let holes ←
    if leftoverLeft > 0 then do
      let (_, holes) ←
        holes.emplaceAnywhere ⟨existingHole.start, existingHole.start + leftoverLeft⟩
      .ok holes
    else .ok holes
  if leftoverRight > 0 then do
    let (_, holes) ← holes.emplaceAnywhere ⟨existingHole.stop - leftoverRight, existingHole.stop⟩
    .ok holes
  else .ok holes

/-- The loop of `insert` from slot `i` on, with `removed_holes` so far. The
watermark is at most the capacity, so one turn more than that is enough. -/
def punch (addition : Hole) :
    Nat → Nat → Pool Hole (maxLen / 40) 0xFFFF → Bool →
      Checked (Pool Hole (maxLen / 40) 0xFFFF × Bool)
  | 0, _, _, _ => .error .outOfFuel
  | fuel + 1, i, holes, removedHoles =>
    if i < holes.watermark then
      if holes.valid i then do
        let existingHole ← holes.get i
        if addition.overlaps existingHole then do
          let holes ← replaceHole addition i existingHole holes
          punch addition fuel (i + 1) holes true
        else punch addition fuel (i + 1) holes removedHoles
      else punch addition fuel (i + 1) holes removedHoles
    else .ok (holes, removedHoles)

/-- `memcpy(_data + start, data, length)`; the storage has `maxLen` bytes, and a
negative length is a huge one. -/
def copy (storage : Bytes) (maxLen : Nat) (start : Int) (data : Bytes) (length : Int) :
    Checked Bytes :=
  let count := (unsigned length).toNat
  if count = 0 ∨ (0 ≤ start ∧ start + count ≤ maxLen) then
    .ok fun i => if start ≤ i ∧ i < start + count then data (i - start).toNat else storage i
  else .error .outOfBounds

/-- `void insert(int start_pos, const char *data, int length)` -/
def insert (b : FragBuffer maxLen) (startPos : Int) (data : Bytes) (length : Int) :
    Checked (FragBuffer maxLen) := do
  let sum ← Queue.addInt startPos length
  let addition : Hole := ⟨startPos, min sum maxLen⟩
  let (holes, removedHoles) ← punch addition (maxLen / 40 + 1) 0 b.holes false
  if removedHoles then do
    let data ← copy b.data maxLen startPos data length
    .ok ⟨data, holes⟩
  else .ok { b with holes }

/-- `int continuous_size() const` -/
def continuousSize (b : FragBuffer maxLen) : Checked Int :=
  if b.holes.size ≠ 1 then .ok 0
  else
    match b.holes.indices with
    | i :: _ => do
        let hole ← b.holes.get i
        .ok hole.start
    | [] => .error (.assertion "!\"unreachable\"")

/-! ## Replacing one hole -/

def place : List Hole → Pool Hole (maxLen / 40) 0xFFFF → Checked (Pool Hole (maxLen / 40) 0xFFFF)
  | [], holes => .ok holes
  | h :: rest, holes => do
      let (_, holes) ← holes.emplaceAnywhere h
      place rest holes

variable {holes holes' : Pool Hole (maxLen / 40) 0xFFFF} {addition : Hole}

theorem replaceHole_eq (addition : Hole) (i : Nat) (h : Hole)
    (holes : Pool Hole (maxLen / 40) 0xFFFF) :
    replaceHole addition i h holes = holes.erase i >>= place (addition.cut h) := by
  have hleft : max (addition.start - h.start) 0 > 0 ↔ h.start < addition.start := by omega
  have hright : max (h.stop - addition.stop) 0 > 0 ↔ addition.stop < h.stop := by omega
  refine congrArg (holes.erase i >>= ·) (funext fun p => ?_)
  unfold cut
  by_cases hl : h.start < addition.start
  · have hpiece : h.start + max (addition.start - h.start) 0 = addition.start := by omega
    by_cases hr : addition.stop < h.stop
    · have hpiece' : h.stop - max (h.stop - addition.stop) 0 = addition.stop := by omega
      simp only [hleft, hright, hl, hr, if_true, hpiece, hpiece', cons_append, nil_append, place]
      cases p.emplaceAnywhere ⟨h.start, addition.start⟩ <;> rfl
    · simp only [hleft, hright, hl, hr, if_true, if_false, hpiece, append_nil, place]
      cases p.emplaceAnywhere ⟨h.start, addition.start⟩ <;> rfl
  by_cases hr : addition.stop < h.stop
  · have hpiece' : h.stop - max (h.stop - addition.stop) 0 = addition.stop := by omega
    simp only [hleft, hright, hl, hr, if_true, if_false, hpiece', nil_append, place]
    rfl
  · simp only [hleft, hright, hl, hr, if_false, append_nil, place]
    rfl

theorem place_ok (l : List Hole) : ∀ {holes holes' : Pool Hole (maxLen / 40) 0xFFFF}, holes.WF →
    place l holes = .ok holes' →
    holes'.WF ∧ holes'.values.Perm (l ++ holes.values) ∧
      ∀ j k, holes'.lookup j = some k → k ∈ l ∨ holes.lookup j = some k := by
  induction l with
  | nil =>
    intro holes holes' hwf h
    cases h
    exact ⟨hwf, List.Perm.refl _, fun _ _ hk => .inr hk⟩
  | cons h rest ih =>
    intro holes holes' hwf hcall
    rw [place, bind_ok] at hcall
    obtain ⟨⟨i, _⟩, hput, hcall⟩ := hcall
    obtain ⟨_, hwf1, _, hl1⟩ := emplaceAnywhere_ok hwf hput
    obtain ⟨hwf', hvalues, hlookup⟩ := ih hwf1 hcall
    refine ⟨hwf', ?_, ?_⟩
    · have hput' := values_emplaceAnywhere hwf hput
      exact (hvalues.trans (hput'.append_left rest)).trans perm_middle
    · intro j k hk
      rcases hlookup j k hk with hmem | hold
      · exact .inl (mem_cons_of_mem _ hmem)
      · rw [hl1] at hold
        split at hold
        · cases hold
          exact .inl (by simp)
        · exact .inr hold

theorem place_cases (l : List Hole) : ∀ {holes : Pool Hole (maxLen / 40) 0xFFFF}, holes.WF →
    (holes.size + l.length ≤ maxLen / 40 → ∃ holes', place l holes = .ok holes') ∧
    (maxLen / 40 < holes.size + l.length → l ≠ [] →
      place l holes = .error (.assertion "_data_begin + idx < _data_end")) := by
  induction l with
  | nil =>
    intro holes _
    exact ⟨fun _ => ⟨holes, rfl⟩, fun _ hne => absurd rfl hne⟩
  | cons h rest ih =>
    intro holes hwf
    cases hfull : holes.full with
    | true =>
      have hsize : maxLen / 40 ≤ holes.size := by
        exact of_decide_eq_true hfull
      constructor
      · intro hroom
        rw [length_cons] at hroom
        omega
      · intro _ _
        rw [place, emplaceAnywhere_full hwf hfull, error_bind]
    | false =>
      obtain ⟨i, holes1, hput, hwf1, _⟩ := emplaceAnywhere_spec hwf hfull h
      have hsize1 : holes1.size = holes.size + 1 := by
        have hperm := (values_emplaceAnywhere hwf hput).length_eq
        rw [hwf1.length_values, length_cons, hwf.length_values] at hperm
        exact hperm
      obtain ⟨hok, hfail⟩ := ih hwf1
      rw [place, hput, ok_bind, length_cons]
      constructor
      · intro hroom
        exact hok (by omega)
      · intro hmany _
        apply hfail (by omega)
        rintro rfl
        rw [length_nil] at hmany
        have hnot : ¬ maxLen / 40 ≤ holes.size := by
          intro hge
          rw [full, decide_eq_false_iff_not] at hfull
          exact hfull hge
        omega

variable {i : Nat} {h : Hole} {length startPos start : Int} {data storage stale : Bytes}

theorem replaceHole_ok (hwf : holes.WF) (hi : holes.lookup i = some h)
    (hcall : replaceHole addition i h holes = .ok holes') :
    holes'.WF ∧ (∃ rest, holes.values.Perm (h :: rest) ∧
        holes'.values.Perm (addition.cut h ++ rest)) ∧
      ∀ j k, holes'.lookup j = some k →
        addition.overlaps k = false ∨ (j ≠ i ∧ holes.lookup j = some k) := by
  rw [replaceHole_eq, bind_ok] at hcall
  obtain ⟨holes1, herase, hplace⟩ := hcall
  obtain ⟨_, hwf1, hl1⟩ := erase_ok hwf herase
  obtain ⟨hwf', hvalues, hlookup⟩ := place_ok _ hwf1 hplace
  refine ⟨hwf', ⟨holes1.values, values_erase hwf hi herase, hvalues⟩, ?_⟩
  intro j k hk
  rcases hlookup j k hk with hpiece | hold
  · exact .inl (not_overlaps_cut hpiece)
  · rw [hl1] at hold
    split at hold
    · simp at hold
    · next hne => exact .inr ⟨hne, hold⟩

theorem replaceHole_cases (hwf : holes.WF) (hi : holes.lookup i = some h)
    (hover : addition.overlaps h = true) :
    (holes.size + (if addition.splits h then 1 else 0) ≤ maxLen / 40 →
      ∃ holes', replaceHole addition i h holes = .ok holes') ∧
    (maxLen / 40 ≤ holes.size → addition.splits h = true →
      replaceHole addition i h holes
        = .error (.assertion "_data_begin + idx < _data_end")) := by
  obtain ⟨holes1, herase, hwf1, _⟩ := erase_spec hwf hi
  have hsize : holes1.size + 1 = holes.size := by
    have hperm := (values_erase hwf hi herase).length_eq
    rw [length_cons, hwf1.length_values, hwf.length_values] at hperm
    exact hperm.symm
  obtain ⟨_, htwo⟩ := length_cut hover
  obtain ⟨hok, hfail⟩ := place_cases (addition.cut h) hwf1
  rw [replaceHole_eq, herase, ok_bind]
  constructor
  · intro hroom
    exact hok (by omega)
  · intro hfull hsplit
    have hlen := htwo hsplit
    apply hfail (by omega)
    intro hnil
    rw [hnil] at hlen
    exact absurd hlen (by decide)

/-! ## The loop -/

theorem clear_of_watermark (hwf : holes.WF)
    (hclear : ∀ j k, j < i → holes.lookup j = some k → addition.overlaps k = false)
    (hend : holes.watermark ≤ i) : ∀ k ∈ holes.values, addition.overlaps k = false := by
  intro k hk
  obtain ⟨j, hj⟩ := hwf.mem_values.mp hk
  exact hclear j k (Nat.lt_of_lt_of_le (lookup_lt_watermark hj) hend) hj

theorem clear_succ (hclear : ∀ j k, j < i → holes.lookup j = some k → addition.overlaps k = false)
    (hi : ∀ k, holes.lookup i = some k → addition.overlaps k = false) :
    ∀ j k, j < i + 1 → holes.lookup j = some k → addition.overlaps k = false := by
  intro j k hj hk
  rcases Nat.lt_succ_iff_lt_or_eq.mp hj with hlt | rfl
  · exact hclear j k hlt hk
  · exact hi k hk

/-- The loop carves the addition out of every hole, and notes whether one overlapped it. The
pieces put into slots ahead do not overlap the addition and are passed over. -/
theorem punch_spec (addition : Hole) (fuel : Nat) :
    ∀ {i : Nat} {holes : Pool Hole (maxLen / 40) 0xFFFF} {removed : Bool}
      {holes' : Pool Hole (maxLen / 40) 0xFFFF} {removed' : Bool}, holes.WF →
    (∀ j k, j < i → holes.lookup j = some k → addition.overlaps k = false) →
    punch addition fuel i holes removed = .ok (holes', removed') →
    holes'.WF ∧ holes'.values.Perm (holes.values.flatMap addition.carve) ∧
      removed' = (removed || holes.values.any addition.overlaps) := by
  induction fuel with
  | zero =>
    intro i holes removed holes' removed' _ _ h
    cases h
  | succ fuel ih =>
    intro i holes removed holes' removed' hwf hclear h
    rw [punch] at h
    split at h
    · split at h
      next hvalid =>
        obtain ⟨k, hget, h⟩ := bind_ok.mp h
        have hi := get_ok hget
        split at h
        · -- the hole is replaced by its pieces
          next hover =>
            obtain ⟨holes1, hreplace, h⟩ := bind_ok.mp h
            obtain ⟨hwf1, ⟨rest, hvalues, hvalues1⟩, hl1⟩ := replaceHole_ok hwf hi hreplace
            have hclear1 : ∀ j k', j < i + 1 → holes1.lookup j = some k' →
                addition.overlaps k' = false := by
              intro j k' hj hk'
              rcases hl1 j k' hk' with hno | ⟨_, hold⟩
              · exact hno
              · exact hclear j k' (by omega) hold
            obtain ⟨hwf', hperm, hremoved⟩ := ih hwf1 hclear1 h
            refine ⟨hwf', ?_, ?_⟩
            · have hpieces : (addition.cut k).flatMap addition.carve = addition.cut k :=
                flatMap_carve_of_clear fun _ hmem => not_overlaps_cut hmem
              have hnow := hvalues1.flatMap_right addition.carve
              rw [flatMap_append, hpieces] at hnow
              have hthen := hvalues.flatMap_right addition.carve
              rw [flatMap_cons, carve_of_overlaps hover] at hthen
              exact (hperm.trans hnow).trans hthen.symm
            · have hany : holes.values.any addition.overlaps = true :=
                any_eq_true.mpr ⟨k, hwf.mem_values.mpr ⟨i, hi⟩, hover⟩
              rw [hremoved, hany, Bool.true_or, Bool.or_true]
        next hover =>
          apply ih hwf (clear_succ hclear ?_) h
          intro k' hk'
          rw [hi] at hk'
          cases hk'
          exact Bool.eq_false_iff.mpr hover
      next hvalid =>
        apply ih hwf (clear_succ hclear ?_) h
        intro k hk
        exact absurd ((hwf.valid_iff_lookup i).mpr ⟨k, hk⟩) hvalid
    next hend =>
      cases h
      have hnone := clear_of_watermark hwf hclear (Nat.le_of_not_lt hend)
      have hany : holes.values.any addition.overlaps = false := by
        rw [any_eq_false]
        intro k hk
        rw [hnone k hk]
        exact Bool.false_ne_true
      rw [flatMap_carve_of_clear hnone, hany, Bool.or_false]
      exact ⟨hwf, List.Perm.refl _, rfl⟩

theorem countP_splits_cut (addition h : Hole) : (addition.cut h).countP addition.splits = 0 := by
  rw [countP_eq_zero]
  intro k hk
  rw [splits_iff, not_overlaps_cut hk]
  exact fun hc => Bool.false_ne_true hc.1

theorem punch_returns (addition : Hole) (fuel : Nat) :
    ∀ {i : Nat} {holes : Pool Hole (maxLen / 40) 0xFFFF} {removed : Bool}, holes.WF →
    holes.size + holes.values.countP addition.splits ≤ maxLen / 40 →
    i ≤ maxLen / 40 → maxLen / 40 < fuel + i →
    ∃ r, punch addition fuel i holes removed = .ok r := by
  induction fuel with
  | zero =>
    intro i holes removed _ _ hi hfuel
    omega
  | succ fuel ih =>
    intro i holes removed hwf hroom hi hfuel
    rw [punch]
    split
    next hlt =>
      have hi' : i + 1 ≤ maxLen / 40 := Nat.lt_of_lt_of_le hlt hwf.room
      have hfuel' : maxLen / 40 < fuel + (i + 1) := by omega
      split
      next hvalid =>
        obtain ⟨k, hk⟩ := (hwf.valid_iff_lookup i).mp hvalid
        rw [get_spec hk, ok_bind]
        split
        next hover =>
          have hmem : k ∈ holes.values := hwf.mem_values.mpr ⟨i, hk⟩
          have hone : (if addition.splits k then 1 else 0)
              ≤ holes.values.countP addition.splits := by
            split
            · next hsplit => exact countP_pos_iff.mpr ⟨k, hmem, hsplit⟩
            · exact Nat.zero_le _
          obtain ⟨_, hreplace⟩ := (replaceHole_cases hwf hk hover).1 (by omega)
          obtain ⟨hwf1, ⟨rest, hvalues, hvalues1⟩, _⟩ := replaceHole_ok hwf hk hreplace
          rw [hreplace, ok_bind]
          -- a hole that is split costs one slot and is counted no more
          have hsize := hvalues.length_eq
          have hsize1 := hvalues1.length_eq
          have hcount := hvalues.countP_eq addition.splits
          have hcount1 := hvalues1.countP_eq addition.splits
          rw [hwf.length_values, length_cons] at hsize
          rw [hwf1.length_values, length_append] at hsize1
          rw [countP_cons] at hcount
          rw [countP_append, countP_splits_cut] at hcount1
          have hpieces := (length_cut hover).1
          exact ih hwf1 (by omega) hi' hfuel'
        · exact ih hwf hroom hi' hfuel'
      · exact ih hwf hroom hi' hfuel'
    · exact ⟨_, rfl⟩

/-- The loop fails where a full pool has a hole that is split. -/
theorem punch_fails {m : Nat} (hwf : holes.WF) (hfull : maxLen / 40 ≤ holes.size)
    (hm : holes.lookup m = some h) (hsplit : addition.splits h = true)
    (hother : ∀ j k, j ≠ m → holes.lookup j = some k → addition.overlaps k = false) (fuel : Nat) :
    ∀ {i : Nat} {removed : Bool}, i ≤ m → m < fuel + i →
    punch addition fuel i holes removed
      = .error (.assertion "_data_begin + idx < _data_end") := by
  have hmark : m < holes.watermark := lookup_lt_watermark hm
  induction fuel with
  | zero =>
    intro i removed hi hfuel
    omega
  | succ fuel ih =>
    intro i removed hi hfuel
    rw [punch, if_pos (by omega)]
    by_cases him : i = m
    · have hvalid : holes.valid i = true := (hwf.valid_iff_lookup i).mpr ⟨h, him ▸ hm⟩
      have hover : addition.overlaps h = true := (splits_iff.mp hsplit).1
      rw [if_pos hvalid, get_spec (him ▸ hm), ok_bind, if_pos hover,
        (replaceHole_cases hwf (him ▸ hm) hover).2 hfull hsplit, error_bind]
    have hnext : ∀ {removed : Bool}, punch addition fuel (i + 1) holes removed
        = .error (.assertion "_data_begin + idx < _data_end") :=
      ih (by omega) (by omega)
    split
    next hvalid =>
      obtain ⟨k, hk⟩ := (hwf.valid_iff_lookup i).mp hvalid
      rw [get_spec hk, ok_bind, if_neg (by simp [hother i k him hk])]
      exact hnext
    · exact hnext

/-! ## Separated holes -/

/-- The holes are intervals with points in the range of `int`, and no two of
them share one. -/
structure Tidy (b : FragBuffer maxLen) : Prop where
  wf : b.holes.WF
  separated : b.holes.values.Pairwise Span.Separated
  range : ∀ h ∈ b.holes.values, 0 ≤ h.start ∧ h.start < h.stop ∧ h.stop ≤ intMax

/-- A full pool has a hole that goes on at both sides of the addition. -/
def crowded (b : FragBuffer maxLen) (addition : Hole) : Bool :=
  decide (maxLen / 40 ≤ b.holes.size) && b.holes.values.any addition.splits

/-- An addition that splits one of the holes does not meet the other. -/
def Exclusive (addition h k : Hole) : Prop :=
  (addition.splits h = true → addition.overlaps k = false) ∧
    (addition.splits k = true → addition.overlaps h = false)

theorem Exclusive.symm {k : Hole} (hex : Exclusive addition h k) : Exclusive addition k h :=
  And.symm hex

theorem exclusive_of_separated {k : Hole} (hsep : Span.Separated h k) : Exclusive addition h k :=
  ⟨fun hsplit => hsep.not_overlaps hsplit, fun hsplit => hsep.symm.not_overlaps hsplit⟩

theorem countP_splits_of_exclusive {l : List Hole} (h : l.Pairwise (Exclusive addition)) :
    l.countP addition.splits ≤ 1 := by
  induction l with
  | nil => exact Nat.zero_le _
  | cons k l ih =>
    obtain ⟨hk, hl⟩ := pairwise_cons.mp h
    rw [countP_cons]
    split
    next hsplit =>
      have hrest : l.countP addition.splits = 0 := by
        rw [countP_eq_zero]
        intro k' hk' hc
        have hno := (hk k' hk').1 hsplit
        rw [(splits_iff.mp hc).1] at hno
        exact absurd hno (by decide)
      omega
    · exact ih hl

theorem countP_splits_le_one {l : List Hole} (h : l.Pairwise Span.Separated) :
    l.countP addition.splits ≤ 1 :=
  countP_splits_of_exclusive (h.imp fun hsep => exclusive_of_separated hsep)

variable {b : FragBuffer maxLen}

theorem punch_cases (hwf : b.holes.WF) (hex : b.holes.values.Pairwise (Exclusive addition)) :
    (b.crowded addition = true ∧ punch addition (maxLen / 40 + 1) 0 b.holes false
        = .error (.assertion "_data_begin + idx < _data_end")) ∨
    (b.crowded addition = false ∧ ∃ holes',
      punch addition (maxLen / 40 + 1) 0 b.holes false
        = .ok (holes', b.holes.values.any addition.overlaps) ∧
      holes'.WF ∧ holes'.values.Perm (b.holes.values.flatMap addition.carve)) := by
  cases hcrowd : b.crowded addition with
  | true =>
    left
    rw [crowded, Bool.and_eq_true, decide_eq_true_eq, any_eq_true] at hcrowd
    obtain ⟨hfull, h, hmem, hsplit⟩ := hcrowd
    obtain ⟨m, hm⟩ := hwf.mem_values.mp hmem
    refine ⟨rfl, punch_fails hwf hfull hm hsplit ?_ _ (Nat.zero_le _) ?_⟩
    · intro j k hj hk
      exact (pairwise_lookup (fun _ _ h => Exclusive.symm h) hwf hex (Ne.symm hj) hm hk).1 hsplit
    · have hmark := lookup_lt_watermark hm
      have hroom := hwf.room
      omega
  | false =>
    right
    have hroom : b.holes.size + b.holes.values.countP addition.splits ≤ maxLen / 40 := by
      have hle : b.holes.size ≤ maxLen / 40 := hwf.size_le
      have hone : b.holes.values.countP addition.splits ≤ 1 := countP_splits_of_exclusive hex
      by_cases hfull : maxLen / 40 ≤ b.holes.size
      · rw [crowded, decide_eq_true hfull, Bool.true_and, any_eq_false] at hcrowd
        have hnone : b.holes.values.countP addition.splits = 0 := countP_eq_zero.mpr hcrowd
        omega
      · omega
    obtain ⟨⟨holes', removed⟩, hcall⟩ :
        ∃ r, punch addition (maxLen / 40 + 1) 0 b.holes false = .ok r :=
      punch_returns addition _ hwf hroom (Nat.zero_le _) (Nat.lt_succ_self _)
    obtain ⟨hwf', hvalues, hremoved⟩ :=
      punch_spec addition _ hwf (fun j k hj => absurd hj (Nat.not_lt_zero _)) hcall
    rw [hremoved] at hcall
    exact ⟨rfl, holes', hcall, hwf', hvalues⟩

/-! ## Insertion -/

def clamped (maxLen : Nat) (startPos length : Int) : Hole :=
  ⟨startPos, min (startPos + length) maxLen⟩

theorem clamped_inside (hin : startPos + length ≤ maxLen) :
    clamped maxLen startPos length = ⟨startPos, startPos + length⟩ := by
  have hmin : min (startPos + length) (maxLen : Int) = startPos + length := by omega
  rw [clamped, hmin]

theorem insert_eq (data : Bytes) (hlow : -2147483648 ≤ startPos + length)
    (hhigh : startPos + length < 2147483648) :
    b.insert startPos data length
      = punch (clamped maxLen startPos length) (maxLen / 40 + 1) 0 b.holes false >>= fun r =>
          if r.2 then copy b.data maxLen startPos data length >>= fun d => .ok ⟨d, r.1⟩
          else .ok { b with holes := r.1 } := by
  unfold insert
  rw [Queue.addInt_ok hlow hhigh, ok_bind]
  rfl

theorem insert_of_exclusive (hwf : b.holes.WF) (data : Bytes)
    (hex : b.holes.values.Pairwise (Exclusive (clamped maxLen startPos length)))
    (hlow : -2147483648 ≤ startPos + length) (hhigh : startPos + length < 2147483648) :
    (b.crowded (clamped maxLen startPos length) = true ∧ b.insert startPos data length
        = .error (.assertion "_data_begin + idx < _data_end")) ∨
    (b.crowded (clamped maxLen startPos length) = false ∧ ∃ holes', holes'.WF ∧
      holes'.values.Perm (b.holes.values.flatMap (clamped maxLen startPos length).carve) ∧
      b.insert startPos data length
        = if b.holes.values.any (clamped maxLen startPos length).overlaps then
            copy b.data maxLen startPos data length >>= fun d => .ok ⟨d, holes'⟩
          else .ok { b with holes := holes' }) := by
  rw [insert_eq data hlow hhigh]
  rcases punch_cases hwf hex with ⟨hcrowd, hcall⟩ | ⟨hopen, holes', hcall, h⟩
  · left
    rw [hcall]
    exact ⟨hcrowd, rfl⟩
  · right
    rw [hcall, ok_bind]
    exact ⟨hopen, holes', h.1, h.2, rfl⟩

theorem Tidy.exclusive (hb : b.Tidy) (addition : Hole) :
    b.holes.values.Pairwise (Exclusive addition) :=
  hb.separated.imp fun hsep => exclusive_of_separated hsep

def written (storage : Bytes) (start : Int) (data : Bytes) (length : Int) : Bytes :=
  fun i => if start ≤ i ∧ i < start + length then data (i - start).toNat else storage i

theorem written_inside (h : start ≤ i ∧ i < start + length) :
    written storage start data length i = data (i - start).toNat := if_pos h

theorem written_outside (h : ¬ (start ≤ i ∧ i < start + length)) :
    written storage start data length i = storage i := if_neg h

theorem copy_inside (h0 : 0 ≤ start) (hlen : 0 ≤ length) (hsmall : length < 4294967296)
    (hin : start + length ≤ maxLen) :
    copy storage maxLen start data length = .ok (written storage start data length) := by
  have hcount : ((unsigned length).toNat : Int) = length := by
    rw [toNat_unsigned_of_nonneg hlen hsmall]
    exact Int.toNat_of_nonneg hlen
  unfold copy written
  simp only [hcount]
  rw [if_pos (.inr ⟨h0, hin⟩)]

theorem copy_outside (hlen : 0 < length) (hsmall : length < 4294967296)
    (hout : maxLen < start + length) :
    copy storage maxLen start data length = .error .outOfBounds := by
  have hcount : (unsigned length).toNat = length.toNat :=
    toNat_unsigned_of_nonneg (Int.le_of_lt hlen) hsmall
  apply if_neg
  omega

variable {b₀ : FragBuffer maxLen}

theorem reset_ok (hcap : maxLen / 40 ≤ 0xFFFF) (h : reset b₀ = .ok b) :
    b.holes.WF ∧ b.holes.values = [⟨0, intMax⟩] ∧ b.data = b₀.data := by
  obtain ⟨⟨i, _⟩, hput, h⟩ := bind_ok.mp h
  cases h
  obtain ⟨_, hwf', _⟩ := emplaceAnywhere_ok (clear_wf _ hcap) hput
  have hvalues := values_emplaceAnywhere (clear_wf _ hcap) hput
  rw [values_clear, perm_singleton] at hvalues
  exact ⟨hwf', hvalues, rfl⟩

theorem reset_returns (b₀ : FragBuffer maxLen) (hcap : maxLen / 40 ≤ 0xFFFF) (hroom : 40 ≤ maxLen) :
    ∃ b, reset b₀ = .ok b := by
  obtain ⟨i, holes, hput, _⟩ := emplaceAnywhere_spec (clear_wf b₀.holes hcap)
    (full_clear _ (by omega)) (⟨0, intMax⟩ : Hole)
  refine ⟨{ b₀ with holes }, ?_⟩
  unfold reset
  rw [hput]
  rfl

theorem Tidy.of_reset (hcap : maxLen / 40 ≤ 0xFFFF) (h : reset b₀ = .ok b) : b.Tidy := by
  obtain ⟨hwf, hvalues, _⟩ := reset_ok hcap h
  refine ⟨hwf, ?_, ?_⟩
  · rw [hvalues]
    exact pairwise_singleton _ _
  · intro k hk
    rw [hvalues, mem_singleton] at hk
    subst hk
    decide

theorem Tidy.carved (hb : b.Tidy) {addition : Hole} (horder : addition.start ≤ addition.stop)
    {holes' : Pool Hole (maxLen / 40) 0xFFFF} (hwf : holes'.WF)
    (hvalues : holes'.values.Perm (b.holes.values.flatMap addition.carve)) (data : Bytes) :
    (⟨data, holes'⟩ : FragBuffer maxLen).Tidy := by
  refine ⟨hwf, ?_, ?_⟩
  · exact hvalues.symm.pairwise (pairwise_carve horder hb.separated)
      (fun h => Span.Separated.symm h)
  · intro k hk
    obtain ⟨h, hmem, hpiece⟩ := mem_flatMap.mp (hvalues.mem_iff.mp hk)
    obtain ⟨hlow, hpos, hhigh⟩ := hb.range h hmem
    obtain ⟨hstart, hstop⟩ := carve_inside hpiece
    exact ⟨Int.le_trans hlow hstart, carve_nonempty hpos hpiece, Int.le_trans hstop hhigh⟩

/-! ## What the buffer holds -/

/-- As `Tidy`, and between two holes there is a position that was filled. -/
structure Neat (b : FragBuffer maxLen) : Prop where
  wf : b.holes.WF
  apart : b.holes.values.Pairwise Span.Apart
  range : ∀ h ∈ b.holes.values, 0 ≤ h.start ∧ h.start < h.stop ∧ h.stop ≤ intMax

/-- The position lies in no hole. -/
def Filled (b : FragBuffer maxLen) (x : Int) : Prop := ∀ h ∈ b.holes.values, ¬ h.Holds x

theorem not_filled {x : Int} : ¬ b.Filled x ↔ ∃ h ∈ b.holes.values, h.Holds x := by
  unfold Filled
  simp only [not_forall, not_not, exists_prop]

theorem Neat.tidy (hb : b.Neat) : b.Tidy :=
  ⟨hb.wf, hb.apart.imp Span.Apart.separated, hb.range⟩

theorem Neat.of_new (hcap : maxLen / 40 ≤ 0xFFFF) (h : new stale = .ok b) : b.Neat := by
  obtain ⟨hwf, hvalues, _⟩ := reset_ok hcap h
  refine ⟨hwf, ?_, (Tidy.of_reset hcap h).range⟩
  rw [hvalues]
  exact pairwise_singleton _ _

theorem filled_of_new (hcap : maxLen / 40 ≤ 0xFFFF) (h : new stale = .ok b) {x : Int} :
    b.Filled x ↔ ¬ (0 ≤ x ∧ x < intMax) := by
  obtain ⟨_, hvalues, _⟩ := reset_ok hcap h
  unfold Filled
  rw [hvalues]
  simp only [mem_singleton, forall_eq]
  rfl

theorem Neat.insert (hb : b.Neat) {startPos length : Int} (data : Bytes)
    (hmax : maxLen < 2147483648) (h0 : 0 ≤ startPos) (hlen : 1 ≤ length)
    (hin : startPos + length ≤ maxLen) (hroom : b.crowded ⟨startPos, startPos + length⟩ = false) :
    ∃ b', b.insert startPos data length = .ok b' ∧ b'.Neat ∧
      b'.holes.size ≤ b.holes.size
        + b.holes.values.countP (Span.splits ⟨startPos, startPos + length⟩) ∧
      (∀ x, b'.Filled x ↔ b.Filled x ∨ (startPos ≤ x ∧ x < startPos + length)) ∧
      (∀ i : Nat, b'.data i = b.data i ∨
        (startPos ≤ i ∧ i < startPos + length ∧ b'.data i = data (i - startPos).toNat)) ∧
      (∀ i : Nat, startPos ≤ i → i < startPos + length → ¬ b.Filled i →
        b'.data i = data (i - startPos).toNat) := by
  have hclamp := clamped_inside hin
  rcases insert_of_exclusive hb.tidy.wf data (hb.tidy.exclusive _) (show -2147483648 ≤ startPos + length by omega) (by omega)
    with ⟨hcrowd, _⟩ | ⟨_, holes', hwf, hvalues, hcall⟩
  · rw [hclamp, hroom] at hcrowd
    exact absurd hcrowd (by decide)
  rw [hclamp] at hvalues hcall
  rw [copy_inside h0 (by omega) (by omega) hin, ok_bind] at hcall
  have hneat : ∀ d, (⟨d, holes'⟩ : FragBuffer maxLen).Neat := by
    intro d
    have hordered : startPos < startPos + length := by omega
    refine ⟨hwf, ?_, (hb.tidy.carved (Int.le_of_lt hordered) hwf hvalues d).range⟩
    exact hvalues.symm.pairwise (pairwise_carve_apart hordered hb.apart) (fun h => symm h)
  have hsize := length_carve_le ⟨startPos, startPos + length⟩ b.holes.values
  rw [← hvalues.length_eq, hwf.length_values, hb.wf.length_values] at hsize
  have hfilled : ∀ x, (⟨b.data, holes'⟩ : FragBuffer maxLen).Filled x ↔
      b.Filled x ∨ (startPos ≤ x ∧ x < startPos + length) := by
    intro x
    have hpoints : (∃ k ∈ holes'.values, k.Holds x) ↔
        (∃ h ∈ b.holes.values, h.Holds x) ∧ ¬ (startPos ≤ x ∧ x < startPos + length) :=
      (exists_congr fun k => and_congr_left' hvalues.mem_iff).trans mem_flatMap_carve
    rw [← not_iff_not, not_filled (b := ⟨b.data, holes'⟩), hpoints, not_or, not_filled]
  cases hany : b.holes.values.any (overlaps ⟨startPos, startPos + length⟩) with
  | true =>
    rw [hany] at hcall
    refine ⟨_, hcall, hneat _, hsize, hfilled, ?_, ?_⟩
    · intro i
      by_cases hi : startPos ≤ i ∧ i < startPos + length
      · exact .inr ⟨hi.1, hi.2, written_inside hi⟩
      · exact .inl (written_outside hi)
    · intro i h1 h2 _
      exact written_inside ⟨h1, h2⟩
  | false =>
    rw [hany] at hcall
    refine ⟨_, hcall, hneat _, hsize, hfilled, fun i => .inl rfl, ?_⟩
    -- no hole meets the addition, so all of it was filled
    intro i h1 h2 hnot
    obtain ⟨h, hmem, hx⟩ := not_filled.mp hnot
    have hover : overlaps ⟨startPos, startPos + length⟩ h = true :=
      overlaps_iff.mpr ⟨Int.lt_of_le_of_lt hx.1 h2, Int.lt_of_le_of_lt h1 hx.2⟩
    rw [any_eq_false] at hany
    exact absurd hover (hany h hmem)

theorem holds_of_splits {addition : Hole} (hsplit : addition.splits h = true) :
    h.Holds addition.start ∧ h.Holds (addition.start - 1) := by
  obtain ⟨hover, hleft, _⟩ := splits_iff.mp hsplit
  obtain ⟨_, hright⟩ := overlaps_iff.mp hover
  refine ⟨⟨Int.le_of_lt hleft, hright⟩, ?_, ?_⟩
  · exact Int.le_sub_one_of_lt hleft
  · omega

theorem continuousSize_spec (hwf : b.holes.WF) :
    (∃ h, b.holes.values = [h] ∧ b.continuousSize = .ok h.start) ∨
    (b.holes.values.length ≠ 1 ∧ b.continuousSize = .ok 0) := by
  unfold continuousSize
  rw [← hwf.length_values]
  by_cases hone : b.holes.values.length = 1
  · left
    obtain ⟨h, hvalues⟩ := length_eq_one_iff.mp hone
    refine ⟨h, hvalues, ?_⟩
    rw [if_neg (by simp [hone])]
    have hmem : h ∈ b.holes.values := by simp [hvalues]
    obtain ⟨j, hj⟩ := hwf.mem_values.mp hmem
    cases hindices : b.holes.indices with
    | nil =>
      have hlive := hwf.mem_indices.mpr ⟨h, hj⟩
      rw [hindices] at hlive
      exact absurd hlive not_mem_nil
    | cons i rest =>
      obtain ⟨k, hk⟩ := hwf.mem_indices.mp (show i ∈ b.holes.indices by simp [hindices])
      have hsame : k ∈ b.holes.values := hwf.mem_values.mpr ⟨i, hk⟩
      rw [hvalues, mem_singleton] at hsame
      simp only
      rw [get_spec hk, ok_bind, hsame]
  · exact .inr ⟨hone, if_pos hone⟩

end FragBuffer

end Peos2.Support
