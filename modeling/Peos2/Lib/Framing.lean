/-
  Lib.Framing — streams cut into frames by their headers.

  A frame is a header of a fixed length and a payload whose length the header
  declares. `cut` takes the complete frames off the front of a stream, as often
  as there is one, and leaves an incomplete remainder.
-/
import Mathlib.Data.List.Basic

namespace Peos2.Lib

structure Framing (α : Type) where
  header : Nat
  /-- The length of the payload that a header declares. -/
  declared : List α → Nat
  header_pos : 0 < header

namespace Framing

variable {α : Type} (f : Framing α)

/-! ## Cutting -/

/-- The payload of the first frame, if it is complete, and what follows. -/
def first (s : List α) : Option (List α × List α) :=
  let size := f.header + f.declared (s.take f.header)
  if f.header ≤ s.length ∧ size ≤ s.length then
    some ((s.drop f.header).take (f.declared (s.take f.header)), s.drop size)
  else none

/-- At most `n` frames off the front of a stream. -/
def cutFrom : Nat → List α → List (List α) × List α
  | 0, s => ([], s)
  | n + 1, s =>
    match f.first s with
    | none => ([], s)
    | some (p, rest) => (p :: (cutFrom n rest).1, (cutFrom n rest).2)

/-- The payloads of the complete frames of a stream, and the remainder. -/
def cut (s : List α) : List (List α) × List α := f.cutFrom s.length s

/-- `h` is the header of a frame with payload `p`. -/
def Heads (h p : List α) : Prop := h.length = f.header ∧ f.declared h = p.length

variable {f}

variable {s p rest h t : List α}

theorem first_of_short (h : s.length < f.header) : f.first s = none := by
  unfold first
  rw [if_neg]
  rintro ⟨hheader, _⟩
  omega

theorem first_eq_some (h : f.first s = some (p, rest)) :
    f.header + p.length ≤ s.length ∧ f.declared (s.take f.header) = p.length
      ∧ p = (s.drop f.header).take p.length ∧ rest = s.drop (f.header + p.length) := by
  unfold first at h
  simp only at h
  split at h
  next hlen =>
    cases h
    have hsize : ((s.drop f.header).take (f.declared (s.take f.header))).length
        = f.declared (s.take f.header) := by
      rw [List.length_take, List.length_drop]
      omega
    rw [hsize]
    exact ⟨hlen.2, rfl, rfl, rfl⟩
  · cases h

theorem first_eq_none (h : f.first s = none) (hheader : f.header ≤ s.length) :
    s.length < f.header + f.declared (s.take f.header) := by
  unfold first at h
  simp only at h
  split at h
  · cases h
  · next hshort => omega

theorem first_shorter (h : f.first s = some (p, rest)) : rest.length < s.length := by
  have hpos := f.header_pos
  obtain ⟨_, _, _, hrest⟩ := first_eq_some h
  rw [hrest, List.length_drop]
  omega

theorem first_frame (hp : f.Heads h p) (t : List α) : f.first (h ++ p ++ t) = some (p, t) := by
  obtain ⟨hlen, hdeclared⟩ := hp
  have htake : (h ++ p ++ t).take f.header = h := by
    rw [← hlen, List.append_assoc, List.take_left]
  have hdrop : (h ++ p ++ t).drop f.header = p ++ t := by
    rw [← hlen, List.append_assoc, List.drop_left]
  have hrest : (h ++ p ++ t).drop (f.header + p.length) = t := by
    rw [← List.drop_drop, hdrop, List.drop_left]
  unfold first
  simp only [htake, hdeclared, hdrop, hrest]
  rw [if_pos ⟨by simp; omega, by simp; omega⟩, List.take_left]

theorem take_header {u : List α} (hp : f.Heads h p) (hs : s ++ t = h ++ p ++ u)
    (hheader : f.header ≤ s.length) : s.take f.header = h := by
  have hboth : (s ++ t).take f.header = h := by
    rw [hs, ← hp.1, List.append_assoc, List.take_left]
  rw [List.take_append_of_le_length hheader] at hboth
  exact hboth

theorem first_incomplete (hp : f.Heads h p) (ht : t <+: h ++ p)
    (hshort : t.length < (h ++ p).length) : f.first t = none := by
  obtain ⟨hlen, hdeclared⟩ := hp
  rw [List.length_append] at hshort
  unfold first
  rw [if_neg]
  rintro ⟨hheader, hsize⟩
  obtain ⟨u, hu⟩ := ht
  have htake : t.take f.header = h :=
    take_header ⟨hlen, hdeclared⟩ (u := []) (by rw [hu, List.append_nil]) hheader
  rw [htake] at hsize
  omega

theorem length_lt_of_first_none {u : List α} (hp : f.Heads h p) (hs : s ++ t = h ++ p ++ u)
    (hnone : f.first s = none) : s.length < (h ++ p).length := by
  by_contra hlong
  have hprefix : h ++ p <+: s :=
    List.prefix_of_prefix_length_le (hs ▸ List.prefix_append (h ++ p) u) (List.prefix_append s t)
      (by omega)
  obtain ⟨v, hv⟩ := hprefix
  rw [← hv, first_frame hp v] at hnone
  cases hnone

theorem first_append (h : f.first s = some (p, rest)) (t : List α) :
    f.first (s ++ t) = some (p, rest ++ t) := by
  unfold first at h
  simp only at h
  split at h
  next hlen =>
    cases h
    have htake : (s ++ t).take f.header = s.take f.header := List.take_append_of_le_length hlen.1
    unfold first
    simp only [htake]
    rw [if_pos ⟨by simp; omega, by simp; omega⟩,
      List.drop_append_of_le_length hlen.1, List.drop_append_of_le_length hlen.2,
      List.take_append_of_le_length (by rw [List.length_drop]; omega)]
  · cases h

/-! ## The complete frames -/

theorem cutFrom_of_le : ∀ (n m : Nat) (s : List α), s.length ≤ n → s.length ≤ m →
    f.cutFrom n s = f.cutFrom m s := by
  have hpos := f.header_pos
  have hempty : ∀ (m : Nat) (s : List α), s.length = 0 → f.cutFrom m s = ([], s) := by
    intro m s hs
    cases m with
    | zero => rfl
    | succ m => rw [cutFrom, first_of_short (by omega)]
  intro n
  induction n with
  | zero =>
    intro m s hn _
    rw [hempty m s (by omega)]
    rfl
  | succ n ih =>
    intro m s hn hm
    cases m with
    | zero =>
      rw [hempty (n + 1) s (by omega)]
      rfl
    | succ m =>
      rw [cutFrom, cutFrom]
      cases hfirst : f.first s with
      | none => rfl
      | some r =>
        obtain ⟨p, rest⟩ := r
        have hshort := first_shorter hfirst
        simp only
        rw [ih m rest (by omega) (by omega)]

theorem cut_none (h : f.first s = none) : f.cut s = ([], s) := by
  unfold cut
  cases s.length with
  | zero => rfl
  | succ n => rw [cutFrom, h]

theorem cut_some (h : f.first s = some (p, rest)) :
    f.cut s = (p :: (f.cut rest).1, (f.cut rest).2) := by
  have hshort := first_shorter h
  unfold cut
  obtain ⟨n, hn⟩ : ∃ n, s.length = n + 1 := ⟨s.length - 1, by omega⟩
  rw [hn, cutFrom, h]
  simp only
  rw [cutFrom_of_le n rest.length rest (by omega) (Nat.le_refl _)]

theorem cut_induction {P : List α → Prop} (hnone : ∀ s, f.first s = none → P s)
    (hsome : ∀ s p rest, f.first s = some (p, rest) → P rest → P s) (s : List α) : P s := by
  generalize hn : s.length = n
  induction n using Nat.strongRecOn generalizing s with
  | ind n ih =>
    cases hfirst : f.first s with
    | none => exact hnone s hfirst
    | some r =>
      obtain ⟨p, rest⟩ := r
      have hshort := first_shorter hfirst
      exact hsome s p rest hfirst (ih rest.length (by omega) rest rfl)

theorem first_cut (s : List α) : f.first (f.cut s).2 = none := by
  induction s using cut_induction (f := f) with
  | hnone s h => rw [cut_none h, h]
  | hsome s p rest h ih => rw [cut_some h, ih]

theorem cut_append (s t : List α) :
    f.cut (s ++ t) = ((f.cut s).1 ++ (f.cut ((f.cut s).2 ++ t)).1, (f.cut ((f.cut s).2 ++ t)).2) := by
  induction s using cut_induction (f := f) with
  | hnone s h => rw [cut_none h, List.nil_append]
  | hsome s p rest h ih =>
    rw [cut_some h, cut_some (first_append h t), ih]
    rfl

theorem mem_cut_append (h : p ∈ (f.cut s).1) (t : List α) : p ∈ (f.cut (s ++ t)).1 := by
  rw [cut_append]
  exact List.mem_append_left _ h

theorem length_le_of_mem_cut (s : List α) : p ∈ (f.cut s).1 → f.header + p.length ≤ s.length := by
  induction s using cut_induction (f := f) with
  | hnone s h =>
    rw [cut_none h]
    intro hp
    cases hp
  | hsome s q rest h ih =>
    rw [cut_some h]
    intro hp
    have hshort := first_shorter h
    have hlen := (first_eq_some h).1
    rcases List.mem_cons.mp hp with rfl | hp
    · exact hlen
    · have := ih hp
      omega

/-- Every header in the stream declares at most `n`. -/
def Bounded (f : Framing α) (n : Nat) (s : List α) : Prop :=
  (∀ p ∈ (f.cut s).1, p.length ≤ n)
    ∧ (f.header ≤ (f.cut s).2.length → f.declared ((f.cut s).2.take f.header) ≤ n)

theorem Bounded.rest_lt {n : Nat} (h : f.Bounded n s) : (f.cut s).2.length < f.header + n := by
  by_cases hheader : f.header ≤ (f.cut s).2.length
  · have hdeclared := h.2 hheader
    have hpart := first_eq_none (first_cut s) hheader
    omega
  · omega

/-! ## Streams of frames -/

section Frames

variable {encode : List α → List α}

theorem cut_frames {ps : List (List α)} (hheads : ∀ p ∈ ps, f.Heads (encode p) p) :
    f.cut (ps.map fun p => encode p ++ p).flatten = (ps, []) := by
  induction ps with
  | nil => exact cut_none (first_of_short f.header_pos)
  | cons p ps ih =>
    have hrest := ih fun q hq => hheads q (List.mem_cons_of_mem p hq)
    rw [List.map_cons, List.flatten_cons, cut_some (first_frame (hheads p List.mem_cons_self) _), hrest]

/-- The start of a stream of frames is cut into the first of its payloads;
what remains is the start of the next frame. -/
theorem cut_of_prefix {ps : List (List α)} : ∀ {t : List α}, (∀ p ∈ ps, f.Heads (encode p) p) →
    t <+: (ps.map fun p => encode p ++ p).flatten →
    ∃ n r, f.cut t = (ps.take n, r) ∧ t = ((ps.take n).map fun p => encode p ++ p).flatten ++ r
      ∧ (∀ p, ps[n]? = some p → r <+: encode p ++ p ∧ r.length < (encode p ++ p).length)
      ∧ (ps[n]? = none → r = []) := by
  induction ps with
  | nil =>
    intro t _ ht
    have hnil : t = [] := List.prefix_nil.mp ht
    subst hnil
    exact ⟨0, [], cut_none (first_of_short f.header_pos), rfl, by simp, fun _ => rfl⟩
  | cons p ps ih =>
    intro t hheads ht
    have hp := hheads p List.mem_cons_self
    rw [List.map_cons] at ht
    by_cases hlen : t.length < (encode p ++ p).length
    · -- the first frame has not arrived as a whole
      have hpart : t <+: encode p ++ p :=
        List.prefix_of_prefix_length_le ht (List.prefix_append _ _) (by omega)
      refine ⟨0, t, cut_none (first_incomplete hp hpart hlen), by simp, ?_, by simp⟩
      intro q hq
      cases hq
      exact ⟨hpart, hlen⟩
    obtain ⟨u, hu⟩ : ∃ u, t = encode p ++ p ++ u := by
      obtain ⟨u, hu⟩ := List.prefix_of_prefix_length_le (List.prefix_append _ _) ht (by omega)
      exact ⟨u, hu.symm⟩
    subst hu
    have hrest := (List.prefix_append_right_inj _).mp ht
    obtain ⟨n, r, hcut, hsplit, hnext, hlast⟩ :=
      ih (fun q hq => hheads q (List.mem_cons_of_mem p hq)) hrest
    refine ⟨n + 1, r, ?_, ?_, hnext, hlast⟩
    · rw [cut_some (first_frame hp u), hcut]
      rfl
    · rw [List.take_succ_cons, List.map_cons, List.flatten_cons, List.append_assoc _ _ r, ← hsplit]

end Frames

end Framing

end Peos2.Lib
