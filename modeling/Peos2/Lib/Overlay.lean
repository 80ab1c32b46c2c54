/-
  Lib.Overlay — writing into a list at an offset, padding a gap.

  `overlay l off ds` is `l` with the run `ds` written over it from position
  `off` on; positions between the end of `l` and `off` are filled with the
  default value. An empty run changes nothing, not even the length.
-/
import Mathlib.Data.List.Basic

namespace Peos2.Lib

variable {α : Type} [Inhabited α]

/-- The first `n` entries of `l`, filled up with the default value. -/
def padTo (n : Nat) (l : List α) : List α :=
  l.take n ++ List.replicate (n - l.length) default

/-- `l` with `ds` written over it from position `off` on. -/
def overlay (l : List α) (off : Nat) : List α → List α
  | [] => l
  | d :: ds => padTo off l ++ (d :: ds) ++ l.drop (off + (ds.length + 1))

@[simp] theorem length_padTo (n : Nat) (l : List α) : (padTo n l).length = n := by
  simp only [padTo, List.length_append, List.length_take, List.length_replicate]
  omega

theorem getElem?_padTo (n : Nat) (l : List α) (j : Nat) :
    (padTo n l)[j]? = if j < n then some (l.getD j default) else none := by
  unfold padTo
  by_cases hj : j < n
  · rw [if_pos hj, List.getD_eq_getElem?_getD]
    by_cases hl : j < l.length
    · rw [List.getElem?_append_left (by simp; omega), List.getElem?_take_of_lt hj,
          List.getElem?_eq_getElem hl]
      rfl
    · rw [List.getElem?_append_right (by simp; omega), List.getElem?_replicate,
          if_pos (by simp; omega), List.getElem?_eq_none (by omega)]
      rfl
  · rw [if_neg hj]
    apply List.getElem?_eq_none
    simp
    omega

/-! ## Reading an overlay back -/

@[simp] theorem overlay_nil (l : List α) (off : Nat) : overlay l off [] = l := rfl

theorem length_overlay (l : List α) (off : Nat) {ds : List α} (h : ds ≠ []) :
    (overlay l off ds).length = max l.length (off + ds.length) := by
  cases ds with
  | nil => exact absurd rfl h
  | cons d ds =>
    simp only [overlay, List.length_append, length_padTo, List.length_cons, List.length_drop]
    omega

theorem length_le_overlay (l : List α) (off : Nat) (ds : List α) :
    l.length ≤ (overlay l off ds).length := by
  by_cases h : ds = []
  · have hnil : overlay l off ds = l := by rw [h, overlay_nil]
    exact Nat.le_of_eq (by rw [hnil])
  · rw [length_overlay l off h]
    omega

theorem getElem?_overlay (l : List α) (off : Nat) {ds : List α} (h : ds ≠ []) (j : Nat) :
    (overlay l off ds)[j]? =
      if j < off then some (l.getD j default)
      else if j < off + ds.length then ds[j - off]? else l[j]? := by
  cases ds with
  | nil => exact absurd rfl h
  | cons d ds =>
    simp only [overlay, List.append_assoc, List.getElem?_append, length_padTo]
    by_cases h1 : j < off
    · rw [if_pos h1, if_pos h1, getElem?_padTo, if_pos h1]
    rw [if_neg h1, if_neg h1]
    by_cases h2 : j < off + (d :: ds).length
    · rw [if_pos (by omega), if_pos h2]
    · rw [if_neg (by omega), if_neg h2, List.getElem?_drop]
      congr 1
      simp only [List.length_cons] at h2 ⊢
      omega

theorem getElem?_overlay_of_lt (l : List α) (off : Nat) (ds : List α) {j : Nat} (hl : j < l.length)
    (hj : j < off ∨ off + ds.length ≤ j) : (overlay l off ds)[j]? = l[j]? := by
  by_cases h : ds = []
  · rw [h, overlay_nil]
  · rw [getElem?_overlay l off h]
    by_cases h1 : j < off
    · rw [if_pos h1, List.getD_eq_getElem?_getD, List.getElem?_eq_getElem hl]
      rfl
    · rw [if_neg h1, if_neg (by omega)]

theorem getElem?_overlay_inside (l : List α) (off : Nat) (ds : List α) {j : Nat} (h1 : off ≤ j)
    (h2 : j < off + ds.length) : (overlay l off ds)[j]? = ds[j - off]? := by
  have h : ds ≠ [] := by
    intro h0
    rw [h0, List.length_nil] at h2
    omega
  rw [getElem?_overlay l off h, if_neg (by omega), if_pos h2]

theorem take_overlay_zero (l ds : List α) : (overlay l 0 ds).take ds.length = ds := by
  refine List.ext_getElem? fun j => ?_
  by_cases hj : j < ds.length
  · rw [List.getElem?_take_of_lt hj, getElem?_overlay_inside l 0 ds (Nat.zero_le j) (by omega)]
    rfl
  · rw [List.getElem?_eq_none (by rw [List.length_take]; omega), List.getElem?_eq_none (by omega)]

/-! ## Building an overlay up -/

/-- Writing a run is writing its head, then its tail one further on. -/
theorem overlay_cons (l : List α) (off : Nat) (d : α) (ds : List α) :
    overlay (overlay l off [d]) (off + 1) ds = overlay l off (d :: ds) := by
  by_cases h : ds = []
  · rw [h, overlay_nil]
  apply List.ext_getElem?
  intro j
  rw [getElem?_overlay _ _ h, getElem?_overlay l off (by simp : d :: ds ≠ []),
      List.getD_eq_getElem?_getD, getElem?_overlay l off (by simp : [d] ≠ [])]
  by_cases h1 : j < off
  · rw [if_pos (by omega), if_pos h1, if_pos h1]
    rfl
  by_cases h2 : j = off
  · subst h2
    simp
  rw [if_neg (by omega), if_neg h1, if_neg h1]
  simp only [List.length_cons, List.length_nil]
  by_cases h3 : j < off + 1 + ds.length
  · rw [if_pos h3, if_pos (by omega),
        show j - off = (j - (off + 1)) + 1 by omega, List.getElem?_cons_succ]
  · rw [if_neg h3, if_neg (by omega), if_neg (by omega)]

theorem pad_set_eq_overlay (l : List α) (off : Nat) (v : α) :
    (l ++ List.replicate (off + 1 - l.length) default).set off v = overlay l off [v] := by
  apply List.ext_getElem?
  intro j
  rw [getElem?_overlay l off (by simp)]
  rcases Nat.lt_trichotomy j off with hj | hj | hj
  · rw [List.getElem?_set_ne (by omega), if_pos hj, List.getD_eq_getElem?_getD]
    by_cases hl : j < l.length
    · rw [List.getElem?_append_left hl, List.getElem?_eq_getElem hl]
      rfl
    · rw [List.getElem?_append_right (by omega), List.getElem?_replicate,
          if_pos (by omega), List.getElem?_eq_none (by omega)]
      rfl
  · subst hj
    rw [List.getElem?_set_self (by simp; omega)]
    simp
  rw [List.getElem?_set_ne (by omega), if_neg (by omega),
      if_neg (by simp only [List.length_singleton]; omega)]
  by_cases hl : j < l.length
  · rw [List.getElem?_append_left hl]
  · rw [List.getElem?_append_right (by omega), List.getElem?_replicate,
        if_neg (by omega), List.getElem?_eq_none (by omega)]

theorem overlay_length_eq_append (l ds : List α) : overlay l l.length ds = l ++ ds := by
  cases ds with
  | nil => simp
  | cons d ds =>
    simp only [overlay, padTo, List.take_length, Nat.sub_self, List.replicate_zero, List.append_nil]
    rw [List.drop_eq_nil_of_le (by omega), List.append_nil]

end Peos2.Lib
