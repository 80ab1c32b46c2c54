/-
  Lib.Cyclic — a window onto an array used in a circle.

  Entry `i` of a queue that starts at position `r` of an array of `cap` slots sits in
  slot `(r + i) % cap`; `window items cap r n` is the list of the first `n` entries.
  Storing behind the last entry appends, advancing the start drops entries, storing
  inside replaces.
-/
import Mathlib.Data.List.Basic
import Mathlib.Data.Nat.ModEq

namespace Peos2.Lib

variable {α : Type}

def storeAt (items : Nat → α) (i : Nat) (v : α) : Nat → α :=
  fun j => if j = i then v else items j

/-- The first `n` entries of the circular array that starts at `r`. -/
def window (items : Nat → α) (cap r n : Nat) : List α :=
  (List.range n).map fun i => items ((r + i) % cap)

@[simp] theorem storeAt_self (items : Nat → α) (i : Nat) (v : α) :
    storeAt items i v i = v := if_pos rfl

variable {i cap r n : Nat}

theorem storeAt_ne (items : Nat → α) {j : Nat} (v : α) (h : j ≠ i) :
    storeAt items i v j = items j := if_neg h

theorem storeAt_storeAt (items : Nat → α) (i : Nat) (v w : α) :
    storeAt (storeAt items i v) i w = storeAt items i w := by
  funext j
  unfold storeAt
  split <;> rfl

/-! ## Slots -/

theorem slot_inj {j : Nat} (hi : i < cap) (hj : j < cap) (h : (r + i) % cap = (r + j) % cap) :
    i = j := by
  have hm : i ≡ j [MOD cap] := Nat.ModEq.add_left_cancel' r h
  exact Nat.ModEq.eq_of_lt_of_lt hm hi hj

/-! ## Windows -/

section

variable (items : Nat → α)

include items

@[simp] theorem length_window (cap r n : Nat) :
    (window items cap r n).length = n := by
  simp [window]

theorem getElem?_window (cap r : Nat) (h : i < n) :
    (window items cap r n)[i]? = some (items ((r + i) % cap)) := by
  simp [window, h]

theorem window_succ (cap r n : Nat) :
    window items cap r (n + 1) = window items cap r n ++ [items ((r + n) % cap)] := by
  simp [window, List.range_succ]

theorem window_cons (cap r n : Nat) :
    window items cap r (n + 1) = items (r % cap) :: window items cap (r + 1) n := by
  simp only [window, List.range_succ_eq_map, List.map_cons, List.map_map, Nat.add_zero]
  congr 1
  apply List.map_congr_left
  intro i _
  simp only [Function.comp_apply, Nat.succ_eq_add_one]
  congr 2
  omega

theorem window_sub_mul (cap r k n : Nat) (h : k * cap ≤ r) :
    window items cap (r - k * cap) n = window items cap r n := by
  apply List.map_congr_left
  intro i _
  have hr : r + i = (r - k * cap + i) + cap * k := by
    rw [Nat.mul_comm cap k]
    omega
  rw [hr, Nat.add_mul_mod_self_left]

theorem drop_window (cap r n k : Nat) :
    (window items cap r n).drop k = window items cap (r + k) (n - k) := by
  induction k generalizing r n with
  | zero => rfl
  | succ k ih =>
    cases n with
    | zero => simp [window]
    | succ n =>
      rw [window_cons, List.drop_succ_cons, ih, Nat.add_right_comm, Nat.add_sub_add_right]
      rfl

theorem window_store (v : α) (hn : n ≤ cap) (hi : i < n) :
    window (storeAt items ((r + i) % cap) v) cap r n = (window items cap r n).set i v := by
  apply List.ext_getElem?
  intro j
  by_cases hj : j < n
  · rw [getElem?_window _ _ _ hj, List.getElem?_set, length_window]
    by_cases hij : i = j
    · subst hij
      rw [storeAt_self, if_pos rfl, if_pos hi]
    · rw [if_neg hij, getElem?_window _ _ _ hj, storeAt_ne]
      intro hs
      exact hij (slot_inj (by omega) (by omega) hs.symm)
  · rw [List.getElem?_eq_none (by simpa using hj), List.getElem?_eq_none (by simpa using hj)]

theorem window_store_outside (v : α) (hi : i < cap) (hn : n ≤ i) :
    window (storeAt items ((r + i) % cap) v) cap r n = window items cap r n := by
  apply List.map_congr_left
  intro j hj
  rw [List.mem_range] at hj
  apply storeAt_ne
  intro hs
  have := slot_inj (by omega) hi hs
  omega

/-- Storing behind the last entry and counting it in appends it. -/
theorem window_store_back (v : α) (hn : n < cap) :
    window (storeAt items ((r + n) % cap) v) cap r (n + 1) = window items cap r n ++ [v] := by
  rw [window_succ, window_store_outside items v hn (Nat.le_refl n), storeAt_self]

end

end Peos2.Lib
