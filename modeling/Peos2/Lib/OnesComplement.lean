/-
  Lib.OnesComplement — one's-complement sums.

  The words are the numbers `0 … n`, where `n` is the word of all ones, and a carry is
  added back in at the other end. A sum is a sum modulo `n`, except that only words
  that are all `0` add up to `0`. `OnesEq` is equality up to carries.
-/
import Mathlib.Data.Nat.ModEq
import Mathlib.Algebra.BigOperators.Group.List.Basic

namespace Peos2.Lib

/-- Addition with the carry added back in. -/
def endAround (n a b : Nat) : Nat := (a + b) % (n + 1) + (a + b) / (n + 1)

def onesSum (n : Nat) (words : List Nat) : Nat := words.foldl (endAround n) 0

/-- The same sum, up to carries. -/
structure OnesEq (n x y : Nat) : Prop where
  modEq : x ≡ y [MOD n]
  zero_iff : x = 0 ↔ y = 0

variable {n a b c d x y : Nat}

namespace OnesEq

theorem refl (n x : Nat) : OnesEq n x x := ⟨Nat.ModEq.refl x, Iff.rfl⟩

theorem symm (h : OnesEq n a b) : OnesEq n b a := ⟨h.modEq.symm, h.zero_iff.symm⟩

theorem trans (h : OnesEq n a b) (h' : OnesEq n b c) : OnesEq n a c :=
  ⟨h.modEq.trans h'.modEq, h.zero_iff.trans h'.zero_iff⟩

theorem add (h : OnesEq n a b) (h' : OnesEq n c d) : OnesEq n (a + c) (b + d) := by
  refine ⟨h.modEq.add h'.modEq, ?_⟩
  have h1 := h.zero_iff
  have h2 := h'.zero_iff
  omega

theorem mul_left (k : Nat) (h : OnesEq n a b) : OnesEq n (k * a) (k * b) := by
  refine ⟨h.modEq.mul_left k, ?_⟩
  rw [Nat.mul_eq_zero, Nat.mul_eq_zero, h.zero_iff]

theorem mul_base (n x : Nat) : OnesEq n ((n + 1) * x) x := by
  refine ⟨?_, ?_⟩
  · show (n + 1) * x % n = x % n
    rw [Nat.add_mul, Nat.one_mul, Nat.mul_add_mod]
  · rw [Nat.mul_eq_zero]
    omega

theorem eq (h : OnesEq n x y) (hx : x ≤ n) (hy : y ≤ n) : x = y := by
  have hzero := h.zero_iff
  have hmod : x % n = y % n := h.modEq
  by_cases hxn : x = n
  · -- `x` is all ones, so `n` divides `y`, and `y` is `0` only with `x`
    have hdvd : n ∣ y := by
      rw [hxn, Nat.mod_self] at hmod
      exact Nat.dvd_of_mod_eq_zero hmod.symm
    rcases Nat.eq_zero_or_pos y with hy0 | hy0
    · rw [hy0, hzero.mpr hy0]
    · rw [hxn]
      exact Nat.le_antisymm (Nat.le_of_dvd hy0 hdvd) hy
  have hxlt : x < n := by omega
  rw [Nat.mod_eq_of_lt hxlt] at hmod
  by_cases hyn : y = n
  · rw [hyn, Nat.mod_self] at hmod
    rw [hmod, hzero.mp hmod]
  · rw [Nat.mod_eq_of_lt (show y < n by omega)] at hmod
    exact hmod

end OnesEq

theorem onesEq_endAround (n a b : Nat) : OnesEq n (endAround n a b) (a + b) := by
  have hsplit : (n + 1) * ((a + b) / (n + 1)) + (a + b) % (n + 1) = a + b := Nat.div_add_mod _ _
  have hcarry : OnesEq n ((n + 1) * ((a + b) / (n + 1)) + (a + b) % (n + 1))
      ((a + b) / (n + 1) + (a + b) % (n + 1)) :=
    (OnesEq.mul_base n _).add (OnesEq.refl n _)
  rw [hsplit] at hcarry
  rw [endAround, Nat.add_comm ((a + b) % (n + 1))]
  exact hcarry.symm

theorem endAround_le (ha : a ≤ n) (hb : b ≤ n) : endAround n a b ≤ n := by
  unfold endAround
  by_cases hcarry : a + b < n + 1
  · rw [Nat.mod_eq_of_lt hcarry, Nat.div_eq_of_lt hcarry]
    omega
  · have hdiv : (a + b) / (n + 1) = 1 := Nat.div_eq_of_lt_le (by omega) (by omega)
    have hmod : (a + b) % (n + 1) = a + b - (n + 1) := by
      rw [Nat.mod_eq_sub_mod (by omega), Nat.mod_eq_of_lt (by omega)]
    omega

theorem foldl_endAround (words : List Nat) (ha : a ≤ n) (hwords : ∀ w ∈ words, w ≤ n) :
    words.foldl (endAround n) a ≤ n ∧
      OnesEq n (words.foldl (endAround n) a) (a + words.sum) := by
  induction words generalizing a with
  | nil => exact ⟨ha, OnesEq.refl n a⟩
  | cons w words ih =>
    have hw : w ≤ n := hwords w (by simp)
    obtain ⟨hle, heq⟩ := ih (endAround_le ha hw) (fun v hv => hwords v (by simp [hv]))
    refine ⟨hle, heq.trans ?_⟩
    rw [List.sum_cons, ← Nat.add_assoc]
    exact (onesEq_endAround n a w).add (OnesEq.refl n _)

theorem onesSum_le {words : List Nat} (hwords : ∀ w ∈ words, w ≤ n) : onesSum n words ≤ n :=
  (foldl_endAround words (Nat.zero_le n) hwords).1

/-- The one's-complement sum is the sum, up to carries. -/
theorem onesEq_onesSum {words : List Nat} (hwords : ∀ w ∈ words, w ≤ n) :
    OnesEq n (onesSum n words) words.sum := by
  have h := (foldl_endAround words (Nat.zero_le n) hwords).2
  rw [Nat.zero_add] at h
  exact h

end Peos2.Lib
