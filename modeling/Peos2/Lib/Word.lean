/-
  Lib.Word — 32-bit words, read as unsigned and as signed.

  On a 32-bit target `size_t` and `uint32_t` are words modulo 2^32 and `int`
  is the two's complement reading of the same bits. `signed` and `unsigned`
  are the two conversions; `serialDist` is the distance from one word up to
  another, going round the 2^32 border if need be.
-/
import Mathlib.Tactic.Common

namespace Peos2.Lib

/-- The two's complement reading of a word (`(int)u`). -/
def signed (u : UInt32) : Int :=
  if u.toNat < 2147483648 then u.toNat else (u.toNat : Int) - 4294967296

/-- The word with the bits of an `int` (`(size_t)i`). -/
def unsigned (i : Int) : UInt32 := UInt32.ofNat (i % 4294967296).toNat

/-- How far `s` lies above `c`, modulo 2^32. -/
def serialDist (s c : UInt32) : Nat := (s - c).toNat

/-! ## The words as numbers -/

theorem toNat_add_eq (a b : UInt32) : (a + b).toNat = (a.toNat + b.toNat) % 4294967296 := by
  simp

theorem toNat_lt_border (a : UInt32) : a.toNat < 4294967296 := a.toNat_lt

theorem toNat_ofNat_lt {n : Nat} (h : n < 4294967296) : (UInt32.ofNat n).toNat = n := by
  simp only [UInt32.toNat_ofNat']
  omega

variable {a b : UInt32}

theorem eq_iff_toNat : a = b ↔ a.toNat = b.toNat :=
  UInt32.toNat_inj.symm

theorem lt_iff_toNat : a < b ↔ a.toNat < b.toNat :=
  UInt32.lt_iff_toNat_lt

theorem le_iff_toNat : a ≤ b ↔ a.toNat ≤ b.toNat :=
  UInt32.le_iff_toNat_le

/-! ## Conversions -/

theorem toNat_unsigned (i : Int) : (unsigned i).toNat = (i % 4294967296).toNat := by
  have h : (i % 4294967296).toNat < 4294967296 := by omega
  rw [unsigned, toNat_ofNat_lt h]

theorem toNat_unsigned_of_nonneg {i : Int} (h0 : 0 ≤ i) (h1 : i < 4294967296) :
    (unsigned i).toNat = i.toNat := by
  rw [toNat_unsigned]
  omega

theorem signed_of_lt {u : UInt32} (h : u.toNat < 2147483648) : signed u = u.toNat := by
  rw [signed, if_pos h]

theorem signed_of_ge {u : UInt32} (h : 2147483648 ≤ u.toNat) :
    signed u = (u.toNat : Int) - 4294967296 := by
  rw [signed, if_neg (by omega)]

@[simp] theorem unsigned_signed (u : UInt32) : unsigned (signed u) = u := by
  rw [eq_iff_toNat, toNat_unsigned]
  have hu := toNat_lt_border u
  by_cases h : u.toNat < 2147483648
  · rw [signed_of_lt h]
    omega
  · rw [signed_of_ge (by omega)]
    omega

/-! ## Distances -/

theorem serialDist_eq (s c : UInt32) :
    serialDist s c = (s.toNat + (4294967296 - c.toNat)) % 4294967296 := by
  rw [serialDist, UInt32.toNat_sub, Nat.add_comm]

theorem serialDist_lt (s c : UInt32) : serialDist s c < 4294967296 := toNat_lt_border _

theorem serialDist_of_le {s c : UInt32} (h : c.toNat ≤ s.toNat) :
    serialDist s c = s.toNat - c.toNat := by
  have hs := toNat_lt_border s
  rw [serialDist_eq]
  omega

@[simp] theorem serialDist_self (c : UInt32) : serialDist c c = 0 := by
  rw [serialDist_of_le (Nat.le_refl _), Nat.sub_self]

/-! ## Counting from a base -/

theorem toNat_add_ofNat (a : UInt32) (k : Nat) :
    (a + UInt32.ofNat k).toNat = (a.toNat + k) % 4294967296 := by
  rw [toNat_add_eq, UInt32.toNat_ofNat']
  omega

theorem add_ofNat_add (a : UInt32) (k n : Nat) :
    a + UInt32.ofNat k + UInt32.ofNat n = a + UInt32.ofNat (k + n) := by
  rw [eq_iff_toNat, toNat_add_ofNat, toNat_add_ofNat, toNat_add_ofNat]
  omega

theorem ofNat_toNat (a : UInt32) : UInt32.ofNat a.toNat = a := by
  rw [eq_iff_toNat, toNat_ofNat_lt (toNat_lt_border a)]

theorem add_ofNat_inj {a : UInt32} {k r : Nat} (hk : k < 4294967296) (hr : r < 4294967296)
    (h : a + UInt32.ofNat k = a + UInt32.ofNat r) : k = r := by
  rw [eq_iff_toNat, toNat_add_ofNat, toNat_add_ofNat] at h
  omega

theorem serialDist_add_ofNat (a : UInt32) {k r : Nat} (hr : r < 4294967296) :
    serialDist (a + UInt32.ofNat k) (a + UInt32.ofNat r) = (k + (4294967296 - r)) % 4294967296 := by
  rw [serialDist_eq, toNat_add_ofNat, toNat_add_ofNat]
  omega

/-! ## Masks -/

theorem or_and_mask (a b mask : UInt16) : (a ||| b) &&& mask = (a &&& mask) ||| (b &&& mask) := by
  apply UInt16.toNat_inj.mp
  exact Nat.and_or_distrib_right _ _ _

end Peos2.Lib
