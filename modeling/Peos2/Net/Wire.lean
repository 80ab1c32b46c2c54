/-
  Net.Wire — fields of a packet in network byte order.

  A header is copied out of the packet and each field is passed through
  `ntohs` or `ntohl`, so a field reads its bytes with the most significant
  one first.
-/
import Peos2.Net.Checksum
import Peos2.Support.RingBuffer

namespace Peos2.Net

open Peos2.Support List

/-! ## Fields -/

/-- `ntohs` of the 16 bits at `data + i`. -/
def field16 (data : Bytes) (i : Nat) : UInt16 :=
  ((data i).toUInt16 <<< 8) ||| (data (i + 1)).toUInt16

/-- `ntohl` of the 32 bits at `data + i`. -/
def field32 (data : Bytes) (i : Nat) : UInt32 :=
  ((data i).toUInt32 <<< 24) ||| ((data (i + 1)).toUInt32 <<< 16)
    ||| ((data (i + 2)).toUInt32 <<< 8) ||| (data (i + 3)).toUInt32

/-- `data + n` -/
def advance (data : Bytes) (n : Nat) : Bytes := fun i => data (n + i)

theorem toNat_field16 (data : Bytes) (i : Nat) :
    (field16 data i).toNat = (data i).toNat * 256 + (data (i + 1)).toNat := by
  have hhigh : (data i).toNat < 256 := (data i).toNat_lt
  have hlow : (data (i + 1)).toNat < 256 := (data (i + 1)).toNat_lt
  have hshift : ((data i).toUInt16 <<< 8).toNat = (data i).toNat <<< 8 := by
    show (data i).toNat <<< 8 % 65536 = _
    omega
  unfold field16
  rw [UInt16.toNat_or, hshift]
  show (data i).toNat <<< 8 ||| (data (i + 1)).toNat = _
  rw [← Nat.shiftLeft_add_eq_or_of_lt hlow, Nat.shiftLeft_eq]

theorem toNat_field32 (data : Bytes) (i : Nat) :
    (field32 data i).toNat = (data i).toNat * 16777216 + (data (i + 1)).toNat * 65536
      + (data (i + 2)).toNat * 256 + (data (i + 3)).toNat := by
  have h1 : (data (i + 1)).toNat < 256 := (data (i + 1)).toNat_lt
  have h2 : (data (i + 2)).toNat < 256 := (data (i + 2)).toNat_lt
  have h3 : (data (i + 3)).toNat < 256 := (data (i + 3)).toNat_lt
  have hshift : ∀ (b : UInt8) (k : Nat) (w : UInt32), w.toNat = k → k ≤ 24 →
      (b.toUInt32 <<< w).toNat = b.toNat <<< k := by
    intro b k w hw hk
    have hb : b.toNat < 256 := b.toNat_lt
    have hpow : 2 ^ k ≤ 2 ^ 24 := Nat.pow_le_pow_right (by decide) hk
    have hlt : b.toNat * 2 ^ k < 4294967296 := by
      calc b.toNat * 2 ^ k ≤ 255 * 2 ^ 24 := Nat.mul_le_mul (by omega) hpow
        _ < 4294967296 := by decide
    rw [UInt32.toNat_shiftLeft, hw, Nat.mod_eq_of_lt (show k < 32 by omega),
      UInt8.toNat_toUInt32, Nat.shiftLeft_eq]
    exact Nat.mod_eq_of_lt hlt
  unfold field32
  rw [UInt32.toNat_or, UInt32.toNat_or, UInt32.toNat_or, hshift _ 24 _ rfl (by decide),
    hshift _ 16 _ rfl (by decide), hshift _ 8 _ rfl (by decide), UInt8.toNat_toUInt32]
  -- each byte lies below the ones before it
  have hor : ∀ a b k : Nat, b < 2 ^ k → a <<< k ||| b = a * 2 ^ k + b := by
    intro a b k hb
    rw [← Nat.shiftLeft_add_eq_or_of_lt hb, Nat.shiftLeft_eq]
  have e1 : (data i).toNat <<< 24 ||| (data (i + 1)).toNat <<< 16
      = ((data i).toNat * 256 + (data (i + 1)).toNat) <<< 16 := by
    rw [hor _ _ 24 (by rw [Nat.shiftLeft_eq]; omega), Nat.shiftLeft_eq, Nat.shiftLeft_eq]
    omega
  have e2 : ((data i).toNat * 256 + (data (i + 1)).toNat) <<< 16 ||| (data (i + 2)).toNat <<< 8
      = (((data i).toNat * 256 + (data (i + 1)).toNat) * 256 + (data (i + 2)).toNat) <<< 8 := by
    rw [hor _ _ 16 (by rw [Nat.shiftLeft_eq]; omega), Nat.shiftLeft_eq, Nat.shiftLeft_eq]
    omega
  rw [e1, e2, hor _ _ 8 h3]
  omega

/-! ## What was stored is read back -/

theorem field16_be16 {data : Bytes} {i : Nat} {w : UInt16} (h0 : data i = (w >>> 8).toUInt8)
    (h1 : data (i + 1) = w.toUInt8) : field16 data i = w := by
  have hw : w.toNat < 65536 := w.toNat_lt
  apply UInt16.toNat.inj
  rw [toNat_field16, h0, h1]
  show (w.toNat >>> 8) % 256 * 256 + w.toNat % 256 = w.toNat
  omega

theorem field32_be32 {data : Bytes} {i : Nat} {w : UInt32} (h0 : data i = (w >>> 24).toUInt8)
    (h1 : data (i + 1) = (w >>> 16).toUInt8) (h2 : data (i + 2) = (w >>> 8).toUInt8)
    (h3 : data (i + 3) = w.toUInt8) : field32 data i = w := by
  have hw : w.toNat < 4294967296 := w.toNat_lt
  apply UInt32.toNat.inj
  rw [toNat_field32, h0, h1, h2, h3]
  show (w.toNat >>> 24) % 256 * 16777216 + (w.toNat >>> 16) % 256 * 65536
    + (w.toNat >>> 8) % 256 * 256 + w.toNat % 256 = w.toNat
  omega

theorem first_advance (data : Bytes) (n k : Nat) :
    (advance data n).first k = (data.first (n + k)).drop n := by
  apply ext_getElem?
  intro i
  rw [getElem?_drop]
  by_cases hi : i < k
  · rw [Bytes.getElem?_first _ hi, Bytes.getElem?_first _ (by omega)]
    rfl
  · rw [getElem?_eq_none (by rw [Bytes.length_first]; omega),
      getElem?_eq_none (by rw [Bytes.length_first]; omega)]

theorem first_ofList (l : List UInt8) : (Bytes.ofList l).first l.length = l := by
  apply ext_getElem?
  intro i
  by_cases hi : i < l.length
  · rw [Bytes.getElem?_first _ hi]
    show some (l.getD i 0) = _
    rw [getD_eq_getElem?_getD, getElem?_eq_getElem hi]
    rfl
  · rw [getElem?_eq_none (by rw [Bytes.length_first]; omega), getElem?_eq_none (by omega)]

theorem first_advance_ofList (head payload : List UInt8) :
    (advance (Bytes.ofList (head ++ payload)) head.length).first payload.length = payload := by
  rw [first_advance, ← length_append, first_ofList, drop_left]

end Peos2.Net
