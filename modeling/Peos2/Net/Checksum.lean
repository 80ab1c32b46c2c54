/-
  Net.Checksum — byte order and the Internet checksum
  (`libraries/net/utils.{h,cc}`, `libraries/net/tcp/utils.cc`).

  The machine is little-endian: `sum_words` adds the bytes of a buffer up as
  little-endian words, and a field passed through `htons` or `htonl` lies in
  memory with its most significant byte first.
-/
import Mathlib.Tactic.Common

namespace Peos2.Net

/-! ## Byte order -/

/-- The bytes of a field stored as `htons(w)`. -/
def be16 (w : UInt16) : List UInt8 := [(w >>> 8).toUInt8, w.toUInt8]

/-- The bytes of a field stored as `htonl(w)`. -/
def be32 (w : UInt32) : List UInt8 :=
  [(w >>> 24).toUInt8, (w >>> 16).toUInt8, (w >>> 8).toUInt8, w.toUInt8]

/-- `ntohs`, `htons` -/
def swap16 (w : UInt16) : UInt16 := (w <<< 8) ||| (w >>> 8)

/-- The little-endian word at `ptr16`. -/
def le16 (b0 b1 : UInt8) : UInt64 := b0.toUInt64 + (b1.toUInt64 <<< 8)

/-- The little-endian word at `ptr32`. -/
def le32 (b0 b1 b2 b3 : UInt8) : UInt64 := le16 b0 b1 + (le16 b2 b3 <<< 16)

/-! ## The checksum -/

/-- `uint64_t sum_words(const char *data, size_t length)` -/
def sumWords : List UInt8 → UInt64
  | b0 :: b1 :: b2 :: b3 :: rest => le32 b0 b1 b2 b3 + sumWords rest
  | [b0, b1, b2] => le16 b0 b1 + (swap16 (b2.toUInt16 <<< 8)).toUInt64
  | [b0, b1] => le16 b0 b1
  | [b0] => (swap16 (b0.toUInt16 <<< 8)).toUInt64
  | [] => 0

/-- The loop `while (sum > 0xFFFF) sum = (sum >> 16) + (sum & 0xFFFF);`. -/
def foldCarries : Nat → UInt64 → UInt64
  | 0, sum => sum
  | fuel + 1, sum =>
    if sum > 0xFFFF then foldCarries fuel ((sum >>> 16) + (sum &&& 0xFFFF)) else sum

/-- `uint16_t checksum(...)` of `net::tcp`, over the pseudo header and two
buffers. -/
def checksum (srcAddr destAddr : UInt32) (protocol : UInt8) (data1 data2 : List UInt8) :
    UInt16 :=
  let hdr := be32 srcAddr ++ be32 destAddr ++ [0, protocol]
    ++ be16 (UInt16.ofNat (data1.length + data2.length))
  ~~~ (foldCarries 5 (sumWords hdr + sumWords data1 + sumWords data2)).toUInt16

theorem toNat_fold (sum : UInt64) :
    ((sum >>> 16) + (sum &&& 0xFFFF)).toNat = sum.toNat / 65536 + sum.toNat % 65536 := by
  have hlt : sum.toNat < 18446744073709551616 := sum.toNat_lt
  have h1 : (sum >>> 16).toNat = sum.toNat / 65536 := by
    exact Nat.shiftRight_eq_div_pow _ _
  have h2 : (sum &&& 0xFFFF).toNat = sum.toNat % 65536 := by
    exact Nat.and_two_pow_sub_one_eq_mod _ 16
  rw [UInt64.toNat_add]
  omega

/-- Five turns are enough. -/
theorem foldCarries_done (sum : UInt64) : (foldCarries 5 sum).toNat ≤ 0xFFFF := by
  have hstep : ∀ (fuel : Nat) (s : UInt64), s.toNat ≤ 0xFFFF → foldCarries fuel s = s := by
    intro fuel s hs
    cases fuel with
    | zero => rfl
    | succ fuel =>
      rw [foldCarries, if_neg]
      exact Nat.not_lt.mpr hs
  have hlt : sum.toNat < 18446744073709551616 := sum.toNat_lt
  -- each turn takes about 16 bits off the bound
  have hturn : ∀ (fuel bound : Nat) (s : UInt64), s.toNat ≤ bound →
      (∀ t : UInt64, t.toNat ≤ bound / 65536 + 65535 → (foldCarries fuel t).toNat ≤ 0xFFFF) →
      (foldCarries (fuel + 1) s).toNat ≤ 0xFFFF := by
    intro fuel bound s hs hnext
    by_cases hbig : s > 0xFFFF
    · rw [foldCarries, if_pos hbig]
      refine hnext _ ?_
      rw [toNat_fold]
      omega
    · rw [gt_iff_lt, UInt64.lt_iff_toNat_lt, show (0xFFFF : UInt64).toNat = 65535 from rfl] at hbig
      rw [hstep (fuel + 1) s (by omega)]
      omega
  refine hturn 4 18446744073709551615 sum (by omega) (fun t1 h1 => ?_)
  refine hturn 3 _ t1 h1 (fun t2 h2 => ?_)
  refine hturn 2 _ t2 h2 (fun t3 h3 => ?_)
  refine hturn 1 _ t3 h3 (fun t4 h4 => ?_)
  -- after four turns the sum is at most 65536, and the fifth turn makes that 1
  by_cases hbig : t4 > 0xFFFF
  · rw [foldCarries, if_pos hbig, foldCarries, toNat_fold]
    omega
  · rw [gt_iff_lt, UInt64.lt_iff_toNat_lt, show (0xFFFF : UInt64).toNat = 65535 from rfl] at hbig
    rw [hstep 1 t4 (by omega)]
    omega

end Peos2.Net
