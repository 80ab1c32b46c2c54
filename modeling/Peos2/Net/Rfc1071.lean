/-
  Net.Rfc1071 — the checksums against RFC 1071.

  RFC 1071 adds the 16-bit words of one buffer, most significant byte first, in one's
  complement. The code adds 32-bit words, least significant byte first, of up to three
  buffers and folds the carries in at the end. Both differ by carries (`65536` counts as
  `1`) and by an exchange of the bytes of each word, which multiplies by `256`.

  Main result: `checksums_rfc1071`.
-/
import Peos2.Lib.OnesComplement
import Peos2.Ipv4.Protocol

namespace Peos2.Net

open Peos2.Lib List

/-! ## The specification -/

/-- The 16-bit words of a buffer; an odd last byte is padded with zero. -/
def words : List UInt8 → List Nat
  | b0 :: b1 :: rest => (b0.toNat * 256 + b1.toNat) :: words rest
  | [b0] => [b0.toNat * 256]
  | [] => []

/-- The words as a little-endian machine reads them. -/
def hostWords : List UInt8 → List Nat
  | b0 :: b1 :: rest => (b0.toNat + b1.toNat * 256) :: hostWords rest
  | [b0] => [b0.toNat]
  | [] => []

def pseudoHeader (srcAddr destAddr : UInt32) (protocol : UInt8) (length : Nat) : List UInt8 :=
  be32 srcAddr ++ be32 destAddr ++ [0, protocol] ++ be16 (UInt16.ofNat length)

/-- The bytes of a checksum that is stored as it is, on a little-endian machine. -/
def stored16 (sum : UInt16) : List UInt8 := [sum.toUInt8, (sum >>> 8).toUInt8]

theorem words_le (l : List UInt8) : ∀ w ∈ words l, w ≤ 65535 := by
  induction l using words.induct with
  | case1 b0 b1 rest ih =>
    intro w hw
    have h0 : b0.toNat < 256 := b0.toNat_lt
    have h1 : b1.toNat < 256 := b1.toNat_lt
    rw [words, mem_cons] at hw
    rcases hw with hw | hw
    · omega
    · exact ih w hw
  | case2 b0 =>
    intro w hw
    have h0 : b0.toNat < 256 := b0.toNat_lt
    rw [words, mem_singleton] at hw
    omega
  | case3 => intro w hw; cases hw

theorem hostWords_le (l : List UInt8) : ∀ w ∈ hostWords l, w ≤ 65535 := by
  induction l using hostWords.induct with
  | case1 b0 b1 rest ih =>
    intro w hw
    have h0 : b0.toNat < 256 := b0.toNat_lt
    have h1 : b1.toNat < 256 := b1.toNat_lt
    rw [hostWords, mem_cons] at hw
    rcases hw with hw | hw
    · omega
    · exact ih w hw
  | case2 b0 =>
    intro w hw
    have h0 : b0.toNat < 256 := b0.toNat_lt
    rw [hostWords, mem_singleton] at hw
    omega
  | case3 => intro w hw; cases hw

variable {k : Nat} {sum : UInt64}

theorem hostWords_append (l rest : List UInt8) (h : l.length = 2 * k) :
    hostWords (l ++ rest) = hostWords l ++ hostWords rest := by
  induction k generalizing l with
  | zero => rw [eq_nil_of_length_eq_zero h]; rfl
  | succ k ih =>
    match l, h with
    | b0 :: b1 :: l, h =>
      have hlen : l.length = 2 * k := by
        simp only [length_cons] at h
        omega
      show (b0.toNat + b1.toNat * 256) :: hostWords (l ++ rest) = _
      rw [ih l hlen]
      rfl

theorem onesEq_words (l : List UInt8) : OnesEq 65535 (256 * (hostWords l).sum) (words l).sum := by
  induction l using words.induct with
  | case1 b0 b1 rest ih =>
    rw [words, hostWords, sum_cons, Nat.mul_add]
    refine OnesEq.add ?_ ih
    have hsplit : 256 * (b0.toNat + b1.toNat * 256)
        = b0.toNat * 256 + (65535 + 1) * b1.toNat := by omega
    rw [hsplit]
    exact (OnesEq.refl _ _).add (OnesEq.mul_base _ _)
  | case2 b0 =>
    show OnesEq 65535 (256 * (b0.toNat + 0)) (b0.toNat * 256 + 0)
    rw [Nat.add_zero, Nat.add_zero, Nat.mul_comm]
    exact OnesEq.refl _ _
  | case3 => exact OnesEq.refl _ _

/-! ## The words of the machine -/

theorem toNat_le16 (b0 b1 : UInt8) : (le16 b0 b1).toNat = b0.toNat + b1.toNat * 256 := by
  have h0 : b0.toNat < 256 := b0.toNat_lt
  have h1 : b1.toNat < 256 := b1.toNat_lt
  have hshift : (b1.toUInt64 <<< 8).toNat = b1.toNat * 256 := by
    rw [UInt64.toNat_shiftLeft, Nat.shiftLeft_eq]
    show b1.toNat * 256 % 18446744073709551616 = _
    omega
  rw [le16, UInt64.toNat_add, hshift]
  show (b0.toNat + b1.toNat * 256) % 18446744073709551616 = _
  omega

theorem toNat_le32 (b0 b1 b2 b3 : UInt8) :
    (le32 b0 b1 b2 b3).toNat
      = (b0.toNat + b1.toNat * 256) + (65535 + 1) * (b2.toNat + b3.toNat * 256) := by
  have h0 : b0.toNat < 256 := b0.toNat_lt
  have h1 : b1.toNat < 256 := b1.toNat_lt
  have h2 : b2.toNat < 256 := b2.toNat_lt
  have h3 : b3.toNat < 256 := b3.toNat_lt
  have hshift : (le16 b2 b3 <<< 16).toNat = (b2.toNat + b3.toNat * 256) * 65536 := by
    rw [UInt64.toNat_shiftLeft, Nat.shiftLeft_eq, toNat_le16]
    show (b2.toNat + b3.toNat * 256) * 65536 % 18446744073709551616 = _
    omega
  rw [le32, UInt64.toNat_add, hshift, toNat_le16]
  omega

theorem toNat_swap16 (w : UInt16) : (swap16 w).toNat = w.toNat % 256 * 256 + w.toNat / 256 := by
  have hw : w.toNat < 65536 := w.toNat_lt
  have hhigh : (w <<< 8).toNat = (w.toNat % 256) <<< 8 := by
    rw [UInt16.toNat_shiftLeft, Nat.shiftLeft_eq, Nat.shiftLeft_eq]
    show w.toNat * 256 % 65536 = w.toNat % 256 * 256
    omega
  have hlow : (w >>> 8).toNat = w.toNat / 256 := by
    exact Nat.shiftRight_eq_div_pow _ _
  rw [swap16, UInt16.toNat_or, hhigh, hlow,
    ← Nat.shiftLeft_add_eq_or_of_lt (show w.toNat / 256 < 2 ^ 8 by omega), Nat.shiftLeft_eq]

theorem toNat_padded (b : UInt8) : (swap16 (b.toUInt16 <<< 8)).toUInt64.toNat = b.toNat := by
  have hb : b.toNat < 256 := b.toNat_lt
  have hshift : (b.toUInt16 <<< 8).toNat = b.toNat * 256 := by
    rw [UInt16.toNat_shiftLeft, Nat.shiftLeft_eq]
    show b.toNat * 256 % 65536 = _
    omega
  show (swap16 (b.toUInt16 <<< 8)).toNat = _
  rw [toNat_swap16, hshift]
  omega

theorem onesEq_swap16 (w : UInt16) : OnesEq 65535 (swap16 w).toNat (256 * w.toNat) := by
  have hsplit : 256 * w.toNat = w.toNat % 256 * 256 + (65535 + 1) * (w.toNat / 256) := by omega
  rw [toNat_swap16, hsplit]
  exact (OnesEq.refl _ _).add (OnesEq.mul_base _ _).symm

/-! ## The functions -/

/-- `sum_words` adds the 16-bit words. -/
theorem onesEq_sumWords (l : List UInt8) (h : l.length < 4294967296) :
    (sumWords l).toNat ≤ l.length * 1073741824 ∧
      OnesEq 65535 (sumWords l).toNat (hostWords l).sum := by
  induction l using sumWords.induct with
  | case1 b0 b1 b2 b3 rest ih =>
    obtain ⟨_, heq⟩ := ih (by simp only [length_cons] at h; omega)
    have h0 : b0.toNat < 256 := b0.toNat_lt
    have h1 : b1.toNat < 256 := b1.toNat_lt
    have h2 : b2.toNat < 256 := b2.toNat_lt
    have h3 : b3.toNat < 256 := b3.toNat_lt
    have hsum : (sumWords (b0 :: b1 :: b2 :: b3 :: rest)).toNat
        = (le32 b0 b1 b2 b3).toNat + (sumWords rest).toNat := by
      simp only [length_cons] at h
      rw [sumWords, UInt64.toNat_add, toNat_le32]
      omega
    rw [hsum, toNat_le32]
    constructor
    · simp only [length_cons]
      omega
    · show OnesEq 65535 _ (_ + (_ + (hostWords rest).sum))
      rw [← Nat.add_assoc]
      exact ((OnesEq.refl _ _).add (OnesEq.mul_base _ _)).add heq
  | case2 b0 b1 b2 =>
    have h0 : b0.toNat < 256 := b0.toNat_lt
    have h1 : b1.toNat < 256 := b1.toNat_lt
    have h2 : b2.toNat < 256 := b2.toNat_lt
    have hsum : (sumWords [b0, b1, b2]).toNat = b0.toNat + b1.toNat * 256 + (b2.toNat + 0) := by
      rw [sumWords, UInt64.toNat_add, toNat_le16, toNat_padded]
      omega
    rw [hsum]
    constructor
    · show _ ≤ 3 * 1073741824
      omega
    · exact OnesEq.refl _ _
  | case3 b0 b1 =>
    have h0 : b0.toNat < 256 := b0.toNat_lt
    have h1 : b1.toNat < 256 := b1.toNat_lt
    rw [sumWords, toNat_le16]
    constructor
    · show _ ≤ 2 * 1073741824
      omega
    · exact OnesEq.refl _ _
  | case4 b0 =>
    have h0 : b0.toNat < 256 := b0.toNat_lt
    rw [sumWords, toNat_padded]
    constructor
    · show _ ≤ 1 * 1073741824
      omega
    · exact OnesEq.refl _ _
  | case5 => exact ⟨Nat.le_refl 0, OnesEq.refl _ _⟩

theorem onesEq_sumWords_append {l rest : List UInt8} (hl : l.length = 2 * k)
    (hsmall : l.length < 4294967296) (hrest : rest.length < 4294967296) :
    (sumWords l + sumWords rest).toNat = (sumWords l).toNat + (sumWords rest).toNat ∧
      OnesEq 65535 (sumWords l + sumWords rest).toNat (hostWords (l ++ rest)).sum := by
  obtain ⟨_, heq⟩ := onesEq_sumWords l hsmall
  obtain ⟨_, heq'⟩ := onesEq_sumWords rest hrest
  have hsum : (sumWords l + sumWords rest).toNat = (sumWords l).toNat + (sumWords rest).toNat := by
    rw [UInt64.toNat_add]
    omega
  refine ⟨hsum, ?_⟩
  rw [hsum, hostWords_append l rest hl, sum_append]
  exact heq.add heq'

theorem onesEq_foldCarries (fuel : Nat) (sum : UInt64) :
    OnesEq 65535 (foldCarries fuel sum).toNat sum.toNat := by
  induction fuel generalizing sum with
  | zero => exact OnesEq.refl _ _
  | succ fuel ih =>
    rw [foldCarries]
    split
    · refine (ih _).trans ?_
      rw [toNat_fold, Nat.add_comm]
      exact onesEq_endAround 65535 sum.toNat 0
    · exact OnesEq.refl _ _

/-- The loop gives the one's-complement sum. -/
theorem toNat_foldCarries {l : List Nat} (hl : ∀ w ∈ l, w ≤ 65535)
    (h : OnesEq 65535 sum.toNat l.sum) : (foldCarries 5 sum).toUInt16.toNat = onesSum 65535 l := by
  have hdone : (foldCarries 5 sum).toNat ≤ 65535 := foldCarries_done sum
  have hword : (foldCarries 5 sum).toUInt16.toNat = (foldCarries 5 sum).toNat :=
    Nat.mod_eq_of_lt (by omega)
  rw [hword]
  exact (((onesEq_foldCarries 5 sum).trans h).trans (onesEq_onesSum hl).symm).eq hdone
    (onesSum_le hl)

theorem toNat_complement (w : UInt16) : w.toNat + (~~~ w).toNat = 65535 := by
  have hw : w.toNat < 65536 := w.toNat_lt
  rw [UInt16.toNat_not]
  show w.toNat + (65536 - 1 - w.toNat) = 65535
  omega

theorem sum_hostWords_stored (pre post : List UInt8) (hpre : pre.length = 2 * k) (sum : UInt16) :
    (hostWords (pre ++ stored16 sum ++ post)).sum
      = (hostWords (pre ++ [0, 0] ++ post)).sum + sum.toNat := by
  have hsum : sum.toNat < 65536 := sum.toNat_lt
  have hfield : sum.toUInt8.toNat + (sum >>> 8).toUInt8.toNat * 256 = sum.toNat := by
    show sum.toNat % 256 + (sum.toNat >>> 8) % 256 * 256 = _
    omega
  rw [append_assoc, append_assoc, hostWords_append pre _ hpre,
    hostWords_append pre _ hpre, sum_append, sum_append]
  show _ + ((_ + _) + (hostWords post).sum) = _ + ((0 + 0) + (hostWords post).sum) + _
  omega

/-- A stored checksum completes the sum. -/
theorem onesSum_stored {pre post : List UInt8} (hpre : pre.length = 2 * k)
    (h : OnesEq 65535 sum.toNat (hostWords (pre ++ [0, 0] ++ post)).sum) :
    onesSum 65535 (words (pre ++ stored16 (~~~ (foldCarries 5 sum).toUInt16) ++ post))
      = 0xFFFF := by
  have hfold := toNat_foldCarries (hostWords_le _) h
  have hsplit := toNat_complement (foldCarries 5 sum).toUInt16
  generalize (foldCarries 5 sum).toUInt16 = folded at hfold hsplit
  generalize hbuffer : pre ++ stored16 (~~~ folded) ++ post = buffer
  -- in host order the buffer adds up to a word and its complement
  have hhost : OnesEq 65535 (hostWords buffer).sum 65535 := by
    have hrest : OnesEq 65535 (hostWords (pre ++ [0, 0] ++ post)).sum folded.toNat := by
      rw [hfold]
      exact (onesEq_onesSum (hostWords_le _)).symm
    have hboth := hrest.add (OnesEq.refl 65535 (~~~ folded).toNat)
    rw [hsplit, ← sum_hostWords_stored pre post hpre, hbuffer] at hboth
    exact hboth
  -- and exchanging the bytes of all ones gives all ones
  have hwire : OnesEq 65535 (words buffer).sum 65535 := by
    refine (onesEq_words buffer).symm.trans ((hhost.mul_left 256).trans ?_)
    exact ⟨rfl, by decide⟩
  exact ((onesEq_onesSum (words_le buffer)).trans hwire).eq (onesSum_le (words_le buffer))
    (Nat.le_refl _)

theorem toNat_swap16_foldCarries {l : List UInt8} (h : OnesEq 65535 sum.toNat (hostWords l).sum) :
    (swap16 (foldCarries 5 sum).toUInt16).toNat = onesSum 65535 (words l) := by
  have hfold := toNat_foldCarries (hostWords_le l) h
  have hle : (swap16 (foldCarries 5 sum).toUInt16).toNat ≤ 65535 :=
    Nat.le_of_lt_succ (UInt16.toNat_lt _)
  refine OnesEq.eq ?_ hle (onesSum_le (words_le l))
  have hswap := onesEq_swap16 (foldCarries 5 sum).toUInt16
  rw [hfold] at hswap
  refine hswap.trans (((onesEq_onesSum (hostWords_le l)).mul_left 256).trans ?_)
  exact (onesEq_words l).trans (onesEq_onesSum (words_le l)).symm

theorem onesSum_checksum (srcAddr destAddr : UInt32) (protocol : UInt8)
    {pre post payload : List UInt8} (hpre : pre.length = 16) (hpost : post.length = 2)
    (hpayload : payload.length < 4294967296) :
    onesSum 65535 (words (pseudoHeader srcAddr destAddr protocol (20 + payload.length)
        ++ (pre ++ stored16 (checksum srcAddr destAddr protocol (pre ++ [0, 0] ++ post) payload)
          ++ post) ++ payload)) = 0xFFFF := by
  have hlength : (pre ++ [0, 0] ++ post).length = 20 := by simp [hpre, hpost]
  have hpseudo : (pseudoHeader srcAddr destAddr protocol (20 + payload.length)).length = 12 := rfl
  unfold checksum
  simp only [hlength]
  change onesSum 65535 (words (_ ++ (pre ++ stored16 (~~~ (foldCarries 5
    (sumWords (pseudoHeader srcAddr destAddr protocol (20 + payload.length))
      + sumWords _ + _)).toUInt16) ++ post) ++ payload)) = _
  generalize pseudoHeader srcAddr destAddr protocol (20 + payload.length) = pseudo at hpseudo
  have hheader : (pre ++ [0, 0] ++ post).length < 4294967296 := by omega
  obtain ⟨_, heq⟩ := onesEq_sumWords pseudo (by omega)
  obtain ⟨hsum, hrest⟩ := onesEq_sumWords_append (k := 10) hlength hheader hpayload
  -- the three buffers are one, since the first two have an even length
  have hone : OnesEq 65535
      (sumWords pseudo + sumWords (pre ++ [0, 0] ++ post) + sumWords payload).toNat
      (hostWords ((pseudo ++ pre) ++ [0, 0] ++ (post ++ payload))).sum := by
    have hsplit : (pseudo ++ pre) ++ [0, 0] ++ (post ++ payload)
        = pseudo ++ ((pre ++ [0, 0] ++ post) ++ payload) := by simp
    have hall : (sumWords pseudo + (sumWords (pre ++ [0, 0] ++ post) + sumWords payload)).toNat
        = (sumWords pseudo).toNat
          + (sumWords (pre ++ [0, 0] ++ post) + sumWords payload).toNat := by
      have h2 := (onesEq_sumWords _ hheader).1
      have h3 := (onesEq_sumWords payload hpayload).1
      rw [UInt64.toNat_add, hsum]
      omega
    rw [UInt64.add_assoc, hall, hsplit, hostWords_append pseudo _ (k := 6) hpseudo, sum_append]
    exact heq.add hrest
  have hstored := onesSum_stored (k := 14) (by simp [hpseudo, hpre]) hone
  simp only [append_assoc] at hstored ⊢
  exact hstored

end Peos2.Net

namespace Peos2.Ipv4

open Peos2.Lib

theorem Header.bytes_split (header : Header) : ∃ pre post : List UInt8,
    pre.length = 10 ∧ post.length = 8 ∧
      ∀ sum, (header.withChecksum sum).bytes = pre ++ Net.be16 sum ++ post := by
  refine ⟨[header.ihl ||| (header.version <<< 4), header.ecnDscp] ++ Net.be16 header.totalLen
    ++ Net.be16 header.id ++ Net.be16 header.fragOfs ++ [header.ttl, header.protocol],
    Net.be32 header.srcAddr ++ Net.be32 header.destAddr, rfl, rfl, fun sum => ?_⟩
  rfl

theorem be16_swap16 (sum : UInt16) : Net.be16 (Net.swap16 sum) = Net.stored16 sum := by
  have hsum : sum.toNat < 65536 := sum.toNat_lt
  have hswap := Net.toNat_swap16 sum
  have hhigh : (Net.swap16 sum >>> 8).toUInt8 = sum.toUInt8 := by
    apply UInt8.toNat.inj
    show ((Net.swap16 sum).toNat >>> 8) % 256 = sum.toNat % 256
    have hquot : (Net.swap16 sum).toNat / 256 = sum.toNat % 256 := by
      rw [hswap, Nat.add_comm, Nat.add_mul_div_right _ _ (by decide : 0 < 256),
        Nat.div_eq_of_lt (by omega), Nat.zero_add]
    rw [Nat.shiftRight_eq_div_pow, show (2 : Nat) ^ 8 = 256 from rfl, hquot, Nat.mod_mod]
  have hlow : (Net.swap16 sum).toUInt8 = (sum >>> 8).toUInt8 := by
    apply UInt8.toNat.inj
    show (Net.swap16 sum).toNat % 256 = (sum.toNat >>> 8) % 256
    omega
  rw [Net.be16, hhigh, hlow, Net.stored16]

theorem onesSum_checksum {header : Header} {options : List UInt8} (hzero : header.checksum = 0)
    (hoptions : options.length < 4294967296) :
    onesSum 65535 (Net.words ((header.withChecksum (Net.swap16 (header.sum options))).bytes
      ++ options)) = 0xFFFF := by
  obtain ⟨pre, post, hpre, _, hbytes⟩ := header.bytes_split
  have hself : header.bytes = pre ++ [0, 0] ++ post := by
    have h := hbytes 0
    have hsame : header.withChecksum 0 = header := by
      rw [Header.withChecksum, ← hzero]
    rw [hsame] at h
    rw [h]
    rfl
  have hlength : header.bytes.length = 20 := rfl
  have hone : OnesEq 65535 (Net.sumWords header.bytes + Net.sumWords options).toNat
      (Net.hostWords (pre ++ [0, 0] ++ (post ++ options))).sum := by
    rw [← List.append_assoc, ← hself]
    exact (Net.onesEq_sumWords_append (k := 10) hlength (by omega) hoptions).2
  have hstored := Net.onesSum_stored (k := 5) hpre hone
  rw [hbytes, be16_swap16, Header.sum, List.append_assoc (pre ++ _)]
  exact hstored

end Peos2.Ipv4

namespace Peos2.Net

open Peos2.Lib

/-! ## RFC 1071 -/

/-- **The checksums are RFC 1071's.** The folded sum of a buffer is the one's-complement sum of
its words, as the machine reads them and, after `ntohs`, in network order. A checksum stored in
the zero field of its header makes the sum of what the receiver adds up all ones. -/
theorem checksums_rfc1071 :
    (∀ l : List UInt8, l.length < 4294967296 →
      (foldCarries 5 (sumWords l)).toNat = onesSum 65535 (hostWords l) ∧
      (swap16 (foldCarries 5 (sumWords l)).toUInt16).toNat = onesSum 65535 (words l)) ∧
    (∀ (srcAddr destAddr : UInt32) (protocol : UInt8) (pre post payload : List UInt8),
      pre.length = 16 → post.length = 2 → payload.length < 4294967296 →
      onesSum 65535 (words (pseudoHeader srcAddr destAddr protocol (20 + payload.length)
        ++ (pre ++ stored16 (checksum srcAddr destAddr protocol (pre ++ [0, 0] ++ post) payload)
          ++ post) ++ payload)) = 0xFFFF) ∧
    (∀ (header : Ipv4.Header) (options : List UInt8),
      header.checksum = 0 → options.length < 4294967296 →
      ∃ sum, Ipv4.checksum header options = .ok sum ∧
        onesSum 65535 (words ((header.withChecksum (swap16 sum)).bytes ++ options)) = 0xFFFF) := by
  refine ⟨fun l hl => ⟨?_, ?_⟩, ?_, ?_⟩
  · have heq := (onesEq_sumWords l hl).2
    exact (((onesEq_foldCarries 5 _).trans heq).trans (onesEq_onesSum (hostWords_le l)).symm).eq
      (foldCarries_done _) (onesSum_le (hostWords_le l))
  · exact toNat_swap16_foldCarries (onesEq_sumWords l hl).2
  · intro srcAddr destAddr protocol pre post payload hpre hpost hpayload
    exact onesSum_checksum srcAddr destAddr protocol hpre hpost hpayload
  · intro header options hzero hoptions
    exact ⟨_, Ipv4.checksum_eq options hzero, Ipv4.onesSum_checksum hzero hoptions⟩

/-- A buffer of three bytes, a segment of one byte and a header of an echo
request with options. -/
theorem checksums_rfc1071_odd :
    (swap16 (foldCarries 5 (sumWords [0x12, 0x34, 0x56])).toUInt16).toNat
      = onesSum 65535 (words [0x12, 0x34, 0x56]) ∧
    onesSum 65535 (words (pseudoHeader 0x0A000002 0x0A000001 6 (20 + [(0x61 : UInt8)].length)
      ++ (List.replicate 16 0x7F ++ stored16 (checksum 0x0A000002 0x0A000001 6
        (List.replicate 16 0x7F ++ [0, 0] ++ [0, 0]) [0x61]) ++ [0, 0]) ++ [0x61])) = 0xFFFF ∧
    ∃ sum, Ipv4.checksum ⟨6, 4, 0, 32, 7, 0, 64, 1, 0, 0x0A000001, 0x0A000002⟩ [1, 1, 1, 0]
        = .ok sum ∧
      onesSum 65535 (words ((Ipv4.Header.withChecksum
        ⟨6, 4, 0, 32, 7, 0, 64, 1, 0, 0x0A000001, 0x0A000002⟩ (swap16 sum)).bytes
          ++ [1, 1, 1, 0])) = 0xFFFF :=
  ⟨(checksums_rfc1071.1 _ (by decide)).2,
    checksums_rfc1071.2.1 _ _ _ _ _ _ (by decide) (by decide) (by decide),
    checksums_rfc1071.2.2 _ _ rfl (by decide)⟩

end Peos2.Net
