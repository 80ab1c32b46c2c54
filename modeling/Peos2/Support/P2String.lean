/-
  Support.P2String — `p2::string` (`libraries/support/string.h`,
  `libraries/support/string.cc`): appending a number.

  The number is padded to its width first; its digits are then written over the
  padding, from the last one on, until nothing is left of the value.

  Main result: `append_exact`.
-/
import Mathlib.Data.Nat.Digits.Lemmas
import Peos2.Lib.Checked

namespace Peos2.Support

open Peos2.Lib List

/-- `char digit_as_char(int digit, int radix)` -/
def digitAsChar (digit radix : Nat) : UInt8 :=
  if radix = 10 then UInt8.ofNat (48 + digit)
  else if radix = 16 then
    if digit < 10 then UInt8.ofNat (48 + digit) else UInt8.ofNat (65 + digit - 10)
  else 63

/-- `p2::string<_MaxLen>`: its characters, `_position` many; a NUL is kept behind them. -/
structure P2String (maxLen : Nat) where
  text : List UInt8

namespace P2String

variable {maxLen : Nat}

/-! ## The class -/

/-- `string &append(char c)` -/
def appendChar (s : P2String maxLen) (c : UInt8) : Checked (P2String maxLen) := do
  check (decide (s.text.length + 1 < maxLen)) "_position + 1 < _MaxLen && \"buffer overrun\""
  .ok ⟨s.text ++ [c]⟩

/-- The loop that counts digits; a `uint64_t` has 64 at most. -/
def countDigits (radix : Nat) : Nat → Nat → Nat → Checked Nat
  | 0, _, _ => .error .outOfFuel
  | fuel + 1, valueLeft, width =>
    if valueLeft = 0 then .ok width else countDigits radix fuel (valueLeft / radix) (width + 1)

/-- The loop that appends `n` characters of padding. -/
def appendPadding (padding : UInt8) : Nat → P2String maxLen → Checked (P2String maxLen)
  | 0, s => .ok s
  | n + 1, s => do
      let s ← s.appendChar padding
      appendPadding padding n s

/-- The loop that writes digits, to `n` characters from `start` on; the last is
written first. -/
def writeDigits (radix start : Nat) : Nat → Nat → List UInt8 → List UInt8
  | 0, _, text => text
  | n + 1, value, text =>
    let text := text.set (start + n) (digitAsChar (value % radix) radix)
    if value / radix = 0 then text else writeDigits radix start n (value / radix) text

/-- The width that is padded to: -1 asks for the number of digits. -/
def fieldWidth (value : UInt64) (width : Int) (radix : Nat) : Checked Nat :=
  if width = -1 then countDigits radix 65 (value.toNat / radix) 1 else .ok width.toNat

/-- `string &append(uint64_t value, int width, int radix, char padding)` -/
def append (s : P2String maxLen) (value : UInt64) (width : Int) (radix : Nat) (padding : UInt8) :
    Checked (P2String maxLen) := do
  let width ← fieldWidth value width radix
  let padded ← appendPadding padding width s
  .ok ⟨writeDigits radix s.text.length (padded.text.length - s.text.length) value.toNat padded.text⟩

/-! ## Digits -/

/-- The digits that denote a number, the first one first. -/
def numeral (radix value : Nat) : List Nat := (radix.digits (value / radix)).reverse ++ [value % radix]

def denoted (radix : Nat) (digits : List Nat) : Nat := Nat.ofDigits radix digits.reverse

def charAsDigit (c : UInt8) : Nat := if c.toNat < 58 then c.toNat - 48 else c.toNat - 55

variable {radix value : Nat} {s : P2String maxLen}

theorem numeral_of_div_eq_zero (h : value / radix = 0) : numeral radix value = [value % radix] := by
  rw [numeral, h, Nat.digits_zero]
  rfl

theorem numeral_of_div_ne_zero (hradix : 1 < radix) (h : value / radix ≠ 0) :
    numeral radix value = numeral radix (value / radix) ++ [value % radix] := by
  unfold numeral
  rw [Nat.digits_def' hradix (Nat.pos_of_ne_zero h), reverse_cons]

theorem denoted_numeral (radix value : Nat) : denoted radix (numeral radix value) = value := by
  unfold denoted numeral
  rw [reverse_append, reverse_reverse, reverse_singleton, singleton_append, Nat.ofDigits_cons,
    Nat.ofDigits_digits]
  exact Nat.mod_add_div value radix

theorem numeral_lt (hradix : 1 < radix) : ∀ d ∈ numeral radix value, d < radix := by
  intro d hd
  rcases mem_append.mp hd with hd | hd
  · exact Nat.digits_lt_base hradix (mem_reverse.mp hd)
  · rw [mem_singleton.mp hd]
    exact Nat.mod_lt _ (by omega)

/-- No shorter digits denote the number. -/
theorem numeral_shortest (hradix : 1 < radix) {digits : List Nat} (hne : digits ≠ [])
    (hlt : ∀ d ∈ digits, d < radix) (hvalue : denoted radix digits = value) :
    (numeral radix value).length ≤ digits.length := by
  have hpos := length_pos_of_ne_nil hne
  have hbound : value < radix ^ digits.length := by
    rw [← hvalue, ← length_reverse]
    exact Nat.ofDigits_lt_base_pow_length hradix fun d hd => hlt d (mem_reverse.mp hd)
  have hdiv : value / radix < radix ^ (digits.length - 1) := by
    refine Nat.div_lt_of_lt_mul ?_
    rw [← Nat.pow_succ', Nat.succ_eq_add_one, Nat.sub_add_cancel hpos]
    exact hbound
  have hlen := (Nat.digits_length_le_iff hradix _).mpr hdiv
  unfold numeral
  rw [length_append, length_reverse, length_singleton]
  omega

theorem countDigits_eq (hradix : 1 < radix) {fuel valueLeft : Nat} (width : Nat)
    (h : valueLeft < radix ^ fuel) : countDigits radix (fuel + 1) valueLeft width
      = .ok (width + (radix.digits valueLeft).length) := by
  induction fuel generalizing valueLeft width with
  | zero =>
    rw [show valueLeft = 0 by rw [Nat.pow_zero] at h; omega, Nat.digits_zero]
    rfl
  | succ fuel ih =>
    rw [countDigits]
    split
    next hzero =>
      rw [hzero, Nat.digits_zero]
      rfl
    next hne =>
      rw [ih (width + 1) (Nat.div_lt_of_lt_mul (by rwa [← Nat.pow_succ'])),
        Nat.digits_def' hradix (Nat.pos_of_ne_zero hne), length_cons]
      congr 1
      omega

theorem charAsDigit_digitAsChar (hradix : radix = 10 ∨ radix = 16) {d : Nat} (hd : d < radix) :
    charAsDigit (digitAsChar d radix) = d := by
  rcases hradix with rfl | rfl
  · interval_cases d <;> rfl
  · interval_cases d <;> rfl

/-! ## Appending -/

theorem appendPadding_eq (padding : UInt8) {n : Nat} (hroom : s.text.length + n < maxLen) :
    appendPadding padding n s = .ok ⟨s.text ++ replicate n padding⟩ := by
  induction n generalizing s with
  | zero =>
    rw [replicate_zero, append_nil]
    rfl
  | succ n ih =>
    rw [appendPadding, appendChar, decide_eq_true (by omega), check_true, ok_bind, ok_bind,
      ih (by rw [length_append, length_singleton]; omega), append_assoc, replicate_succ]
    rfl

/-- The digits are written over the last characters, and over nothing else. -/
theorem writeDigits_eq (hradix : 1 < radix) (before after : List UInt8) (value : Nat)
    {n : Nat} {pad : List UInt8} (hpad : pad.length = n)
    (hlen : (numeral radix value).length ≤ n) :
    writeDigits radix before.length n value (before ++ (pad ++ after))
      = before ++ (pad.take (n - (numeral radix value).length)
        ++ ((numeral radix value).map (digitAsChar · radix) ++ after)) := by
  induction n generalizing value pad after with
  | zero => simp [numeral] at hlen
  | succ n ih =>
    obtain ⟨pad, c, rfl⟩ : ∃ pad' c, pad = pad' ++ [c] := by
      rcases eq_nil_or_concat pad with rfl | ⟨pad', c, hc⟩
      · cases hpad
      · exact ⟨pad', c, hc.trans concat_eq_append⟩
    have hn : pad.length = n := by simpa using hpad
    have hset : (before ++ (pad ++ [c] ++ after)).set (before.length + n)
        (digitAsChar (value % radix) radix)
        = before ++ (pad ++ (digitAsChar (value % radix) radix :: after)) := by
      simp [hn]
    rw [writeDigits, hset]
    split
    next hzero =>
      rw [numeral_of_div_eq_zero hzero, take_append_of_le_length (by simp [hn])]
      simp [hn]
    next hmore =>
      rw [numeral_of_div_ne_zero hradix hmore] at hlen ⊢
      rw [length_append, length_singleton] at hlen
      rw [ih _ _ hn (by omega), take_append_of_le_length (by simp; omega)]
      simp

/-- **A number is appended exactly**: the padding and the shortest digits that denote it,
and a reader gets it back from them. -/
theorem append_exact (hradix : radix = 10 ∨ radix = 16) (value : UInt64) (width : Int) (w : Nat)
    (padding : UInt8) (hwidth : (width = -1 ∧ w = (numeral radix value.toNat).length)
      ∨ (width = w ∧ (numeral radix value.toNat).length ≤ w)) (hroom : s.text.length + w < maxLen) :
    s.append value width radix padding
        = .ok ⟨s.text ++ (replicate (w - (numeral radix value.toNat).length) padding
          ++ (numeral radix value.toNat).map (digitAsChar · radix))⟩
    ∧ denoted radix (((numeral radix value.toNat).map (digitAsChar · radix)).map charAsDigit)
      = value.toNat
    ∧ ∀ digits, digits ≠ [] → (∀ d ∈ digits, d < radix) → denoted radix digits = value.toNat →
      (numeral radix value.toNat).length ≤ digits.length := by
  have hbase : 1 < radix := by omega
  have hcount : fieldWidth value width radix = .ok w := by
    unfold fieldWidth
    rcases hwidth with ⟨rfl, rfl⟩ | ⟨rfl, _⟩
    · have hsmall : value.toNat / radix < radix ^ 64 :=
        calc value.toNat / radix ≤ value.toNat := Nat.div_le_self _ _
          _ < 2 ^ 64 := value.toNat_lt
          _ ≤ radix ^ 64 := Nat.pow_le_pow_left hbase 64
      rw [if_pos rfl, countDigits_eq hbase 1 hsmall, numeral, length_append, length_reverse,
        length_singleton, Nat.add_comm]
    · rw [if_neg (by omega), Int.toNat_natCast]
  refine ⟨?_, ?_, fun digits hne hlt hvalue => numeral_shortest hbase hne hlt hvalue⟩
  · have hwrite := writeDigits_eq hbase s.text [] value.toNat (length_replicate (a := padding))
      (show _ ≤ w by omega)
    rw [append_nil, append_nil, take_replicate, Nat.min_eq_left (Nat.sub_le _ _)] at hwrite
    rw [append, hcount, ok_bind, appendPadding_eq padding hroom, ok_bind, length_append,
      length_replicate, Nat.add_sub_cancel_left, hwrite]
  · rw [map_map, map_congr_left (g := id), map_id, denoted_numeral]
    intro d hd
    exact charAsDigit_digitAsChar hradix (numeral_lt hbase d hd)

/-- 255 in four hexadecimal digits, behind `0x`. -/
theorem append_exact_address : (⟨[48, 120]⟩ : P2String 8).append 255 4 16 48
    = .ok ⟨[48, 120, 48, 48, 70, 70]⟩ :=
  (append_exact (.inr rfl) 255 4 4 48 (.inr ⟨rfl, by decide⟩) (by decide)).1

end P2String

end Peos2.Support
