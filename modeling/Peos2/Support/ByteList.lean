/-
  Support.ByteList — `p2::ring_buffer` over whole histories: it is a bounded list of
  bytes.

  The list is written at an offset and read from the front. A write succeeds when it
  ends inside the capacity; it pads the list with zero bytes up to its offset, and a
  write of nothing changes nothing.

  Main result: `refines_byteList`.
-/
import Peos2.Lib.Simulation
import Peos2.Support.RingBuffer

namespace Peos2.Support

open Peos2.Lib

/-! ## The calls -/

/-- The calls on a ring buffer; the offset -1 of a write appends. -/
inductive RingCall where
  | write (data : Bytes) (length : UInt32) (offset : Int)
  | readFront (maxLength : UInt32)
  | peek (start length : Int)
  | consume (maxLength : UInt32)
  | clear

/-- What a call returns; bytes copied out are returned with it. -/
inductive RingReply where
  | wrote (success : Bool)
  | copied (bytes : List UInt8)
  | dropped (count : Nat)
  | cleared
  deriving Repr, DecidableEq

/-- The arguments a call may have on a buffer of this capacity. -/
def RingCall.Permitted (maxLen : Nat) : RingCall → Prop
  | .write _ length offset => length.toNat ≤ maxLen ∧ (offset = -1 ∨ 0 ≤ offset ∧ offset ≤ maxLen)
  | .peek start length => (0 ≤ start ∧ start ≤ maxLen) ∧ 0 ≤ length ∧ length ≤ maxLen
  | .readFront _ | .consume _ | .clear => True

instance (maxLen : Nat) (c : RingCall) : Decidable (c.Permitted maxLen) :=
  match c with
  | .write _ _ _ | .peek _ _ => inferInstanceAs (Decidable (_ ∧ _))
  | .readFront _ | .consume _ | .clear => .isTrue trivial

namespace RingBuffer

variable {maxLen : Nat}

/-- `ring_buffer()`: only the indices are initialised. -/
def Constructed (b : RingBuffer maxLen) : Prop := b.queue.readIdx = 0 ∧ b.queue.writeIdx = 0

def apply (b : RingBuffer maxLen) : RingCall → Checked (RingReply × RingBuffer maxLen)
  | .write data length offset => do
      let (success, b) ← b.write data length offset
      .ok (.wrote success, b)
  | .readFront maxLength => do
      let (bytes, b) ← b.readFront maxLength
      .ok (.copied bytes, b)
  | .peek start length => do
      let bytes ← b.peek start length
      .ok (.copied bytes, b)
  | .consume maxLength => do
      let (count, b) ← b.consume maxLength
      .ok (.dropped count.toNat, b)
  | .clear => .ok (.cleared, b.clear)

end RingBuffer

/-! ## The list -/

/-- The list with `ds` at the positions from `off` on, zero bytes in between. -/
def storeBytes (l : List UInt8) (off : Nat) (ds : List UInt8) : List UInt8 :=
  if ds = [] then l
  else l.take off ++ List.replicate (off - l.length) 0 ++ ds ++ l.drop (off + ds.length)

def byteListApply (maxLen : Nat) (l : List UInt8) : RingCall → RingReply × List UInt8
  | .write data length offset =>
    let off := if offset = -1 then l.length else offset.toNat
    if off + length.toNat ≤ maxLen then (.wrote true, storeBytes l off (data.first length.toNat))
    else (.wrote false, l)
  | .readFront maxLength => (.copied (l.take maxLength.toNat), l.drop maxLength.toNat)
  | .peek start length => (.copied ((l.drop start.toNat).take length.toNat), l)
  | .consume maxLength => (.dropped (min maxLength.toNat l.length), l.drop maxLength.toNat)
  | .clear => (.cleared, [])

theorem overlay_eq_storeBytes (l : List UInt8) (off : Nat) (ds : List UInt8) :
    overlay l off ds = storeBytes l off ds := by
  cases ds with
  | nil => rfl
  | cons d ds =>
    rfl

namespace RingBuffer

variable {maxLen : Nat}

/-! ## One call -/

structure Holds (b : RingBuffer maxLen) (l : List UInt8) : Prop where
  compact : b.queue.Compact
  contents : b.contents = l

variable {b : RingBuffer maxLen} {l : List UInt8}

theorem Holds.wf (h : b.Holds l) : b.WF := h.compact.toWF

theorem Constructed.holds (h : b.Constructed) : b.Holds [] := by
  have hclear : b.queue = b.queue.clear := by
    obtain ⟨⟨items, readIdx, writeIdx⟩⟩ := b
    obtain ⟨hread, hwrite⟩ := h
    cases hread
    cases hwrite
    rfl
  refine ⟨?_, ?_⟩
  · rw [hclear]
    exact b.queue.clear_compact
  · show b.queue.contents = []
    rw [hclear, Queue.contents_clear]

theorem popMany_writeIdx : ∀ (n : Nat) (q q' : Queue UInt8 maxLen) (cs : List UInt8),
    popMany n q = .ok (cs, q') → q'.writeIdx = q.writeIdx := by
  intro n
  induction n with
  | zero =>
    intro q q' cs he
    cases he
    rfl
  | succ n ih =>
    intro q q' cs he
    rw [popMany, bind_ok] at he
    obtain ⟨⟨c, q1⟩, h1, he⟩ := he
    obtain ⟨⟨cs1, q2⟩, h2, he⟩ := bind_ok.mp he
    cases he
    rw [Queue.popFront, bind_ok] at h1
    obtain ⟨v, _, h1⟩ := h1
    cases h1
    exact ih { q with readIdx := q.readIdx + 1 } q' cs1 h2

theorem Holds.readFront {b' : RingBuffer maxLen} {bytes : List UInt8} {n : UInt32} (h : b.Holds l)
    (hwf : b'.WF) (he : b.readFront n = .ok (bytes, b')) : b'.queue.Compact := by
  obtain ⟨⟨cs, q⟩, hpop, he⟩ := bind_ok.mp he
  cases he
  exact ⟨hwf, by rw [popMany_writeIdx _ _ _ _ hpop]; exact h.compact.inTurn⟩

theorem Holds.consume {b' : RingBuffer maxLen} {n r : UInt32} (h : b.Holds l) (hwf : b'.WF)
    (he : b.consume n = .ok (r, b')) : b'.queue.Compact := by
  obtain ⟨⟨cs, q⟩, hpop, he⟩ := bind_ok.mp he
  cases he
  exact ⟨hwf, by rw [popMany_writeIdx _ _ _ _ hpop]; exact h.compact.inTurn⟩

theorem Holds.write_at (h : b.Holds l) (hcap : maxLen ≤ 65535) (data : Bytes) {length : UInt32}
    (hlength : length.toNat ≤ maxLen) {off : Nat} (hoff : off ≤ maxLen) :
    ∃ b', b.write data length off = .ok (decide (off + length.toNat ≤ maxLen), b')
      ∧ b'.Holds (if off + length.toNat ≤ maxLen
          then storeBytes l off (data.first length.toNat) else l) := by
  by_cases hfit : off + length.toNat ≤ maxLen
  · obtain ⟨b', hwrite, _, hcontents⟩ := write_spec h.wf (by omega) data length off hfit
    refine ⟨b', by rw [hwrite, decide_eq_true hfit], ?_, ?_⟩
    · exact write_ok_of (fun _ _ _ _ _ => Queue.replace_ok_compact) h.compact hwrite
    · rw [if_pos hfit, hcontents, overlay_eq_storeBytes, h.contents]
  · refine ⟨b, ?_, ?_⟩
    · rw [write_refused (by omega) data length off (by omega) (by omega), decide_eq_false hfit]
    · rw [if_neg hfit]
      exact h

/-- Every permitted call answers as the call on the list does. -/
theorem apply_simulates (hcap : maxLen ≤ 65535) :
    Simulates (@apply maxLen) (byteListApply maxLen) (RingCall.Permitted maxLen) Holds := by
  intro b l c h hc
  cases c with
  | write data length offset =>
    -- the sentinel is an offset too
    have hoffset : ∃ off : Nat, off ≤ maxLen ∧ b.write data length offset = b.write data length off
        ∧ (if offset = -1 then l.length else offset.toNat) = off := by
      rcases hc.2 with hlast | hinside
      · refine ⟨l.length, ?_, ?_, if_pos hlast⟩
        · rw [← h.contents]
          exact h.wf.length_le
        · rw [hlast, write_sentinel h.wf, h.contents]
      · refine ⟨offset.toNat, by omega, ?_, if_neg (by omega)⟩
        rw [Int.toNat_of_nonneg hinside.1]
    obtain ⟨off, hoff, hsame, hpos⟩ := hoffset
    obtain ⟨b', hwrite, hholds⟩ := h.write_at hcap data hc.1 hoff
    have hanswer : byteListApply maxLen l (.write data length offset)
        = (.wrote (decide (off + length.toNat ≤ maxLen)),
          if off + length.toNat ≤ maxLen then storeBytes l off (data.first length.toNat) else l) := by
      simp only [byteListApply, hpos]
      split
      next hfit => rw [decide_eq_true hfit]
      next hfit => rw [decide_eq_false hfit]
    refine ⟨b', ?_, ?_⟩
    · rw [apply, hsame, hwrite, ok_bind, hanswer]
    · rw [hanswer]
      exact hholds
  | readFront maxLength =>
    obtain ⟨b', hread, hwf, hcontents⟩ := readFront_spec h.wf (by omega) maxLength
    refine ⟨b', ?_, h.readFront hwf hread, ?_⟩
    · rw [apply, hread, ok_bind, h.contents]
      rfl
    · rw [hcontents, h.contents]
      rfl
  | peek start length =>
    obtain ⟨⟨hs0, _⟩, hl0, _⟩ := hc
    have hpeek := peek_clipped h.wf (by omega) start.toNat length.toNat (by omega)
    rw [Int.toNat_of_nonneg hs0, Int.toNat_of_nonneg hl0, h.contents] at hpeek
    refine ⟨b, ?_, h⟩
    rw [apply, hpeek, ok_bind]
    rfl
  | consume maxLength =>
    obtain ⟨r, b', hconsume, hwf, hcontents, hcount⟩ := consume_spec h.wf (by omega) maxLength
    refine ⟨b', ?_, h.consume hwf hconsume, ?_⟩
    · rw [apply, hconsume, ok_bind]
      show Except.ok (RingReply.dropped r.toNat, b') = _
      rw [hcount, h.contents]
      rfl
    · rw [hcontents, h.contents]
      rfl
  | clear => exact ⟨b.clear, rfl, b.queue.clear_compact, b.contents_clear⟩

/-! ## Histories -/

/-- **`p2::ring_buffer` refines a bounded list of bytes.** Every sequence of permitted calls on
a new buffer returns with the answers of the list and leaves the buffer with its bytes; the
indices stay within two turns, also in the middle of a push. -/
theorem refines_byteList (hcap : maxLen ≤ 0xFFFF) {b : RingBuffer maxLen} (hb : b.Constructed)
    {calls : List RingCall} (hcalls : ∀ c ∈ calls, c.Permitted maxLen) :
    ∃ b', answers apply calls b = .ok ((replies (byteListApply maxLen) calls []).1, b')
      ∧ b'.contents = (replies (byteListApply maxLen) calls []).2
      ∧ (0 ≤ b'.queue.readIdx ∧ b'.queue.readIdx ≤ b'.queue.writeIdx
        ∧ b'.queue.writeIdx ≤ 2 * maxLen)
      ∧ (0 < maxLen → b'.queue.writeIdx + 1 ≤ 2 * maxLen) := by
  obtain ⟨b', hrun, hholds⟩ := (apply_simulates hcap).answers hb.holds hcalls
  have hwf := hholds.wf
  have hturn := hholds.compact.inTurn
  refine ⟨b', hrun, hholds.contents, ⟨hwf.nonneg, hwf.le, hwf.small⟩, ?_⟩
  intro hpos
  omega

/-- A history that wraps in a buffer of four: three bytes are written and two
read, a gap is padded, a write past the end is refused. -/
def wrapAround : List RingCall :=
  [.write (.ofList [1, 2, 3]) 3 (-1), .readFront 2, .write (.ofList [9]) 1 3,
    .write (.ofList [7, 7]) 2 3, .peek 1 4, .consume 1]

theorem refines_byteList_wrapAround :
    ∃ b' : RingBuffer 4, answers apply wrapAround ⟨⟨fun _ => 0xAA, 0, 0⟩⟩
        = .ok ([.wrote true, .copied [1, 2], .wrote true, .wrote false, .copied [0, 0, 9],
          .dropped 1], b')
      ∧ b'.contents = [0, 0, 9] := by
  obtain ⟨b', hrun, hcontents, _⟩ := refines_byteList (b := (⟨⟨fun _ => 0xAA, 0, 0⟩⟩ : RingBuffer 4))
    (by decide) ⟨rfl, rfl⟩ (show ∀ c ∈ wrapAround, c.Permitted 4 by decide)
  exact ⟨b', hrun, hcontents⟩

end RingBuffer

end Peos2.Support
