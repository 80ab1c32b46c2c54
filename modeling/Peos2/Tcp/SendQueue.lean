/-
  Tcp.SendQueue — `net::tcp::send_queue`
  (`libraries/net/tcp/send_queue.{h,cc}`).

  Segments wait in a queue of records while their bytes wait in a ring
  buffer; `_ack_pos` is the number of the first byte still buffered,
  `_write_pos` the number after the last, and `_read_pos` counts the queued
  records that were read already.
-/
import Peos2.Lib.Tiling
import Peos2.Support.RingBuffer
import Peos2.Tcp.Definitions
import Mathlib.Logic.Relation

namespace Peos2.Tcp

open Peos2.Lib Peos2.Support List RingBuffer

/-- `net::tcp::tcp_send_segment` -/
structure SendSegment where
  flags : UInt16
  seqnbr : SequenceNumber
  dataLength : UInt32
  sendLength : UInt32
  deriving Repr, DecidableEq

/-- `net::tcp::send_queue` -/
structure SendQueue where
  ackPos : SequenceNumber
  writePos : SequenceNumber
  readPos : UInt32
  wndsz : UInt32
  dataBuffer : RingBuffer 0xFFFF
  segments : Queue SendSegment 100

namespace SendQueue

/-! ## The class -/

/-- `void reset(sequence_number seqnbr)` -/
def reset (q : SendQueue) (seqnbr : SequenceNumber) : SendQueue :=
  { ackPos := seqnbr
    writePos := seqnbr
    readPos := 0
    wndsz := 0xFFFF
    dataBuffer := q.dataBuffer.clear
    segments := q.segments.clear }

/-- `bool write_back(const tcp_send_segment &segment, const char *data, size_t data_length, size_t send_length)`;
`data` may be null. -/
def writeBack (q : SendQueue) (segment : SendSegment) (data : Option Bytes)
    (dataLength sendLength : UInt32) : Checked (Bool × SendQueue) :=
  if dataLength > q.dataBuffer.capacity - q.dataBuffer.size then .ok (false, q)
  else if segment.seqnbr ≠ q.writePos then .ok (false, q)
  else do
    let dataBuffer ← match data with
      | some data => do
          let (_, dataBuffer) ← q.dataBuffer.write data dataLength (-1)
          .ok dataBuffer
      | none => .ok q.dataBuffer
    let (pushed, segments) ← q.segments.pushBack { segment with dataLength, sendLength }
    .ok (pushed, { q with dataBuffer, segments, writePos := q.writePos + dataLength })

/-- `size_t read_one_segment(tcp_send_segment *segment, char *data, size_t length)`, with the
segment and its bytes; `none` stands for the two returns of 0 that leave `*segment` as it was.
-/
def readOneSegment (q : SendQueue) (length : UInt32) :
    Checked (Option (SendSegment × List UInt8) × SendQueue) :=
  if q.segments.size = 0 then .ok (none, q)
  else do
    let active ← q.segments.index (signed (unsigned q.segments.begin + q.readPos))
    -- segments outside the window are ignored
    if active.seqnbr + active.sendLength > q.ackPos + q.wndsz then .ok (none, q)
    else
      let bytes ← q.dataBuffer.peek (signed (active.seqnbr - q.ackPos))
        (signed (if active.dataLength > length then length else active.dataLength))
      check (bytes.length == active.dataLength.toNat)
        "bytes_read == active_segment.data_length && \"read less than segment size\""
      .ok (some (active, bytes), { q with readPos := q.readPos + 1 })

/-- `bool has_readable()` -/
def hasReadable (q : SendQueue) : Bool := unsigned q.segments.size > q.readPos

/-- The loop of `ack`. Every turn takes a segment off the queue, so the loop
ends within one turn more than there are segments. -/
def ackFrom (newAckPos : SequenceNumber) : Nat → SendQueue → Checked SendQueue
  | 0, _ => .error .outOfFuel
  | fuel + 1, q =>
    if newAckPos > q.ackPos then do
      check (q.segments.size > 0) "_segments.size() > 0"
      let segment ← q.segments.front
      if segment.seqnbr + segment.dataLength > newAckPos then .ok q
      else
        let (_, dataBuffer) ← q.dataBuffer.consume segment.dataLength
        let (_, segments) ← q.segments.popFront
        ackFrom newAckPos fuel { q with
          dataBuffer
          segments
          readPos := if q.readPos > 0 then q.readPos - 1 else q.readPos
          ackPos := segment.seqnbr + segment.dataLength }
    else .ok q

/-- `void ack(sequence_number new_ack_pos)` -/
def ack (q : SendQueue) (newAckPos : SequenceNumber) : Checked SendQueue :=
  ackFrom newAckPos (q.segments.size.toNat + 1) q

/-! ## Well-formedness -/

structure WF (q : SendQueue) : Prop where
  buffer : q.dataBuffer.WF
  segments : q.segments.WF

def queued (q : SendQueue) : List SendSegment := q.segments.contents

def bytes (q : SendQueue) : List UInt8 := q.dataBuffer.contents

/-- The records still to be read. -/
def unread (q : SendQueue) : List SendSegment := q.queued.drop q.readPos.toNat

theorem reset_wf (q : SendQueue) (isn : SequenceNumber) : (q.reset isn).WF :=
  ⟨clear_wf _, Queue.clear_wf _⟩

@[simp] theorem queued_reset (q : SendQueue) (isn : SequenceNumber) :
    (q.reset isn).queued = [] := Queue.contents_clear _

@[simp] theorem bytes_reset (q : SendQueue) (isn : SequenceNumber) :
    (q.reset isn).bytes = [] := contents_clear _

variable {q q' : SendQueue} {active s : SendSegment} {length : UInt32} {n : SequenceNumber}

theorem WF.length_queued (h : q.WF) : q.queued.length ≤ 100 :=
  h.segments.length_le

theorem WF.length_bytes (h : q.WF) : q.bytes.length ≤ 65535 :=
  h.buffer.length_le

theorem hasReadable_iff (h : q.WF) : q.hasReadable = true ↔ q.readPos.toNat < q.queued.length := by
  have hlen := h.length_queued
  have hsize := h.segments.size_eq
  have hq : q.segments.contents.length = q.queued.length := rfl
  unfold hasReadable
  rw [decide_eq_true_eq, gt_iff_lt, lt_iff_toNat, hsize,
      toNat_unsigned_of_nonneg (by omega) (by omega)]
  omega

/-! ## `write_back` -/

theorem room_iff (h : q.WF) (dataLength : UInt32) :
    dataLength > q.dataBuffer.capacity - q.dataBuffer.size ↔
      65535 < q.bytes.length + dataLength.toNat := by
  have hlen := h.length_bytes
  have hcap : q.dataBuffer.capacity.toNat = 65535 := toNat_capacity _ (by decide)
  have hsize : q.dataBuffer.size.toNat = q.bytes.length := h.buffer.toNat_size (by decide)
  rw [gt_iff_lt, lt_iff_toNat, UInt32.toNat_sub]
  omega

theorem writeBack_refused {segment : SendSegment} {data : Option Bytes}
    {dataLength sendLength : UInt32} (h : q.WF)
    (href : 65535 < q.bytes.length + dataLength.toNat ∨ segment.seqnbr ≠ q.writePos) :
    q.writeBack segment data dataLength sendLength = .ok (false, q) := by
  unfold writeBack
  by_cases hroom : dataLength > q.dataBuffer.capacity - q.dataBuffer.size
  · rw [if_pos hroom]
  · rw [if_neg hroom, if_pos]
    rw [room_iff h] at hroom
    exact href.resolve_left hroom

theorem writeBack_spec (h : q.WF) (segment : SendSegment) (data : Bytes)
    (dataLength sendLength : UInt32) :
    (65535 < q.bytes.length + dataLength.toNat ∨ segment.seqnbr ≠ q.writePos →
      q.writeBack segment (some data) dataLength sendLength = .ok (false, q)) ∧
    (q.bytes.length + dataLength.toNat ≤ 65535 → segment.seqnbr = q.writePos →
      ∃ q', q.writeBack segment (some data) dataLength sendLength
          = .ok (decide (q.queued.length < 100), q') ∧ q'.WF ∧
        q'.bytes = q.bytes ++ data.first dataLength.toNat ∧
        q'.queued = (if q.queued.length < 100 then
          q.queued ++ [{ segment with dataLength, sendLength }] else q.queued) ∧
        q'.writePos = q.writePos + dataLength ∧ q'.ackPos = q.ackPos ∧
        q'.readPos = q.readPos ∧ q'.wndsz = q.wndsz) := by
  constructor
  · exact writeBack_refused h
  · intro hroom hseq
    have hnot : ¬ dataLength > q.dataBuffer.capacity - q.dataBuffer.size := by
      rw [room_iff h]
      omega
    obtain ⟨b, hb, hwfb, hcb⟩ := write_append h.buffer (by decide) data dataLength hroom
    have hlen := h.length_queued
    by_cases hfull : q.queued.length < 100
    · obtain ⟨s, hs, hwfs, hcs⟩ := Queue.pushBack_spec h.segments hfull
        { segment with dataLength, sendLength }
      refine ⟨{ q with dataBuffer := b, segments := s, writePos := q.writePos + dataLength },
        ?_, ⟨hwfb, hwfs⟩, hcb, ?_, rfl, rfl, rfl, rfl⟩
      · unfold writeBack
        rw [if_neg hnot, if_neg (not_not_intro hseq)]
        simp only [hb, ok_bind, hs, decide_eq_true hfull]
      · rw [if_pos hfull]
        exact hcs
    have hs := Queue.pushBack_full h.segments (show q.queued.length = 100 by omega)
      { segment with dataLength, sendLength }
    refine ⟨{ q with dataBuffer := b, writePos := q.writePos + dataLength },
      ?_, ⟨hwfb, h.segments⟩, hcb, ?_, rfl, rfl, rfl, rfl⟩
    · unfold writeBack
      rw [if_neg hnot, if_neg (not_not_intro hseq)]
      simp only [hb, ok_bind, hs, decide_eq_false hfull]
    · rw [if_neg hfull]
      rfl

/-! ## `read_one_segment` -/

theorem index_active (h : q.WF) (hact : q.queued[q.readPos.toNat]? = some active) :
    q.segments.size ≠ 0 ∧
      q.segments.index (signed (unsigned q.segments.begin + q.readPos)) = .ok active := by
  have hlt : q.readPos.toNat < q.queued.length := (List.getElem?_eq_some_iff.mp hact).1
  have hlen := h.length_queued
  have hsize : q.segments.size = q.queued.length := h.segments.size_eq
  have hn := h.segments.nonneg
  have hle := h.segments.le
  have hs := h.segments.small
  refine ⟨by omega, ?_⟩
  have hsum : (unsigned q.segments.begin + q.readPos).toNat
      = q.segments.readIdx.toNat + q.readPos.toNat := by
    unfold Queue.begin
    rw [toNat_add_eq, toNat_unsigned_of_nonneg hn (by omega)]
    omega
  have hidx : signed (unsigned q.segments.begin + q.readPos)
      = q.segments.readIdx + (q.readPos.toNat : Nat) := by
    rw [signed_of_lt (by omega)]
    omega
  rw [hidx]
  exact Queue.index_spec h.segments hact

/-- The record next to be read is outside the window, as the 32-bit sums see
it. -/
def Outside (q : SendQueue) (active : SendSegment) : Prop :=
  active.seqnbr + active.sendLength > q.ackPos + q.wndsz

theorem readOneSegment_outside (h : q.WF) (hact : q.queued[q.readPos.toNat]? = some active)
    (hout : q.Outside active) (length : UInt32) : q.readOneSegment length = .ok (none, q) := by
  obtain ⟨hsize, hidx⟩ := index_active h hact
  unfold Outside at hout
  rw [readOneSegment, if_neg hsize, hidx, ok_bind, if_pos hout]

theorem readOneSegment_inside (h : q.WF) (hact : q.queued[q.readPos.toNat]? = some active)
    (hin : ¬ q.Outside active)
    (hbuf : serialDist active.seqnbr q.ackPos + active.dataLength.toNat ≤ q.bytes.length)
    (hlen : active.dataLength.toNat ≤ length.toNat) :
    q.readOneSegment length = .ok
      (some (active, (q.bytes.drop (serialDist active.seqnbr q.ackPos)).take active.dataLength.toNat),
        { q with readPos := q.readPos + 1 }) := by
  obtain ⟨hsize, hidx⟩ := index_active h hact
  have hb := h.length_bytes
  have hclip : (if active.dataLength > length then length else active.dataLength)
      = active.dataLength := by
    rw [if_neg]
    rw [gt_iff_lt, lt_iff_toNat]
    omega
  have hstart : signed (active.seqnbr - q.ackPos) = (serialDist active.seqnbr q.ackPos : Nat) :=
    signed_of_lt (show serialDist active.seqnbr q.ackPos < 2147483648 by omega)
  have hcount : signed active.dataLength = (active.dataLength.toNat : Nat) :=
    signed_of_lt (by omega)
  have hpeek := peek_spec h.buffer (by decide) _ _ hbuf
  have htake : ((q.bytes.drop (serialDist active.seqnbr q.ackPos)).take
      active.dataLength.toNat).length = active.dataLength.toNat := by
    rw [length_take, length_drop]
    omega
  unfold Outside at hin
  rw [readOneSegment, if_neg hsize, hidx, ok_bind, if_neg hin, hclip, hstart, hcount, hpeek,
      ok_bind]
  unfold bytes at htake ⊢
  rw [htake, beq_self_eq_true, check_true, ok_bind]

theorem readOneSegment_some (h : q.WF) (hact : q.queued[q.readPos.toNat]? = some active)
    {seg : SendSegment} {bs : List UInt8}
    (hread : q.readOneSegment length = .ok (some (seg, bs), q')) :
    seg = active ∧ bs.length = active.dataLength.toNat ∧ ¬ q.Outside active ∧
      q' = { q with readPos := q.readPos + 1 } := by
  obtain ⟨hsize, hidx⟩ := index_active h hact
  rw [readOneSegment, if_neg hsize, hidx, ok_bind] at hread
  by_cases hout : active.seqnbr + active.sendLength > q.ackPos + q.wndsz
  · rw [if_pos hout] at hread
    simp at hread
  rw [if_neg hout, bind_ok] at hread
  obtain ⟨bs', _, hread⟩ := hread
  obtain ⟨_, hcheck, hread⟩ := bind_ok.mp hread
  rw [check_ok, beq_iff_eq] at hcheck
  have heq := Prod.mk.inj (Except.ok.inj hread)
  obtain ⟨h1, h2⟩ := Prod.mk.inj (Option.some.inj heq.1)
  subst h1 h2
  exact ⟨rfl, hcheck, hout, heq.2.symm⟩

theorem readOneSegment_none (h : q.WF) (hact : q.queued[q.readPos.toNat]? = some active)
    (hread : q.readOneSegment length = .ok (none, q')) : q.Outside active ∧ q' = q := by
  obtain ⟨hsize, hidx⟩ := index_active h hact
  rw [readOneSegment, if_neg hsize, hidx, ok_bind] at hread
  by_cases hout : active.seqnbr + active.sendLength > q.ackPos + q.wndsz
  · rw [if_pos hout] at hread
    exact ⟨hout, (Prod.mk.inj (Except.ok.inj hread)).2.symm⟩
  · rw [if_neg hout, bind_ok] at hread
    obtain ⟨_, _, hread⟩ := hread
    obtain ⟨_, _, hread⟩ := bind_ok.mp hread
    simp at hread

/-! ## `ack` -/

/-- One turn of the loop of `ack`: the oldest segment goes. -/
structure Pop (newAckPos : SequenceNumber) (q q' : SendQueue) (s : SendSegment)
    (rest : List SendSegment) : Prop where
  above : newAckPos > q.ackPos
  reached : ¬ s.seqnbr + s.dataLength > newAckPos
  before : q.queued = s :: rest
  after : q'.queued = rest
  bytes : q'.bytes = q.bytes.drop s.dataLength.toNat
  ackPos : q'.ackPos = s.seqnbr + s.dataLength
  readPos : q'.readPos.toNat = q.readPos.toNat - 1
  writePos : q'.writePos = q.writePos
  wndsz : q'.wndsz = q.wndsz
  wf : q'.WF

def Pops (newAckPos : SequenceNumber) (q q' : SendQueue) : Prop :=
  ∃ s rest, Pop newAckPos q q' s rest

def Stops (newAckPos : SequenceNumber) (q : SendQueue) : Prop :=
  newAckPos ≤ q.ackPos ∨
    ∃ s rest, q.queued = s :: rest ∧ s.seqnbr + s.dataLength > newAckPos

theorem ackFrom_turn (h : q.WF) (n : SequenceNumber) :
    (Stops n q ∧ ∀ fuel, ackFrom n (fuel + 1) q = .ok q) ∨
    (n > q.ackPos ∧ q.queued = [] ∧
      ∀ fuel, ackFrom n (fuel + 1) q = .error (.assertion "_segments.size() > 0")) ∨
    (∃ q' s rest, Pop n q q' s rest ∧ ∀ fuel, ackFrom n (fuel + 1) q = ackFrom n fuel q') := by
  by_cases hn : n > q.ackPos
  · have hsize : q.segments.size = q.queued.length := h.segments.size_eq
    cases hq : q.queued with
    | nil =>
      rw [hq] at hsize
      refine .inr (.inl ⟨hn, rfl, ?_⟩)
      intro fuel
      rw [ackFrom, if_pos hn, hsize]
      rfl
    | cons s rest =>
      rw [hq, length_cons] at hsize
      have hpos : decide (q.segments.size > 0) = true := by
        rw [decide_eq_true_eq]
        omega
      have hfront := Queue.front_spec h.segments hq
      by_cases hend : s.seqnbr + s.dataLength > n
      · refine .inl ⟨.inr ⟨s, rest, hq, hend⟩, ?_⟩
        intro fuel
        rw [ackFrom, if_pos hn, hpos, check_true, ok_bind, hfront, ok_bind, if_pos hend]
      obtain ⟨r, b, hb, hwfb, hcb, _⟩ := consume_spec h.buffer (by decide) s.dataLength
      obtain ⟨t, ht, hwft, hct⟩ := Queue.popFront_spec h.segments hq
      refine .inr (.inr ⟨{ q with
        dataBuffer := b
        segments := t
        readPos := if q.readPos > 0 then q.readPos - 1 else q.readPos
        ackPos := s.seqnbr + s.dataLength }, s, rest,
        ⟨hn, hend, hq, hct, hcb, rfl, ?_, rfl, rfl, ⟨hwfb, hwft⟩⟩, ?_⟩)
      · -- the read position counts from the front
        show (if q.readPos > 0 then q.readPos - 1 else q.readPos).toNat = _
        split
        next hp =>
          rw [gt_iff_lt, lt_iff_toNat] at hp
          have hlt := toNat_lt_border q.readPos
          rw [UInt32.toNat_sub, UInt32.toNat_one]
          omega
        next hp =>
          rw [gt_iff_lt, lt_iff_toNat, UInt32.toNat_zero] at hp
          omega
      · intro fuel
        rw [ackFrom, if_pos hn, hpos, check_true, ok_bind, hfront, ok_bind, if_neg hend, hb,
            ok_bind]
        simp only [ht, ok_bind]
  · refine .inl ⟨.inl ?_, ?_⟩
    · rw [le_iff_toNat]
      rw [gt_iff_lt, lt_iff_toNat] at hn
      omega
    · intro fuel
      rw [ackFrom, if_neg hn]

theorem ackFrom_pops (fuel : Nat) : ∀ {q q' : SendQueue}, q.WF →
    ackFrom n fuel q = .ok q' →
    Relation.ReflTransGen (Pops n) q q' ∧ Stops n q' ∧ q'.WF := by
  induction fuel with
  | zero =>
    intro q q' _ h
    exact absurd h (by simp [ackFrom])
  | succ fuel ih =>
    intro q q' hq h
    rcases ackFrom_turn hq n with ⟨hstop, ht⟩ | ⟨_, _, ht⟩ | ⟨q1, s, rest, hpop, ht⟩
    · rw [ht fuel] at h
      cases h
      exact ⟨.refl, hstop, hq⟩
    · rw [ht fuel] at h
      simp at h
    · rw [ht fuel] at h
      obtain ⟨hrun, hstop, hwf⟩ := ih hpop.wf h
      exact ⟨.head ⟨s, rest, hpop⟩ hrun, hstop, hwf⟩

/-! ## How the records lie -/

def span (q : SendQueue) : Nat := serialDist q.writePos q.ackPos

/-- The invariant of every send queue: counted from the ack position, the
records lie in order below the write cursor, and the buffer holds at least
as many bytes. -/
structure Laid (q : SendQueue) : Prop where
  wf : q.WF
  spaced : Spaced (fun s => serialDist s.seqnbr q.ackPos) (fun s => s.dataLength.toNat) 0 q.queued
    q.span
  covered : q.span ≤ q.bytes.length
  shorter : ∀ s ∈ q.queued, s.sendLength.toNat ≤ s.dataLength.toNat
  read_le : q.readPos.toNat ≤ q.queued.length
  window : q.wndsz = 0xFFFF

theorem reset_laid (q : SendQueue) (isn : SequenceNumber) : (q.reset isn).Laid := by
  refine ⟨reset_wf q isn, ?_, ?_, ?_, ?_, rfl⟩
  · exact Nat.zero_le _
  · show serialDist isn isn ≤ _
    rw [serialDist_self]
    exact Nat.zero_le _
  · simp
  · exact Nat.zero_le _

theorem Laid.fits (h : q.Laid) (hs : s ∈ q.queued) :
    serialDist s.seqnbr q.ackPos + s.dataLength.toNat ≤ q.bytes.length := by
  have := (h.spaced.mem hs).2
  have := h.covered
  omega

theorem Laid.writeBack (h : q.Laid) {segment : SendSegment} {data : Bytes}
    {dataLength sendLength : UInt32} (hshort : sendLength.toNat ≤ dataLength.toNat) {r : Bool}
    (hcall : q.writeBack segment (some data) dataLength sendLength = .ok (r, q')) : q'.Laid := by
  obtain ⟨hrefuse, haccept⟩ := writeBack_spec h.wf segment data dataLength sendLength
  have hcov := h.covered
  by_cases hroom : q.bytes.length + dataLength.toNat ≤ 65535
  · by_cases hseq : segment.seqnbr = q.writePos
    · obtain ⟨q1, h1, hwf, hbytes, hqueued, hwrite, hack, hread, hwnd⟩ := haccept hroom hseq
      rw [h1] at hcall
      cases hcall
      have hspan : q'.span = q.span + dataLength.toNat := by
        unfold span at hcov ⊢
        rw [hwrite, hack]
        rw [serialDist_eq] at hcov ⊢
        rw [serialDist_eq, toNat_add_eq]
        omega
      refine ⟨hwf, ?_, ?_, ?_, ?_, by rw [hwnd]; exact h.window⟩
      · rw [hqueued, hspan, hack]
        split
        · exact h.spaced.concat (by rw [hseq]; exact Nat.le_refl _)
            (by show serialDist segment.seqnbr q.ackPos + dataLength.toNat ≤ _; rw [hseq]; exact Nat.le_refl _)
        · exact h.spaced.mono (by omega)
      · rw [hbytes, length_append, Bytes.length_first]
        omega
      · intro s hs
        rw [hqueued] at hs
        split at hs
        · rcases mem_append.mp hs with hs | hs
          · exact h.shorter s hs
          · rw [mem_singleton] at hs
            subst hs
            exact hshort
        · exact h.shorter s hs
      · have := h.read_le
        rw [hread, hqueued]
        split
        · rw [length_append]
          omega
        · exact this
    · rw [hrefuse (.inr hseq)] at hcall
      cases hcall
      exact h
  · rw [hrefuse (.inl (by omega))] at hcall
    cases hcall
    exact h

theorem Laid.read {q : SendQueue} (h : q.Laid) (hlt : q.readPos.toNat < q.queued.length) :
    Laid { q with readPos := q.readPos + 1 } := by
  refine ⟨⟨h.wf.buffer, h.wf.segments⟩, h.spaced, h.covered, h.shorter, ?_, h.window⟩
  show (q.readPos + 1).toNat ≤ q.queued.length
  rw [toNat_add_eq, UInt32.toNat_one]
  omega

theorem unread_read (h : q.Laid) {rest : List SendSegment} (hu : q.unread = s :: rest) :
    q.queued[q.readPos.toNat]? = some s ∧ q.readPos.toNat < q.queued.length ∧
      unread { q with readPos := q.readPos + 1 } = rest := by
  have hlen := h.wf.length_queued
  have hlt : q.readPos.toNat < q.queued.length := by
    by_contra hge
    rw [unread, drop_eq_nil_of_le (by omega)] at hu
    simp at hu
  have hcons := drop_eq_getElem_cons hlt
  rw [unread] at hu
  rw [hu] at hcons
  obtain ⟨h1, h2⟩ := cons.inj hcons
  refine ⟨by rw [getElem?_eq_getElem hlt, h1], hlt, ?_⟩
  show q.queued.drop (q.readPos + 1).toNat = rest
  rw [toNat_add_eq, UInt32.toNat_one, Nat.mod_eq_of_lt (by omega), h2]

theorem serialDist_from_end {x a s d : UInt32} (h : serialDist s a + d.toNat ≤ serialDist x a) :
    serialDist x (s + d) + (serialDist s a + d.toNat) = serialDist x a := by
  rw [serialDist_eq, serialDist_eq] at h
  rw [serialDist_eq, serialDist_eq, serialDist_eq, toNat_add_eq]
  omega

theorem Laid.pop (h : q.Laid) {rest : List SendSegment} (hpop : Pop n q q' s rest) : q'.Laid := by
  have hspaced := h.spaced
  rw [hpop.before] at hspaced
  obtain ⟨_, hrest⟩ := hspaced
  have hle := hrest.le
  have hcov := h.covered
  have hspan : q'.span + (serialDist s.seqnbr q.ackPos + s.dataLength.toNat) = q.span := by
    unfold span at hle ⊢
    rw [hpop.writePos, hpop.ackPos]
    exact serialDist_from_end hle
  refine ⟨hpop.wf, ?_, ?_, ?_, ?_, by rw [hpop.wndsz]; exact h.window⟩
  · rw [hpop.after, hpop.ackPos]
    have := hrest.shift (Nat.le_refl _) (fun t ht => serialDist_from_end (hrest.mem ht).1)
    rw [Nat.sub_self] at this
    rwa [show q'.span = q.span - (serialDist s.seqnbr q.ackPos + s.dataLength.toNat) by omega]
  · rw [hpop.bytes, length_drop]
    omega
  · intro t ht
    rw [hpop.after] at ht
    exact h.shorter t (by rw [hpop.before]; exact mem_cons_of_mem _ ht)
  · have := h.read_le
    rw [hpop.before, length_cons] at this
    rw [hpop.readPos, hpop.after]
    omega

theorem Laid.pops (h : Relation.ReflTransGen (Pops n) q q') (hq : q.Laid) : q'.Laid := by
  induction h with
  | refl => exact hq
  | tail _ hpop ih =>
    obtain ⟨s, rest, hpop⟩ := hpop
    exact ih.pop hpop

theorem Laid.ack (h : q.Laid) (hcall : q.ack n = .ok q') : q'.Laid :=
  Laid.pops (ackFrom_pops _ h.wf hcall).1 h

end SendQueue

end Peos2.Tcp
