/-
  Tcp.ReceiveQueue — `net::tcp::receive_queue`
  (`libraries/net/tcp/receive_queue.{h,cc}`).

  The queue keeps one record per accepted segment in a pool and the payload
  bytes in a ring buffer whose first byte belongs to `_read_cursor`. The
  record read next is the one with the numerically lowest sequence number.
-/
import Peos2.Support.RingBuffer
import Peos2.Support.Pool
import Peos2.Tcp.Definitions

namespace Peos2.Tcp

open Peos2.Lib Peos2.Support Pool RingBuffer

/-- `net::tcp::tcp_recv_segment` -/
structure RecvSegment where
  flags : UInt16
  seqnbr : SequenceNumber
  length : UInt32
  deriving Repr, DecidableEq

/-- `net::tcp::receive_queue` -/
structure ReceiveQueue where
  segments : Pool RecvSegment 200 0xFFFF
  dataBuffer : RingBuffer 0xFFFF
  readCursor : SequenceNumber

namespace ReceiveQueue

/-! ## The class -/

def blank : ReceiveQueue where
  segments := ⟨fun _ => ⟨0xFFFF, 0xFFFF, none⟩, 0, 0xFFFF, 0xFFFF, 0⟩
  dataBuffer := ⟨⟨fun _ => 0, 0, 0⟩⟩
  readCursor := 0

/-- The test of `insert` that keeps segments behind the read cursor out. -/
def behindCursor (q : ReceiveQueue) (seqnbr : SequenceNumber) : Bool :=
  if 0xFFFFFFFF - q.readCursor < q.dataBuffer.capacity then
    -- the window is wrapping around
    decide (seqnbr < q.readCursor) && decide (seqnbr ≥ q.readCursor + q.dataBuffer.capacity)
  else decide (seqnbr < q.readCursor)

/-- `bool insert(const tcp_recv_segment &segment, const char *data, size_t len)` -/
def insert (q : ReceiveQueue) (segment : RecvSegment) (data : Bytes) (length : UInt32) :
    Checked (Bool × ReceiveQueue) :=
  if q.segments.full then .ok (false, q)
  else if q.behindCursor segment.seqnbr then .ok (false, q)
  else do
    let (written, dataBuffer) ←
      q.dataBuffer.write data length (signed (segment.seqnbr - q.readCursor))
    if written then
      let (idx, segments) ← q.segments.emplaceAnywhere segment
      let stored ← segments.get idx
      let segments ← segments.set idx { stored with length := length }
      .ok (true, { q with segments, dataBuffer })
    else .ok (false, q)

/-- The loop of `find_front_segment` over the slots still to visit. -/
def lowestFrom (q : ReceiveQueue) : List Nat → SequenceNumber → Option Nat → Checked (Option Nat)
  | [], _, lowestIt => .ok lowestIt
  | it :: rest, lowestSeq, lowestIt => do
      let seg ← q.segments.get it
      if seg.seqnbr < lowestSeq then q.lowestFrom rest seg.seqnbr (some it)
      else q.lowestFrom rest lowestSeq lowestIt

/-- The condition asserted at the end of `find_front_segment`. -/
def emptyQueueText : String :=
  "lowest_it != _segments.end() && \"cannot call find_front_segment on empty queue\""

/-- `size_t find_front_segment() const` -/
def findFrontSegment (q : ReceiveQueue) : Checked Nat := do
  let lowestIt ← q.lowestFrom q.segments.indices 0xFFFFFFFF none
  match lowestIt with
  | some it => .ok it
  | none => .error (.assertion emptyQueueText)

/-- `bool read_one_segment(tcp_recv_segment *segment, char *buffer, size_t len)`; the segment
and the bytes copied are returned, the `bool` is always true. `erase` leaves the storage of the
record alone, so the length added to the cursor is still the one read before. -/
def readOneSegment (q : ReceiveQueue) (len : UInt32) :
    Checked (RecvSegment × List UInt8 × ReceiveQueue) := do
  let front ← q.findFrontSegment
  let seg ← q.segments.get front
  check (seg.seqnbr == q.readCursor) "seg.seqnbr == _read_cursor"
  let (bytes, dataBuffer) ←
    q.dataBuffer.readFront (if len > seg.length then seg.length else len)
  check (bytes.length == seg.length.toNat)
    "bytes_read == seg.length && \"need to read all bytes to not get mismatching seqnbrs\""
  let segments ← q.segments.erase front
  .ok (seg, bytes, { segments, dataBuffer, readCursor := q.readCursor + seg.length })

/-- `sequence_number readable_until() const` -/
def readableUntil (q : ReceiveQueue) : Checked SequenceNumber :=
  if q.segments.size = 0 then .ok q.readCursor
  else do
    let front ← q.findFrontSegment
    let seg ← q.segments.get front
    if seg.seqnbr = q.readCursor then .ok (q.readCursor + seg.length) else .ok q.readCursor

/-- `bool has_readable() const` -/
def hasReadable (q : ReceiveQueue) : Checked Bool :=
  if q.segments.size = 0 then .ok false
  else do
    let front ← q.findFrontSegment
    let seg ← q.segments.get front
    .ok (seg.seqnbr == q.readCursor)

/-- `void reset(sequence_number seqnbr)` -/
def reset (q : ReceiveQueue) (seqnbr : SequenceNumber) : ReceiveQueue :=
  { segments := q.segments.clear, dataBuffer := q.dataBuffer.clear, readCursor := seqnbr }

/-! ## Well-formedness -/

structure WF (q : ReceiveQueue) : Prop where
  segments : q.segments.WF
  buffer : q.dataBuffer.WF

def stored (q : ReceiveQueue) (i : Nat) : Option RecvSegment := q.segments.lookup i

section

variable (q : ReceiveQueue)

include q

theorem reset_wf (isn : SequenceNumber) : (q.reset isn).WF :=
  ⟨clear_wf _ (by decide), clear_wf _⟩

@[simp] theorem stored_reset (isn : SequenceNumber) (i : Nat) :
    (q.reset isn).stored i = none := lookup_clear _ i

@[simp] theorem contents_reset (isn : SequenceNumber) :
    (q.reset isn).dataBuffer.contents = [] := contents_clear _

@[simp] theorem readCursor_reset (isn : SequenceNumber) :
    (q.reset isn).readCursor = isn := rfl

theorem toNat_capacity : q.dataBuffer.capacity.toNat = 65535 :=
  RingBuffer.toNat_capacity _ (by decide)

/-! ## `insert` -/

theorem behindCursor_iff (s : SequenceNumber) :
    q.behindCursor s = true ↔
      s.toNat < q.readCursor.toNat ∧
        (4294967296 ≤ q.readCursor.toNat + 65535 →
          q.readCursor.toNat + 65535 ≤ s.toNat + 4294967296) := by
  have hc := toNat_lt_border q.readCursor
  have hcap := q.toNat_capacity
  have hmax : (0xFFFFFFFF - q.readCursor).toNat = 4294967295 - q.readCursor.toNat := by
    rw [UInt32.toNat_sub, show (0xFFFFFFFF : UInt32).toNat = 4294967295 from rfl]
    omega
  unfold behindCursor
  by_cases hw : 0xFFFFFFFF - q.readCursor < q.dataBuffer.capacity
  · rw [if_pos hw]
    rw [lt_iff_toNat] at hw
    rw [Bool.and_eq_true, decide_eq_true_eq, decide_eq_true_eq, ge_iff_le, lt_iff_toNat,
        le_iff_toNat, toNat_add_eq, hcap]
    omega
  · rw [if_neg hw]
    rw [lt_iff_toNat] at hw
    rw [decide_eq_true_eq, lt_iff_toNat]
    omega

theorem behindCursor_of_serialDist {s : SequenceNumber}
    (h : serialDist s q.readCursor < 65535) : q.behindCursor s = false := by
  have hc := toNat_lt_border q.readCursor
  rw [Bool.eq_false_iff, ne_eq, behindCursor_iff]
  rw [serialDist_eq] at h
  omega

end

theorem insert_refused {q : ReceiveQueue} {segment : RecvSegment} {data : Bytes}
    {length : UInt32}
    (h : q.segments.full = true ∨ q.behindCursor segment.seqnbr = true ∨
      unsigned (q.dataBuffer.startOffset (signed (segment.seqnbr - q.readCursor))) + length
        > q.dataBuffer.capacity) :
    q.insert segment data length = .ok (false, q) := by
  unfold insert
  by_cases h1 : q.segments.full = true
  · rw [if_pos h1]
  · rw [if_neg h1]
    by_cases h2 : q.behindCursor segment.seqnbr = true
    · rw [if_pos h2]
    · rw [if_neg h2, write, if_pos ((h.resolve_left h1).resolve_left h2)]
      rfl

variable {data : Bytes} {length : UInt32} {q q' : ReceiveQueue} {segment seg : RecvSegment}
  {i : Nat}

theorem insert_written (hq : q.WF) (hfull : q.segments.full = false)
    (hcur : q.behindCursor segment.seqnbr = false) {b : RingBuffer 0xFFFF}
    (hw : q.dataBuffer.write data length (signed (segment.seqnbr - q.readCursor))
      = .ok (true, b)) :
    ∃ i q', q.insert segment data length = .ok (true, q') ∧ q'.WF ∧ q'.dataBuffer = b ∧
      q'.readCursor = q.readCursor ∧ q.stored i = none ∧
      ∀ j, q'.stored j = if j = i then some { segment with length := length }
        else q.stored j := by
  obtain ⟨i, p1, h1, hwf1, hnone, hl1⟩ := emplaceAnywhere_spec hq.segments hfull segment
  have hi1 : p1.lookup i = some segment := by rw [hl1, if_pos rfl]
  obtain ⟨p2, h2, hwf2, hl2⟩ := set_spec hwf1 hi1 { segment with length := length }
  have hget : p1.get i = .ok segment := get_spec hi1
  refine ⟨i, ⟨p2, b, q.readCursor⟩, ?_, ⟨hwf2, write_ok_wf hq.buffer hw⟩, rfl, rfl, hnone, ?_⟩
  · simp only [insert, hfull, hcur, Bool.false_eq_true, if_false, hw, ok_bind, if_true, h1, hget,
      h2]
  · intro j
    show p2.lookup j = _
    rw [hl2]
    by_cases hj : j = i
    · rw [if_pos hj, if_pos hj]
    · rw [if_neg hj, if_neg hj, hl1, if_neg hj]
      rfl

theorem insert_ok_cases (hq : q.WF) {r : Bool} (h : q.insert segment data length = .ok (r, q')) :
    (r = false ∧ q' = q) ∨
    (r = true ∧ q.segments.full = false ∧ q.behindCursor segment.seqnbr = false ∧ q'.WF ∧
      q'.readCursor = q.readCursor ∧
      q.dataBuffer.write data length (signed (segment.seqnbr - q.readCursor))
        = .ok (true, q'.dataBuffer) ∧
      ∃ i, q.stored i = none ∧
        ∀ j, q'.stored j = if j = i then some { segment with length := length }
          else q.stored j) := by
  by_cases hfull : q.segments.full = true
  · rw [insert_refused (.inl hfull)] at h
    cases h
    exact .inl ⟨rfl, rfl⟩
  by_cases hcur : q.behindCursor segment.seqnbr = true
  · rw [insert_refused (.inr (.inl hcur))] at h
    cases h
    exact .inl ⟨rfl, rfl⟩
  rw [Bool.not_eq_true] at hfull hcur
  cases hw : q.dataBuffer.write data length (signed (segment.seqnbr - q.readCursor)) with
  | error e =>
    simp only [insert, hfull, hcur, Bool.false_eq_true, if_false, hw, error_bind] at h
    simp at h
  | ok rb =>
    obtain ⟨written, b⟩ := rb
    cases written with
    | false =>
      simp only [insert, hfull, hcur, Bool.false_eq_true, if_false, hw, ok_bind] at h
      cases h
      exact .inl ⟨rfl, rfl⟩
    | true =>
      obtain ⟨i, q1, h1, hwf, hb, hrc, hnone, hl⟩ := insert_written hq hfull hcur hw
      rw [h1] at h
      cases h
      exact .inr ⟨rfl, hfull, hcur, hwf, hrc, by rw [hb], i, hnone, hl⟩

theorem insert_ok_wf (hq : q.WF) {r : Bool} (h : q.insert segment data length = .ok (r, q')) :
    q'.WF := by
  rcases insert_ok_cases hq h with ⟨_, rfl⟩ | ⟨_, _, _, hwf, _⟩
  · exact hq
  · exact hwf

theorem write_window {q : ReceiveQueue} (hq : q.WF) {s : SequenceNumber} (data : Bytes)
    {length : UInt32} (hwin : serialDist s q.readCursor + length.toNat ≤ 65535) :
    ∃ b, q.dataBuffer.write data length (signed (s - q.readCursor)) = .ok (true, b) ∧ b.WF ∧
      b.contents = overlay q.dataBuffer.contents (serialDist s q.readCursor)
        (data.first length.toNat) := by
  have hsigned : signed (s - q.readCursor) = (serialDist s q.readCursor : Nat) :=
    signed_of_lt (show serialDist s q.readCursor < 2147483648 by omega)
  rw [hsigned]
  exact write_spec hq.buffer (by decide) data length _ hwin

theorem insert_window {q : ReceiveQueue} (hq : q.WF) {segment : RecvSegment} (data : Bytes)
    {length : UInt32} (hfull : q.segments.full = false)
    (hcur : q.behindCursor segment.seqnbr = false)
    (hwin : serialDist segment.seqnbr q.readCursor + length.toNat ≤ 65535) :
    ∃ i q', q.insert segment data length = .ok (true, q') ∧ q'.WF ∧
      q'.dataBuffer.contents = overlay q.dataBuffer.contents (serialDist segment.seqnbr q.readCursor)
        (data.first length.toNat) ∧
      q'.readCursor = q.readCursor ∧ q.stored i = none ∧
      ∀ j, q'.stored j = if j = i then some { segment with length := length }
        else q.stored j := by
  obtain ⟨b, hw, _, hc⟩ := write_window hq data hwin
  obtain ⟨i, q', h1, hwf, hb, hrc, hnone, hl⟩ := insert_written hq hfull hcur hw
  exact ⟨i, q', h1, hwf, by rw [hb, hc], hrc, hnone, hl⟩

/-! ## `find_front_segment` -/

/-- Record `seg` in slot `i` is the least one below 0xFFFFFFFF. -/
structure Front (q : ReceiveQueue) (i : Nat) (seg : RecvSegment) : Prop where
  stored : q.stored i = some seg
  below : seg.seqnbr.toNat < 4294967295
  least : ∀ j s, q.stored j = some s → seg.seqnbr.toNat < s.seqnbr.toNat
    ∨ (seg.seqnbr.toNat = s.seqnbr.toNat ∧ i ≤ j)

theorem lowestFrom_spec (q : ReceiveQueue) :
    ∀ (l : List Nat) (lowestSeq : SequenceNumber) (lowestIt : Option Nat),
      (∀ i ∈ l, ∃ seg, q.stored i = some seg) → l.Pairwise (· < ·) →
      ∃ r, q.lowestFrom l lowestSeq lowestIt = .ok r ∧
        ((r = lowestIt ∧ ∀ i ∈ l, ∀ seg, q.stored i = some seg →
            lowestSeq.toNat ≤ seg.seqnbr.toNat) ∨
         (∃ i seg, r = some i ∧ i ∈ l ∧ q.stored i = some seg ∧
            seg.seqnbr.toNat < lowestSeq.toNat ∧
            ∀ j ∈ l, ∀ s, q.stored j = some s → seg.seqnbr.toNat < s.seqnbr.toNat
              ∨ (seg.seqnbr.toNat = s.seqnbr.toNat ∧ i ≤ j)))
  | [], lowestSeq, lowestIt, _, _ => ⟨lowestIt, rfl, Or.inl ⟨rfl, by simp⟩⟩
  | it :: rest, lowestSeq, lowestIt, hl, hsorted => by
      obtain ⟨seg, hseg⟩ := hl it (by simp)
      have hget : q.segments.get it = .ok seg := get_spec hseg
      have hrest : ∀ i ∈ rest, ∃ seg, q.stored i = some seg := fun i hi => hl i (by simp [hi])
      obtain ⟨hit, hpw⟩ := List.pairwise_cons.mp hsorted
      have hself : ∀ s, q.stored it = some s → s = seg := by
        intro s hs
        rw [hseg] at hs
        exact (Option.some.inj hs).symm
      by_cases hlt : seg.seqnbr < lowestSeq
      · obtain ⟨r, hr, hcase⟩ := lowestFrom_spec q rest seg.seqnbr (some it) hrest hpw
        refine ⟨r, ?_, .inr ?_⟩
        · rw [lowestFrom, hget, ok_bind, if_pos hlt, hr]
        · rw [lt_iff_toNat] at hlt
          rcases hcase with ⟨rfl, hge⟩ | ⟨i, s, rfl, hi, hs, hslt, hleast⟩
          · -- the new record stays the least one
            refine ⟨it, seg, rfl, by simp, hseg, hlt, ?_⟩
            intro j hj s hs
            rcases List.mem_cons.mp hj with hj | hj
            · subst hj
              rw [hself s hs]
              exact .inr ⟨rfl, Nat.le_refl _⟩
            · have h1 := hge j hj s hs
              have h2 := hit j hj
              omega
          refine ⟨i, s, rfl, by simp [hi], hs, by omega, ?_⟩
          intro j hj t ht
          rcases List.mem_cons.mp hj with hj | hj
          · subst hj
            rw [hself t ht]
            exact .inl hslt
          · exact hleast j hj t ht
      · obtain ⟨r, hr, hcase⟩ := lowestFrom_spec q rest lowestSeq lowestIt hrest hpw
        refine ⟨r, ?_, ?_⟩
        · rw [lowestFrom, hget, ok_bind, if_neg hlt, hr]
        · rw [lt_iff_toNat] at hlt
          rcases hcase with ⟨rfl, hge⟩ | ⟨i, s, rfl, hi, hs, hslt, hleast⟩
          · refine .inl ⟨rfl, ?_⟩
            intro j hj s hs
            rcases List.mem_cons.mp hj with hj | hj
            · subst hj
              rw [hself s hs]
              omega
            · exact hge j hj s hs
          refine .inr ⟨i, s, rfl, by simp [hi], hs, hslt, ?_⟩
          intro j hj t ht
          rcases List.mem_cons.mp hj with hj | hj
          · subst hj
            rw [hself t ht]
            omega
          · exact hleast j hj t ht

theorem findFrontSegment_cases (hq : q.WF) :
    (∃ i seg, q.findFrontSegment = .ok i ∧ q.Front i seg) ∨
    (q.findFrontSegment = .error (.assertion emptyQueueText) ∧
      ∀ i seg, q.stored i = some seg → seg.seqnbr.toNat = 4294967295) := by
  have hmem : ∀ i ∈ q.segments.indices, ∃ seg, q.stored i = some seg :=
    fun i hi => hq.segments.mem_indices.mp hi
  have hall : ∀ i seg, q.stored i = some seg → i ∈ q.segments.indices :=
    fun i seg h => hq.segments.mem_indices.mpr ⟨seg, h⟩
  obtain ⟨r, hr, hcase⟩ := q.lowestFrom_spec q.segments.indices 0xFFFFFFFF none hmem
    (pairwise_indices _)
  have hmax : (0xFFFFFFFF : UInt32).toNat = 4294967295 := rfl
  rcases hcase with ⟨rfl, hge⟩ | ⟨i, seg, rfl, _, hseg, hlt, hleast⟩
  · refine .inr ⟨by rw [findFrontSegment, hr, ok_bind], ?_⟩
    intro i seg h
    have h1 := hge i (hall i seg h) seg h
    have h2 := toNat_lt_border seg.seqnbr
    omega
  · refine .inl ⟨i, seg, by rw [findFrontSegment, hr, ok_bind], hseg, hlt, ?_⟩
    exact fun j s h => hleast j (hall j s h) s h

theorem Front.unique {j : Nat} {s : RecvSegment} (hi : q.Front i seg) (hj : q.Front j s) :
    i = j ∧ seg = s := by
  have h1 := hi.least j s hj.stored
  have h2 := hj.least i seg hi.stored
  have hij : i = j := by omega
  refine ⟨hij, ?_⟩
  have h3 := hi.stored
  rw [hij, hj.stored] at h3
  exact (Option.some.inj h3).symm

theorem findFrontSegment_ok (hq : q.WF) (h : q.Front i seg) : q.findFrontSegment = .ok i := by
  rcases findFrontSegment_cases hq with ⟨j, s, hj, hf⟩ | ⟨_, hall⟩
  · rw [hj, (h.unique hf).1]
  · have := hall i seg h.stored
    have := h.below
    omega

/-! ## The readers -/

theorem size_ne_zero (hq : q.WF) (h : q.stored i = some seg) : q.segments.size ≠ 0 := by
  intro hz
  have hnone : q.segments.lookup i = none := (hq.segments.size_eq_zero.mp hz) i
  rw [stored, hnone] at h
  simp at h

theorem hasReadable_front (hq : q.WF) (h : q.Front i seg) :
    q.hasReadable = .ok (seg.seqnbr == q.readCursor) := by
  rw [hasReadable, if_neg (size_ne_zero hq h.stored), findFrontSegment_ok hq h, ok_bind,
      get_spec h.stored, ok_bind]

theorem hasReadable_true (hq : q.WF) :
    q.hasReadable = .ok true ↔ ∃ i seg, q.Front i seg ∧ seg.seqnbr = q.readCursor := by
  constructor
  · intro h
    rw [hasReadable] at h
    split at h
    · simp at h
    · rcases findFrontSegment_cases hq with ⟨i, seg, hi, hf⟩ | ⟨he, _⟩
      · rw [hi, ok_bind, get_spec hf.stored, ok_bind] at h
        exact ⟨i, seg, hf, by simpa using h⟩
      · rw [he, error_bind] at h
        simp at h
  · rintro ⟨i, seg, hf, hs⟩
    rw [hasReadable_front hq hf, hs]
    simp

theorem front_stored_last (hq : q.WF) (hdrained : q.hasReadable = .ok false)
    (hnone : q.stored i = none) (hl : ∀ j, q'.stored j = if j = i then some segment else q.stored j)
    (hrc : q'.readCursor = q.readCursor) {j : Nat} {s : RecvSegment} (hfront : q'.Front j s)
    (hseq : s.seqnbr = q'.readCursor) : j = i ∧ s = segment := by
  have hji : j = i := by
    by_contra hji
    -- an older record at the cursor would have been readable before
    have hold := hfront.stored
    rw [hl, if_neg hji] at hold
    have hfront0 : q.Front j s := by
      refine ⟨hold, hfront.below, ?_⟩
      intro k t hk
      have hki : k ≠ i := by
        rintro rfl
        rw [hnone] at hk
        simp at hk
      exact hfront.least k t (by rw [hl, if_neg hki]; exact hk)
    have hread0 : q.hasReadable = .ok true :=
      (hasReadable_true hq).mpr ⟨j, s, hfront0, hseq.trans hrc⟩
    rw [hdrained] at hread0
    exact absurd hread0 (by decide)
  refine ⟨hji, ?_⟩
  have hstored := hfront.stored
  rw [hl, if_pos hji] at hstored
  exact (Option.some.inj hstored).symm

theorem readOneSegment_spec (hq : q.WF) (hf : q.Front i seg) (hs : seg.seqnbr = q.readCursor)
    {len : UInt32} (hlen : seg.length.toNat ≤ len.toNat)
    (hbuf : seg.length.toNat ≤ q.dataBuffer.contents.length) :
    ∃ q', q.readOneSegment len
        = .ok (seg, q.dataBuffer.contents.take seg.length.toNat, q') ∧ q'.WF ∧
      q'.dataBuffer.contents = q.dataBuffer.contents.drop seg.length.toNat ∧
      q'.readCursor = q.readCursor + seg.length ∧
      q'.segments.size + 1 = q.segments.size ∧
      ∀ j, q'.stored j = if j = i then none else q.stored j := by
  have hclip : (if len > seg.length then seg.length else len) = seg.length := by
    split
    · rfl
    next hn =>
      rw [gt_iff_lt, lt_iff_toNat] at hn
      rw [eq_iff_toNat]
      omega
  obtain ⟨b, hb, hwfb, hcb⟩ := readFront_spec hq.buffer (by decide) seg.length
  obtain ⟨p, hp, hwfp, hlp⟩ := erase_spec hq.segments hf.stored
  have hsize : p.size + 1 = q.segments.size := by
    have h1 := erase_size hp
    have h2 := size_ne_zero hq hf.stored
    omega
  refine ⟨⟨p, b, q.readCursor + seg.length⟩, ?_, ⟨hwfp, hwfb⟩, hcb, rfl, hsize, hlp⟩
  have htake : (q.dataBuffer.contents.take seg.length.toNat).length = seg.length.toNat := by
    rw [List.length_take]
    omega
  rw [readOneSegment, findFrontSegment_ok hq hf, ok_bind, get_spec hf.stored, ok_bind, hs,
      beq_self_eq_true, check_true, ok_bind, hclip, hb, ok_bind]
  simp only [htake, beq_self_eq_true, check_true, ok_bind, hp]

theorem readOneSegment_ok (hq : q.WF) {len : UInt32} {bytes : List UInt8}
    (h : q.readOneSegment len = .ok (seg, bytes, q')) :
    ∃ i, q.Front i seg ∧ seg.seqnbr = q.readCursor ∧ seg.length.toNat ≤ len.toNat ∧
      seg.length.toNat ≤ q.dataBuffer.contents.length ∧
      bytes = q.dataBuffer.contents.take seg.length.toNat ∧ q'.WF ∧
      q'.dataBuffer.contents = q.dataBuffer.contents.drop seg.length.toNat ∧
      q'.readCursor = q.readCursor + seg.length ∧
      q'.segments.size + 1 = q.segments.size ∧
      ∀ j, q'.stored j = if j = i then none else q.stored j := by
  rcases findFrontSegment_cases hq with ⟨i, s, hi, hf⟩ | ⟨he, _⟩
  · have h0 := h
    rw [readOneSegment, hi, ok_bind, get_spec hf.stored, ok_bind, bind_ok] at h
    obtain ⟨_, hc, h⟩ := h
    rw [check_ok, beq_iff_eq] at hc
    obtain ⟨b, hb, _⟩ := readFront_spec hq.buffer (by decide)
      (if len > s.length then s.length else len)
    rw [hb, ok_bind, bind_ok] at h
    obtain ⟨_, hn, h⟩ := h
    rw [check_ok, beq_iff_eq, List.length_take] at hn
    obtain ⟨p, _, h⟩ := bind_ok.mp h
    have hseg : s = seg := by
      have := Except.ok.inj h
      exact (Prod.mk.inj this).1
    subst hseg
    have hclip : (if len > s.length then s.length else len).toNat ≤ len.toNat := by
      split
      next hgt =>
        rw [gt_iff_lt, lt_iff_toNat] at hgt
        omega
      · exact Nat.le_refl _
    have hlen : s.length.toNat ≤ len.toNat := by omega
    have hbuf : s.length.toNat ≤ q.dataBuffer.contents.length := by omega
    obtain ⟨q1, h1, hwf, hcont, hrc, hsize, hl⟩ := readOneSegment_spec hq hf hc hlen hbuf
    rw [h1] at h0
    have heq := Prod.mk.inj (Except.ok.inj h0)
    obtain ⟨hbytes, hq1⟩ := Prod.mk.inj heq.2
    subst hq1
    exact ⟨i, hf, hc, hlen, hbuf, hbytes.symm, hwf, hcont, hrc, hsize, hl⟩
  · rw [readOneSegment, he, error_bind] at h
    simp at h

end ReceiveQueue

end Peos2.Tcp
