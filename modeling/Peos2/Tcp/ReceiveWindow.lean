/-
  Tcp.ReceiveWindow — what `receive_queue::insert` lets in.

  A segment belongs into the window when its distance from the read cursor plus its length
  is at most 0xFFFF. Three tests decide: the cursor test of `insert`, the sentinel -1 of
  `ring_buffer::write` and the 32-bit sum `offset + length`. They agree with the window
  except where that sum passes the 2^32 border, or where the distance is the sentinel.

  Main result: `windowSafe_iff`.
-/
import Peos2.Lib.Run
import Peos2.Tcp.ReceiveQueue

namespace Peos2.Tcp

open Peos2.Lib Peos2.Support RingBuffer

namespace ReceiveQueue

/-! ## Runs -/

/-- One call of `insert` or `read_one_segment` that returns. -/
inductive Call : ReceiveQueue → ReceiveQueue → Prop
  | insert {q q' : ReceiveQueue} {segment : RecvSegment} {data : Bytes} {length : UInt32}
      {r : Bool} : q.insert segment data length = .ok (r, q') → Call q q'
  | read {q q' : ReceiveQueue} {len : UInt32} {segment : RecvSegment} {bytes : List UInt8} :
      q.readOneSegment len = .ok (segment, bytes, q') → Call q q'

/-- A queue just after `reset`, whatever its storage held before. -/
def Fresh (q : ReceiveQueue) : Prop := ∃ q0 isn, q = reset q0 isn

def Reachable (q : ReceiveQueue) : Prop := Reach Fresh Call q

variable {q : ReceiveQueue} {data : Bytes} {length : UInt32} {segment : RecvSegment}

theorem Call.wf {q' : ReceiveQueue} (h : Call q q') (hq : q.WF) : q'.WF := by
  cases h with
  | insert h => exact insert_ok_wf hq h
  | read h =>
    obtain ⟨_, _, _, _, _, _, hwf, _⟩ := readOneSegment_ok hq h
    exact hwf

theorem Reachable.wf (h : Reachable q) : q.WF := by
  refine Reach.invariant ?_ (fun s s' _ hs hcall => hcall.wf hs) h
  rintro q ⟨q0, isn, rfl⟩
  exact reset_wf q0 isn

/-! ## The window -/

/-- The offsets that an `insert` hands to `queue::replace`. -/
def handed (q : ReceiveQueue) (segment : RecvSegment) (data : Bytes) (length : UInt32) :
    List Int :=
  if q.segments.full then []
  else if q.behindCursor segment.seqnbr then []
  else q.dataBuffer.writeHanded data length (signed (segment.seqnbr - q.readCursor))

/-- An `insert` respects the receive window. -/
structure WindowSafe (q : ReceiveQueue) (segment : RecvSegment) (data : Bytes)
    (length : UInt32) : Prop where
  /-- What is accepted lies wholly inside the window. -/
  inside : ∀ q', q.insert segment data length = .ok (true, q') →
    serialDist segment.seqnbr q.readCursor + length.toNat ≤ 0xFFFF
  /-- Every offset handed to `replace` is an index of the storage. -/
  indices : ∀ o ∈ q.handed segment data length, 0 ≤ o ∧ o < 0xFFFF
  /-- What starts behind the cursor is refused. -/
  behind : signed (segment.seqnbr - q.readCursor) < 0 →
    q.insert segment data length = .ok (false, q)

/-- The inserts that the tests sort out in full: the pool is full, the cursor test refuses, the
appending write that distance 2^32 - 1 stands for does not fit, or distance plus length is above
the capacity and below the 2^32 border. -/
def SortedOut (q : ReceiveQueue) (seqnbr : SequenceNumber) (length : UInt32) : Prop :=
  q.segments.full = true ∨
  (seqnbr.toNat < q.readCursor.toNat ∧
    (4294967296 ≤ q.readCursor.toNat + 0xFFFF →
      q.readCursor.toNat + 0xFFFF ≤ seqnbr.toNat + 4294967296)) ∨
  (if serialDist seqnbr q.readCursor = 4294967295 then
    0xFFFF < (q.dataBuffer.contents.length + length.toNat) % 4294967296
  else
    0xFFFF < (serialDist seqnbr q.readCursor + length.toNat) % 4294967296 ∨
      serialDist seqnbr q.readCursor + length.toNat < 4294967296)

theorem insert_ne_false {q' : ReceiveQueue} (hfull : q.segments.full = false)
    (hcur : q.behindCursor segment.seqnbr = false)
    (hsum : ¬ unsigned (q.dataBuffer.startOffset (signed (segment.seqnbr - q.readCursor)))
      + length > q.dataBuffer.capacity) : q.insert segment data length ≠ .ok (false, q') := by
  intro h
  simp only [insert, hfull, hcur, Bool.false_eq_true, if_false, write, if_neg hsum] at h
  obtain ⟨⟨written, b⟩, hw, h⟩ := bind_ok.mp h
  obtain ⟨queue, _, hw⟩ := bind_ok.mp hw
  cases hw
  simp only [if_true, bind_ok] at h
  simp at h

theorem startOffset_eq (q : ReceiveQueue) (s : SequenceNumber) :
    q.dataBuffer.startOffset (signed (s - q.readCursor)) =
      if serialDist s q.readCursor = 4294967295 then q.dataBuffer.queue.size
      else signed (s - q.readCursor) := by
  have hneg : signed (s - q.readCursor) = -1 ↔ serialDist s q.readCursor = 4294967295 := by
    rcases Nat.lt_or_ge (serialDist s q.readCursor) 2147483648 with h | h
    · rw [signed_of_lt h]
      omega
    · rw [signed_of_ge h]
      unfold serialDist at h ⊢
      omega
  unfold startOffset
  by_cases h : serialDist s q.readCursor = 4294967295
  · rw [if_pos (hneg.mpr h), if_pos h]
  · rw [if_neg (fun hc => h (hneg.mp hc)), if_neg h]

theorem sumTest_iff (hq : q.WF) (s : SequenceNumber) (length : UInt32) :
    unsigned (q.dataBuffer.startOffset (signed (s - q.readCursor))) + length
        > q.dataBuffer.capacity ↔
      0xFFFF < ((if serialDist s q.readCursor = 4294967295 then q.dataBuffer.contents.length
        else serialDist s q.readCursor) + length.toNat) % 4294967296 := by
  rw [gt_iff_lt, lt_iff_toNat, toNat_add_eq, q.toNat_capacity, startOffset_eq]
  split
  · rw [show unsigned q.dataBuffer.queue.size = q.dataBuffer.size from rfl,
        hq.buffer.toNat_size (by decide)]
  · rw [unsigned_signed]
    rfl

/-- Sufficiency: what the tests sort out in full respects the window. -/
theorem windowSafe_of_sortedOut (hq : q.WF) (h : q.SortedOut segment.seqnbr length) :
    q.WindowSafe segment data length := by
  by_cases href : q.segments.full = true ∨ q.behindCursor segment.seqnbr = true ∨
      unsigned (q.dataBuffer.startOffset (signed (segment.seqnbr - q.readCursor))) + length
        > q.dataBuffer.capacity
  · -- one of the tests refuses
    have hins := @insert_refused q segment data length href
    refine ⟨?_, ?_, fun _ => hins⟩
    · intro q' h'
      rw [hins] at h'
      simp at h'
    · intro o ho
      unfold handed at ho
      split at ho
      · simp at ho
      split at ho
      · simp at ho
      next h1 h2 =>
        unfold writeHanded at ho
        rw [if_pos ((href.resolve_left h1).resolve_left h2)] at ho
        simp at ho
  · -- none refuses: then the segment lies inside the window
    rw [not_or, not_or, sumTest_iff hq, behindCursor_iff] at href
    obtain ⟨hfull, hcur, hsum⟩ := href
    have hwin : serialDist segment.seqnbr q.readCursor + length.toNat ≤ 0xFFFF := by
      rcases h with h | h | h
      · exact absurd h hfull
      · exact absurd h hcur
      split at h
      next h1 =>
        rw [if_pos h1] at hsum
        omega
      next h1 =>
        rw [if_neg h1] at hsum
        omega
    have hsigned : signed (segment.seqnbr - q.readCursor)
        = (serialDist segment.seqnbr q.readCursor : Nat) :=
      signed_of_lt (show serialDist segment.seqnbr q.readCursor < 2147483648 by omega)
    refine ⟨fun _ _ => hwin, ?_, ?_⟩
    · intro o ho
      unfold handed at ho
      split at ho
      · simp at ho
      · split at ho
        · simp at ho
        · rw [hsigned] at ho
          exact writeHanded_inside hq.buffer (by decide) data length _ hwin o ho
    · intro hneg
      omega

/-- Necessity: where the tests disagree with the window, a segment from
behind is not refused or an offset leaves the storage. -/
theorem sortedOut_of_windowSafe (hq : q.WF) (h : q.WindowSafe segment data length) :
    q.SortedOut segment.seqnbr length := by
  by_contra hno
  have hd := serialDist_lt segment.seqnbr q.readCursor
  rw [SortedOut, not_or, not_or] at hno
  obtain ⟨hfull, hcur, hrest⟩ := hno
  rw [← behindCursor_iff, Bool.not_eq_true] at hcur
  rw [Bool.not_eq_true] at hfull
  have hsum : ¬ unsigned (q.dataBuffer.startOffset (signed (segment.seqnbr - q.readCursor)))
      + length > q.dataBuffer.capacity := by
    rw [sumTest_iff hq]
    split at hrest
    next h1 =>
      rw [if_pos h1]
      exact hrest
    next h1 =>
      rw [if_neg h1]
      exact fun hc => hrest (.inl hc)
  rcases Nat.lt_or_ge (serialDist segment.seqnbr q.readCursor) 2147483648 with hlow | hhigh
  · -- ahead of the cursor, the length makes the sum wrap
    rw [if_neg (by omega)] at hrest
    have hsigned : signed (segment.seqnbr - q.readCursor)
        = (serialDist segment.seqnbr q.readCursor : Nat) := signed_of_lt hlow
    have hstart : q.dataBuffer.startOffset (signed (segment.seqnbr - q.readCursor))
        = (serialDist segment.seqnbr q.readCursor : Nat) := by
      rw [startOffset_eq, if_neg (by omega), hsigned]
    rw [hstart] at hsum
    obtain ⟨o, ho, hout⟩ := writeHanded_outside hq.buffer (by decide) data length
      (serialDist segment.seqnbr q.readCursor) hlow (by omega) hsum
    refine hout (h.indices o ?_)
    unfold handed
    rw [if_neg (by simp [hfull]), if_neg (by simp [hcur]), hsigned]
    exact ho
  · -- behind the cursor it is never refused
    refine insert_ne_false hfull hcur hsum (h.behind ?_)
    rw [signed_of_ge hhigh]
    unfold serialDist at hd
    omega

/-- **When an insert respects the window**: for every reachable queue, every
segment and every length, exactly when the tests sort it out in full. -/
theorem windowSafe_iff {q : ReceiveQueue} (h : Reachable q) (segment : RecvSegment)
    (data : Bytes) (length : UInt32) :
    q.WindowSafe segment data length ↔ q.SortedOut segment.seqnbr length :=
  ⟨sortedOut_of_windowSafe h.wf, windowSafe_of_sortedOut h.wf⟩

/-- Four bytes two above the cursor are sorted out, so they are safe. -/
theorem windowSafe_ahead :
    (blank.reset 5).WindowSafe ⟨ACK, 7, 0⟩ (fun _ => 0x61) 4 :=
  (windowSafe_iff (Reach.init ⟨blank, 5, rfl⟩) ⟨ACK, 7, 0⟩ (fun _ => 0x61) 4).mpr
    (.inr (.inr (by decide)))

/-! ## A retransmission across the 2^32 border -/

/-- Four bytes arrive at 0xFFFFFFFE, are read, and arrive once more: the queue
they meet the second time, and whether it accepts them. -/
def retransmission (segment : RecvSegment) (data : Bytes) : Checked (ReceiveQueue × Bool) := do
  let (_, q) ← (blank.reset 0xFFFFFFFE).insert segment data 4
  let (_, _, q) ← q.readOneSegment 4
  let (accepted, _) ← q.insert segment data 4
  .ok (q, accepted)

/-- The segment just delivered is accepted again, 2^32 - 4 above the cursor. -/
theorem retransmission_accepted :
    ∃ q, Reachable q ∧ q.readCursor = 2 ∧
      ¬ q.WindowSafe ⟨ACK, 0xFFFFFFFE, 0⟩ (fun _ => 0x61) 4 := by
  have hrun : (retransmission ⟨ACK, 0xFFFFFFFE, 0⟩ (fun _ => 0x61)).map
      (fun r => (r.1.readCursor, r.2)) = .ok (2, true) := by decide
  rw [map_ok] at hrun
  obtain ⟨r, hret, hr⟩ := hrun
  obtain ⟨hcursor, haccepted⟩ := Prod.mk.inj hr
  rw [retransmission, bind_ok] at hret
  obtain ⟨⟨_, q1⟩, h1, hret⟩ := hret
  obtain ⟨⟨_, _, q2⟩, h2, hret⟩ := bind_ok.mp hret
  obtain ⟨⟨accepted, q3⟩, h3, hret⟩ := bind_ok.mp hret
  cases hret
  cases haccepted
  refine ⟨q2, ?_, hcursor, ?_⟩
  · exact ((Reach.init ⟨blank, 0xFFFFFFFE, rfl⟩).step (.insert h1)).step (.read h2)
  · intro hsafe
    have hin := hsafe.inside q3 h3
    rw [show q2.readCursor = 2 from hcursor] at hin
    exact absurd hin (by decide)

end ReceiveQueue

end Peos2.Tcp
