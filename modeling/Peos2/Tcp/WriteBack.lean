/-
  Tcp.WriteBack — what a refused `write_back` leaves behind.

  `write_back` has three reasons to refuse: no room for the bytes, a sequence
  number that is not the write cursor, and 100 queued records. It finds out
  about the third after the bytes were stored and the cursor was moved.

  Main result: `writeBack_atomic_iff`.
-/
import Peos2.Lib.Run
import Peos2.Tcp.SendQueue

namespace Peos2.Tcp

open Peos2.Lib Peos2.Support

namespace SendQueue

variable {q q' : SendQueue} {segment : SendSegment} {data : Option Bytes}
  {dataLength sendLength : UInt32}

/-! ## Every sequence of calls -/

/-- `void set_window(size_t wndsz)` -/
def setWindow (q : SendQueue) (wndsz : UInt32) : SendQueue := { q with wndsz }

inductive PublicStep (q : SendQueue) : SendQueue → Prop
  | reset (seqnbr : SequenceNumber) : PublicStep q (q.reset seqnbr)
  | write {segment : SendSegment} {data : Option Bytes} {dataLength sendLength : UInt32}
      {r : Bool} {q' : SendQueue} :
      q.writeBack segment data dataLength sendLength = .ok (r, q') → PublicStep q q'
  | read {length : UInt32} {r : Option (SendSegment × List UInt8)} {q' : SendQueue} :
      q.readOneSegment length = .ok (r, q') → PublicStep q q'
  | ack {newAckPos : SequenceNumber} {q' : SendQueue} : q.ack newAckPos = .ok q' → PublicStep q q'
  | setWindow (wndsz : UInt32) : PublicStep q (q.setWindow wndsz)

def Live : SendQueue → Prop := Reach (fun q => ∃ q₀, q = reset q₀ 0) PublicStep

def stored (data : Option Bytes) (dataLength : UInt32) : List UInt8 :=
  data.elim [] (·.first dataLength.toNat)

/-- The reasons to refuse that are looked at first. -/
def Refused (q : SendQueue) (segment : SendSegment) (dataLength : UInt32) : Prop :=
  65535 < q.bytes.length + dataLength.toNat ∨ segment.seqnbr ≠ q.writePos

/-- Otherwise the bytes are stored and the cursor moves. -/
theorem writeBack_accepted (data : Option Bytes) (sendLength : UInt32) (h : q.WF)
    (hnot : ¬ q.Refused segment dataLength) :
    ∃ q', q.writeBack segment data dataLength sendLength
        = .ok (decide (q.queued.length < 100), q') ∧ q'.WF ∧
      q'.bytes = q.bytes ++ stored data dataLength ∧ q'.writePos = q.writePos + dataLength ∧
      (100 ≤ q.queued.length → q'.queued = q.queued) ∧ q'.ackPos = q.ackPos ∧
      q'.readPos = q.readPos := by
  have hroom : q.bytes.length + dataLength.toNat ≤ 65535 := by
    by_contra hmany
    exact hnot (.inl (by omega))
  have hseq : segment.seqnbr = q.writePos := by
    by_contra hne
    exact hnot (.inr hne)
  cases data with
  | some bytes =>
    obtain ⟨q', hcall, hwf, hbytes, hqueued, hpos, hack, hread, _⟩ :=
      (writeBack_spec h segment bytes dataLength sendLength).2 hroom hseq
    refine ⟨q', hcall, hwf, hbytes, hpos, fun hfull => ?_, hack, hread⟩
    rw [hqueued, if_neg (Nat.not_lt.mpr hfull)]
  | none =>
    -- a null pointer: nothing is stored, but the cursor moves all the same
    have hfits : ¬ dataLength > q.dataBuffer.capacity - q.dataBuffer.size := by
      rw [room_iff h]
      omega
    by_cases hfull : q.queued.length < 100
    · obtain ⟨s, hpush, hwfs, _⟩ := Queue.pushBack_spec h.segments hfull
        { segment with dataLength, sendLength }
      refine ⟨{ q with segments := s, writePos := q.writePos + dataLength }, ?_,
        ⟨h.buffer, hwfs⟩, (List.append_nil _).symm, rfl, fun hmany => by omega, rfl, rfl⟩
      unfold writeBack
      rw [if_neg hfits, if_neg (not_not_intro hseq)]
      simp only [ok_bind, hpush, decide_eq_true hfull]
    have hlen := h.length_queued
    have hpush := Queue.pushBack_full h.segments (show q.queued.length = 100 by omega)
      { segment with dataLength, sendLength }
    refine ⟨{ q with writePos := q.writePos + dataLength }, ?_, ⟨h.buffer, h.segments⟩,
      (List.append_nil _).symm, rfl, fun _ => rfl, rfl, rfl⟩
    unfold writeBack
    rw [if_neg hfits, if_neg (not_not_intro hseq)]
    simp only [ok_bind, hpush, decide_eq_false hfull]

theorem readOneSegment_containers {length : UInt32} {r : Option (SendSegment × List UInt8)}
    (hcall : q.readOneSegment length = .ok (r, q')) :
    q'.dataBuffer = q.dataBuffer ∧ q'.segments = q.segments := by
  unfold readOneSegment at hcall
  split at hcall
  · cases hcall
    exact ⟨rfl, rfl⟩
  obtain ⟨active, _, hcall⟩ := bind_ok.mp hcall
  split at hcall
  · cases hcall
    exact ⟨rfl, rfl⟩
  · obtain ⟨bytes, _, hcall⟩ := bind_ok.mp hcall
    obtain ⟨_, _, hcall⟩ := bind_ok.mp hcall
    cases hcall
    exact ⟨rfl, rfl⟩

theorem PublicStep.wf (h : q.WF) (hstep : PublicStep q q') : q'.WF := by
  cases hstep with
  | reset seqnbr => exact reset_wf q seqnbr
  | @write segment data dataLength sendLength r q' hcall =>
    by_cases href : q.Refused segment dataLength
    · rw [writeBack_refused h href] at hcall
      cases hcall
      exact h
    · obtain ⟨q1, hcall1, hwf, _⟩ := writeBack_accepted data sendLength h href
      rw [hcall1] at hcall
      cases hcall
      exact hwf
  | read hcall =>
    obtain ⟨hbuffer, hsegments⟩ := readOneSegment_containers hcall
    exact ⟨hbuffer ▸ h.buffer, hsegments ▸ h.segments⟩
  | ack hcall => exact (ackFrom_pops _ h hcall).2.2
  | setWindow wndsz => exact ⟨h.buffer, h.segments⟩

/-- The containers are well-formed after every sequence of calls. -/
theorem Live.wf (hq : q.Live) : q.WF := by
  refine Reach.invariant ?_ ?_ hq
  · intro q hinit
    obtain ⟨q0, rfl⟩ := hinit
    exact reset_wf q0 0
  · intro q q' _ hwf hstep
    exact hstep.wf hwf

/-! ## Refused calls -/

/-- Both positions, the read position, the bytes and the records are the same. -/
structure Unchanged (q q' : SendQueue) : Prop where
  writePos : q'.writePos = q.writePos
  ackPos : q'.ackPos = q.ackPos
  bytes : q'.bytes = q.bytes
  queued : q'.queued = q.queued
  readPos : q'.readPos = q.readPos

/-- If the call returns false, it has changed nothing. -/
def AtomicWrite (q : SendQueue) (segment : SendSegment) (data : Option Bytes)
    (dataLength sendLength : UInt32) : Prop :=
  ∀ q', q.writeBack segment data dataLength sendLength = .ok (false, q') → q.Unchanged q'

/-- **When a refused `write_back` has changed nothing**: unless its data fits, its number is the
write cursor and 100 records are queued, so that the cursor was moved before. -/
theorem writeBack_atomic_iff (hq : q.Live) :
    q.AtomicWrite segment data dataLength sendLength ↔
      dataLength = 0 ∨ 65535 < q.bytes.length + dataLength.toNat ∨ segment.seqnbr ≠ q.writePos ∨
        q.queued.length < 100 := by
  have hwf := hq.wf
  by_cases href : q.Refused segment dataLength
  · constructor
    · intro _
      rcases href with hroom | hseq
      · exact .inr (.inl hroom)
      · exact .inr (.inr (.inl hseq))
    · intro _ q' hcall
      rw [writeBack_refused hwf href] at hcall
      cases hcall
      exact ⟨rfl, rfl, rfl, rfl, rfl⟩
  obtain ⟨q₁, hcall₁, _, hbytes, hpos, hqueued, hack, hread⟩ :=
    writeBack_accepted data sendLength hwf href
  constructor
  · intro hatomic
    by_cases hroom : q.queued.length < 100
    · exact .inr (.inr (.inr hroom))
    -- the cursor has not moved, so there was nothing to write
    rw [decide_eq_false hroom] at hcall₁
    have hsame := (hatomic q₁ hcall₁).writePos
    rw [hpos, eq_iff_toNat, toNat_add_eq] at hsame
    have hborder' := toNat_lt_border dataLength
    left
    rw [eq_iff_toNat]
    show dataLength.toNat = 0
    omega
  · intro hcases q' hcall
    rw [hcall₁] at hcall
    obtain ⟨hfull, heq⟩ := Prod.mk.inj (Except.ok.inj hcall)
    rw [decide_eq_false_iff_not] at hfull
    rcases hcases with hzero | hroom | hseq | hlt
    · rw [← heq]
      refine ⟨by rw [hpos, hzero, UInt32.add_zero], hack, ?_, hqueued (by omega), hread⟩
      rw [hbytes, hzero]
      cases data <;> exact List.append_nil _
    · exact absurd (.inl hroom) href
    · exact absurd (.inr hseq) href
    · exact absurd hlt hfull

def fresh : SendQueue := reset ⟨0, 0, 0, 0, ⟨⟨fun _ => 0, 0, 0⟩⟩, ⟨fun _ => ⟨0, 0, 0, 0⟩, 0, 0⟩⟩ 0

def writeByte (q : SendQueue) : Checked (Bool × SendQueue) :=
  q.writeBack ⟨0x10, q.writePos, 0, 0⟩ (some fun _ => 0x61) 1 1

def writeBytes (n : Nat) : Checked SendQueue :=
  (List.replicate n ()).foldlM (fun q _ => (writeByte q).map Prod.snd) fresh

theorem writeBytes_live {n : Nat} {q : SendQueue} (h : writeBytes n = .ok q) : q.Live := by
  refine Reach.foldlM ?_ (.init ⟨_, rfl⟩) h
  intro q _ q' _ hcall
  obtain ⟨r, hwrite, rfl⟩ := map_ok.mp hcall
  exact .write hwrite

/-- With 99 segments queued there is room for the next, and with 100 a call without bytes
is refused without a trace. -/
theorem writeBack_atomic_iff_crowded : ∃ q q' : SendQueue, q.queued.length = 99 ∧
    q'.queued.length = 100 ∧ q.AtomicWrite ⟨0x10, q.writePos, 0, 0⟩ (some fun _ => 0x61) 1 1 ∧
    q'.AtomicWrite ⟨0x10, q'.writePos, 0, 0⟩ none 0 0 := by
  have hrun : (writeBytes 99 >>= fun q => (writeBytes 100).map fun q' =>
      (q.queued.length, q'.queued.length)) = .ok (99, 100) := by
    decide +kernel
  obtain ⟨q, hq, hrun⟩ := bind_ok.mp hrun
  obtain ⟨q', hq', hvalues⟩ := map_ok.mp hrun
  obtain ⟨hlen, hlen'⟩ := Prod.mk.inj hvalues
  exact ⟨q, q', hlen, hlen', (writeBack_atomic_iff (writeBytes_live hq)).mpr
    (.inr (.inr (.inr (by omega)))), (writeBack_atomic_iff (writeBytes_live hq')).mpr (.inl rfl)⟩

/-- **The byte of a refused call stays in the buffer.** With 100 segments queued the next one is
refused, but the cursor has moved past it, and no segment goes with the byte. -/
theorem writeBack_leaves_byte : ∃ q q' : SendQueue, q.Live ∧ q.writeByte = .ok (false, q') ∧
    q'.writePos = q.writePos + 1 ∧ q'.bytes.length = q.bytes.length + 1 ∧
    q'.queued.length = q.queued.length := by
  have hrun : (writeBytes 100).map (fun q => [q.bytes.length, q.queued.length])
      = .ok [100, 100] := by
    decide +kernel
  obtain ⟨q, hwrites, hvalues⟩ := map_ok.mp hrun
  have hreach := writeBytes_live hwrites
  obtain ⟨hbytes, hrest⟩ := List.cons.inj hvalues
  have hqueued : q.queued.length = 100 := List.head_eq_of_cons_eq hrest
  have hnot : ¬ q.Refused ⟨0x10, q.writePos, 0, 0⟩ 1 := by
    rintro (hroom | hseq)
    · rw [hbytes] at hroom
      exact absurd hroom (by decide)
    · exact hseq rfl
  obtain ⟨q', hcall, _, hbytes', hpos, hsame, _⟩ :=
    writeBack_accepted (some fun _ => 0x61) 1 hreach.wf hnot
  refine ⟨q, q', hreach, ?_, hpos, by rw [hbytes', List.length_append]; rfl, ?_⟩
  · rw [writeByte, hcall, hqueued]
    rfl
  · rw [hsame (by omega)]

end SendQueue

end Peos2.Tcp
