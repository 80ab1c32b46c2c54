/-
  Tcp.Intake — receive queues on which nothing can fail.

  As long as the sequence numbers stay below the 2^32 border and segments fit the buffer
  they are read into, every call on a receive queue returns: a segment is taken in or
  refused, there is a front record whenever there is a record, and the bytes of the record
  at the cursor are buffered.
-/
import Peos2.Tcp.ReceiveQueue

namespace Peos2.Tcp

open Peos2.Lib Peos2.Support

namespace ReceiveQueue

/-! ## The invariant -/

/-- The numbers from `seqnbr` on stay below the 2^32 border, and the bytes fit
the buffer of `step`. -/
structure Inside (seqnbr : SequenceNumber) (length : UInt32) : Prop where
  below : seqnbr.toNat + 1 < 4294967296
  ends : seqnbr.toNat + length.toNat < 4294967296
  short : length.toNat ≤ 20480

/-- A record that can be read when its turn comes: unless the cursor has
passed it, its bytes are buffered. -/
structure Held (q : ReceiveQueue) (r : RecvSegment) : Prop where
  inside : Inside r.seqnbr r.length
  buffered : q.readCursor.toNat ≤ r.seqnbr.toNat → r.length.toNat = 0 ∨
    r.seqnbr.toNat - q.readCursor.toNat + r.length.toNat ≤ q.dataBuffer.contents.length

structure Sound (q : ReceiveQueue) : Prop where
  wf : q.WF
  held : ∀ i r, q.stored i = some r → q.Held r

theorem reset_sound (q : ReceiveQueue) (isn : SequenceNumber) : (q.reset isn).Sound := by
  refine ⟨reset_wf q isn, ?_⟩
  intro i r hr
  simp at hr

/-! ## Taking segments in -/

variable {q : ReceiveQueue}

theorem insert_beyond {segment : RecvSegment} {data : Bytes} {length : UInt32}
    (hin : Inside segment.seqnbr length) (hcur : q.behindCursor segment.seqnbr = false)
    (hwin : 65535 < serialDist segment.seqnbr q.readCursor + length.toNat) :
    q.insert segment data length = .ok (false, q) := by
  refine insert_refused (.inr (.inr ?_))
  obtain ⟨_, _⟩ := hin
  -- the segment lies ahead of the cursor, or behind the wrap of the window
  have hahead : q.readCursor.toNat ≤ segment.seqnbr.toNat ∨
      segment.seqnbr.toNat + 4294967296 < q.readCursor.toNat + 65535 := by
    rw [Bool.eq_false_iff, ne_eq, behindCursor_iff] at hcur
    omega
  have hdist := serialDist_eq segment.seqnbr q.readCursor
  have hminus : serialDist segment.seqnbr q.readCursor ≠ 4294967295 := by
    omega
  have hoffset : q.dataBuffer.startOffset (signed (segment.seqnbr - q.readCursor))
      = signed (segment.seqnbr - q.readCursor) := by
    rw [RingBuffer.startOffset, if_neg]
    -- the sentinel -1 would be a distance of 2^32 - 1
    intro hm1
    refine hminus ?_
    rw [serialDist, ← unsigned_signed (segment.seqnbr - q.readCursor), hm1]
    rfl
  rw [hoffset, unsigned_signed, gt_iff_lt, lt_iff_toNat]
  show 65535 < (serialDist segment.seqnbr q.readCursor + length.toNat) % 4294967296
  omega

theorem insert_size {q' : ReceiveQueue} {segment : RecvSegment} {data : Bytes} {length : UInt32}
    {r : Bool} (hwf : q.segments.WF) (h : q.insert segment data length = .ok (r, q')) :
    q'.segments.size ≤ q.segments.size + 1 := by
  unfold insert at h
  split at h
  · cases h
    omega
  split at h
  · cases h
    omega
  obtain ⟨⟨written, dataBuffer⟩, _, h⟩ := bind_ok.mp h
  simp only at h
  split at h
  · obtain ⟨⟨idx, segments⟩, hput, h⟩ := bind_ok.mp h
    obtain ⟨stored, _, h⟩ := bind_ok.mp h
    obtain ⟨segments', hset, h⟩ := bind_ok.mp h
    cases h
    rw [Pool.size_of_set hset]
    exact Nat.le_of_eq (hwf.size_emplaceAnywhere hput)
  · cases h
    omega

theorem Sound.insert {q : ReceiveQueue} (h : q.Sound) {segment : RecvSegment} (data : Bytes)
    {length : UInt32} (hin : Inside segment.seqnbr length) :
    ∃ r q', q.insert segment data length = .ok (r, q') ∧ q'.Sound := by
  by_cases hfull : q.segments.full = true
  · exact ⟨false, q, insert_refused (.inl hfull), h⟩
  by_cases hcur : q.behindCursor segment.seqnbr = true
  · exact ⟨false, q, insert_refused (.inr (.inl hcur)), h⟩
  rw [Bool.not_eq_true] at hfull hcur
  by_cases hwin : serialDist segment.seqnbr q.readCursor + length.toNat ≤ 65535
  · obtain ⟨i, q', hins, hwf, hcontents, hrc, _, hl⟩ := insert_window h.wf data hfull hcur hwin
    refine ⟨true, q', hins, hwf, ?_⟩
    intro j r hj
    rw [hl] at hj
    split at hj
    · -- the new record
      cases hj
      refine ⟨hin, ?_⟩
      intro hle
      rw [hrc] at hle ⊢
      by_cases hzero : length.toNat = 0
      · exact .inl hzero
      right
      have hne : data.first length.toNat ≠ [] := by
        intro hnil
        have := congrArg List.length hnil
        rw [Bytes.length_first] at this
        exact hzero this
      rw [hcontents, length_overlay _ _ hne, Bytes.length_first, serialDist_eq]
      have := toNat_lt_border segment.seqnbr
      show segment.seqnbr.toNat - q.readCursor.toNat + length.toNat ≤ _
      omega
    · -- an older record
      obtain ⟨hinside, _⟩ := h.held j r hj
      refine ⟨hinside, ?_⟩
      intro hle
      rw [hrc] at hle ⊢
      have hgrow := length_le_overlay q.dataBuffer.contents
        (serialDist segment.seqnbr q.readCursor) (data.first length.toNat)
      rw [← hcontents] at hgrow
      omega
  · exact ⟨false, q, insert_beyond hin hcur (by omega), h⟩

/-! ## Looking and reading -/

theorem Sound.hasReadable (h : q.Sound) : ∃ b, q.hasReadable = .ok b := by
  unfold ReceiveQueue.hasReadable
  by_cases hzero : q.segments.size = 0
  · exact ⟨false, by rw [if_pos hzero]⟩
  rw [if_neg hzero]
  rcases findFrontSegment_cases h.wf with ⟨i, seg, hi, hf⟩ | ⟨_, hall⟩
  · rw [hi, ok_bind, Pool.get_spec hf.stored, ok_bind]
    exact ⟨_, rfl⟩
  -- a queue with records has one below the border
  exfalso
  refine hzero (h.wf.segments.size_eq_zero.mpr ?_)
  intro i
  cases hi : q.segments.lookup i with
  | none => rfl
  | some r =>
    have h1 := hall i r hi
    have h2 := (h.held i r hi).inside.below
    omega

theorem Sound.read {q : ReceiveQueue} (h : q.Sound) (hreadable : q.hasReadable = .ok true)
    {len : UInt32} (hlen : 20480 ≤ len.toNat) :
    ∃ segment bytes q', q.readOneSegment len = .ok (segment, bytes, q') ∧ q'.Sound ∧
      q'.segments.size + 1 = q.segments.size := by
  obtain ⟨i, seg, hf, hs⟩ := (hasReadable_true h.wf).mp hreadable
  obtain ⟨hinside, hbuf⟩ := h.held i seg hf.stored
  have hshort := hinside.short
  have hends := hinside.ends
  have hbytes : seg.length.toNat ≤ q.dataBuffer.contents.length := by
    have := hbuf (by rw [hs])
    omega
  obtain ⟨q', hread, hwf, hcontents, hrc, hsize, hl⟩ :=
    readOneSegment_spec h.wf hf hs (by omega : seg.length.toNat ≤ len.toNat) hbytes
  refine ⟨seg, _, q', hread, ⟨hwf, ?_⟩, hsize⟩
  intro j r hj
  rw [hl] at hj
  split at hj
  · simp at hj
  obtain ⟨hin, _⟩ := h.held j r hj
  refine ⟨hin, ?_⟩
  have hcursor : q'.readCursor.toNat = q.readCursor.toNat + seg.length.toNat := by
    rw [hs] at hends
    rw [hrc, toNat_add_eq]
    omega
  intro hle
  rw [hcontents, List.length_drop]
  omega

end ReceiveQueue

end Peos2.Tcp
