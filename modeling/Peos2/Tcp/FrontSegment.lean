/-
  Tcp.FrontSegment — the order in which the receive queue reads.

  `find_front_segment` compares sequence numbers as plain 32-bit numbers and
  uses 0xFFFFFFFF for "none yet". In a window that straddles the 2^32
  border the numerically lowest record is not the next one, and a record at
  0xFFFFFFFF is never found.

  Main results: `frontCorrect_iff`, `front_at_border`.
-/
import Peos2.Tcp.ReceiveQueue

namespace Peos2.Tcp

open Peos2.Lib Peos2.Support

namespace ReceiveQueue

/-! ## Queues with all segments inside the window -/

/-- Every record starts inside the 0xFFFF bytes from the cursor on, modulo
2^32, and its bytes are buffered. -/
structure Windowed (q : ReceiveQueue) : Prop where
  wf : q.WF
  starts : ∀ i r, q.stored i = some r → serialDist r.seqnbr q.readCursor < 0xFFFF
  buffered : ∀ i r, q.stored i = some r → 0 < r.length.toNat →
    serialDist r.seqnbr q.readCursor + r.length.toNat ≤ q.dataBuffer.contents.length

theorem reset_windowed (q : ReceiveQueue) (isn : SequenceNumber) : (q.reset isn).Windowed := by
  refine ⟨reset_wf q isn, ?_, ?_⟩
  · intro i r hr
    simp at hr
  · intro i r hr _
    simp at hr

theorem Windowed.insert {q q' : ReceiveQueue} (h : q.Windowed) {segment : RecvSegment}
    {data : Bytes} {length : UInt32} {r : Bool}
    (hstart : serialDist segment.seqnbr q.readCursor < 0xFFFF)
    (hwin : serialDist segment.seqnbr q.readCursor + length.toNat ≤ 0xFFFF)
    (hcall : q.insert segment data length = .ok (r, q')) : q'.Windowed := by
  rcases insert_ok_cases h.wf hcall with ⟨_, rfl⟩ | ⟨_, _, _, hwf, hrc, hw, i, _, hl⟩
  · exact h
  obtain ⟨b, hb, _, hc⟩ := write_window h.wf data hwin
  rw [hw] at hb
  cases hb
  refine ⟨hwf, ?_, ?_⟩
  · intro j t ht
    rw [hl j] at ht
    rw [hrc]
    split at ht
    · cases ht
      exact hstart
    · exact h.starts j t ht
  · -- the buffer only grows, up to the end of the new segment at least
    intro j t ht hpos
    rw [hl j] at ht
    rw [hrc, hc]
    split at ht
    · cases ht
      have hpos' : 0 < length.toNat := hpos
      have hds : data.first length.toNat ≠ [] := by
        rw [← List.length_pos_iff, Bytes.length_first]
        exact hpos'
      rw [length_overlay _ _ hds, Bytes.length_first]
      exact Nat.le_max_right _ _
    · exact Nat.le_trans (h.buffered j t ht hpos) (length_le_overlay _ _ _)

/-! ## What the readers should see -/

def Waiting (q : ReceiveQueue) : Prop := ∃ i r, q.stored i = some r ∧ r.seqnbr = q.readCursor

/-- The readers fail no assertion and see the segment at the cursor. -/
structure FrontCorrect (q : ReceiveQueue) : Prop where
  hasReadable_ok : ∃ b, q.hasReadable = .ok b
  readableUntil_ok : ∃ s, q.readableUntil = .ok s
  readable_iff : q.hasReadable = .ok true ↔ q.Waiting
  reads : q.Waiting → ∀ len : UInt32,
    (∀ i r, q.stored i = some r → r.length.toNat ≤ len.toNat) →
    ∃ i r bytes q', q.readOneSegment len = .ok (r, bytes, q') ∧ q.stored i = some r ∧
      r.seqnbr = q.readCursor

/-- Some record is not at 0xFFFFFFFF, and none is numerically below a cursor
at which a record waits. -/
def NumericallyOrdered (q : ReceiveQueue) : Prop :=
  (∃ i r, q.stored i = some r ∧ r.seqnbr ≠ 0xFFFFFFFF) ∧
  (q.Waiting → ∀ i r, q.stored i = some r → q.readCursor ≤ r.seqnbr)

theorem readableUntil_front {q : ReceiveQueue} (hq : q.WF) {i : Nat} {r : RecvSegment}
    (h : q.Front i r) :
    q.readableUntil = .ok (if r.seqnbr = q.readCursor then q.readCursor + r.length
      else q.readCursor) := by
  rw [readableUntil, if_neg (size_ne_zero hq h.stored), findFrontSegment_ok hq h, ok_bind,
      Pool.get_spec h.stored, ok_bind]
  split <;> rfl

theorem NumericallyOrdered.front {q : ReceiveQueue} (hq : q.WF) (h : q.NumericallyOrdered) :
    ∃ i r, q.Front i r ∧ (q.Waiting → r.seqnbr = q.readCursor) := by
  obtain ⟨⟨j, t, ht, hmax⟩, hord⟩ := h
  rcases findFrontSegment_cases hq with ⟨i, r, _, hf⟩ | ⟨_, hall⟩
  · refine ⟨i, r, hf, ?_⟩
    intro hw
    have hge := hord hw i r hf.stored
    obtain ⟨a, s, hs, hseq⟩ := hw
    have hle := hf.least a s hs
    rw [le_iff_toNat] at hge
    rw [hseq] at hle
    rw [eq_iff_toNat]
    omega
  · exact absurd (eq_iff_toNat.mpr (hall j t ht)) hmax

/-- **When the readers see the segment at the cursor.** -/
theorem frontCorrect_iff {q : ReceiveQueue} (h : q.Windowed)
    (hne : ∃ i r, q.stored i = some r) : q.FrontCorrect ↔ q.NumericallyOrdered := by
  constructor
  · intro hc
    rcases findFrontSegment_cases h.wf with ⟨i, r, _, hf⟩ | ⟨he, _⟩
    · refine ⟨⟨i, r, hf.stored, ?_⟩, ?_⟩
      · intro hmax
        have := hf.below
        rw [hmax] at this
        exact absurd this (by decide)
      · intro hw j t ht
        obtain ⟨i', r', hf', hseq⟩ := (hasReadable_true h.wf).mp (hc.readable_iff.mpr hw)
        have := hf'.least j t ht
        rw [hseq] at this
        rw [le_iff_toNat]
        omega
    · -- with no front record `has_readable` fails its assertion
      exfalso
      obtain ⟨i, r, hr⟩ := hne
      obtain ⟨b, hb⟩ := hc.hasReadable_ok
      rw [hasReadable, if_neg (size_ne_zero h.wf hr), he] at hb
      simp at hb
  · intro hord
    obtain ⟨i, r, hf, hat⟩ := hord.front h.wf
    refine ⟨⟨_, hasReadable_front h.wf hf⟩, ⟨_, readableUntil_front h.wf hf⟩, ?_, ?_⟩
    · constructor
      · intro hread
        obtain ⟨i', r', hf', hseq⟩ := (hasReadable_true h.wf).mp hread
        exact ⟨i', r', hf'.stored, hseq⟩
      · intro hw
        exact (hasReadable_true h.wf).mpr ⟨i, r, hf, hat hw⟩
    · intro hw len hlen
      have hbuf : r.length.toNat ≤ q.dataBuffer.contents.length := by
        have := h.buffered i r hf.stored
        rcases Nat.eq_zero_or_pos r.length.toNat with _ | hpos
        · omega
        · omega
      obtain ⟨q', hread, _⟩ := readOneSegment_spec h.wf hf (hat hw) (hlen i r hf.stored) hbuf
      exact ⟨i, r, _, q', hread, hf.stored, hat hw⟩

/-! ## One segment after a reset -/

theorem first_byte (isn : SequenceNumber) :
    ∃ q : ReceiveQueue, q.Windowed ∧ q.readCursor = isn ∧
      ∃ i, ∀ j, q.stored j = if j = i then some ⟨SYN, isn, 1⟩ else none := by
  have hdist : serialDist isn (blank.reset isn).readCursor = 0 := serialDist_self isn
  have hwin : serialDist isn (blank.reset isn).readCursor + (1 : UInt32).toNat ≤ 65535 := by
    rw [hdist]
    decide
  obtain ⟨i, q, hins, _, _, hrc, _, hl⟩ := @insert_window (blank.reset isn) (reset_wf _ _)
    ⟨SYN, isn, 0⟩ (fun _ => 0x21) 1 rfl
    (behindCursor_of_serialDist _ (by rw [hdist]; decide)) hwin
  refine ⟨q, ?_, hrc, i, ?_⟩
  · refine (reset_windowed blank isn).insert ?_ ?_ hins
    · show serialDist isn (blank.reset isn).readCursor < 0xFFFF
      rw [hdist]
      decide
    · exact hwin
  · intro j
    rw [hl j, stored_reset]

/-- Five bytes at number 12 come in before the five at the cursor. -/
def crossed : Checked ReceiveQueue := do
  let (_, q) ← (blank.reset 7).insert ⟨ACK, 12, 0⟩ (fun _ => 0x62) 5
  let (_, q) ← q.insert ⟨ACK, 7, 0⟩ (fun _ => 0x61) 5
  .ok q

theorem frontCorrect_crossed : ∃ q : ReceiveQueue, crossed = .ok q ∧ q.segments.size = 2 ∧
    q.Waiting ∧ q.FrontCorrect ∧ q.hasReadable = .ok true := by
  have hrun : crossed.map (fun q => (q.readCursor, q.segments.size, q.segments.watermark,
      q.stored 0, q.stored 1)) = .ok (7, 2, 2, some ⟨ACK, 12, 5⟩, some ⟨ACK, 7, 5⟩) := by
    decide +kernel
  obtain ⟨q, hcalls, hvalues⟩ := map_ok.mp hrun
  simp only [Prod.mk.injEq] at hvalues
  obtain ⟨hrc, hsize, hmark, hlater, hfirst⟩ := hvalues
  have hw : q.Windowed := by
    obtain ⟨⟨r₁, q₁⟩, hcall₁, hcalls⟩ := bind_ok.mp hcalls
    obtain ⟨⟨r₂, q₂⟩, hcall₂, hcalls⟩ := bind_ok.mp hcalls
    cases hcalls
    have hrc₁ : q₁.readCursor = 7 := by
      rcases insert_ok_cases (reset_wf _ _) hcall₁ with ⟨_, rfl⟩ | ⟨_, _, _, _, hrc₁, _⟩
      · rfl
      · exact hrc₁
    refine ((reset_windowed blank 7).insert (by decide) (by decide) hcall₁).insert ?_ ?_ hcall₂
    · rw [hrc₁]
      decide
    · rw [hrc₁]
      decide
  have hwaiting : q.Waiting := ⟨1, _, hfirst, hrc.symm⟩
  have hfront : q.FrontCorrect := by
    refine (frontCorrect_iff hw ⟨1, _, hfirst⟩).mpr ⟨⟨1, _, hfirst, by decide⟩, ?_⟩
    intro _ i r hr
    have hlt := Pool.lookup_lt_watermark hr
    have hcases : i = 0 ∨ i = 1 := by omega
    rw [hrc]
    rcases hcases with rfl | rfl
    · cases hr.symm.trans hlater
      decide
    · cases hr.symm.trans hfirst
      decide
  exact ⟨q, hcalls, hsize, hwaiting, hfront, hfront.readable_iff.mpr hwaiting⟩

/-- **The border case**: the one byte of a SYN with sequence number 0xFFFFFFFF
is stored at the cursor, and `has_readable` fails its assertion. -/
theorem front_at_border :
    ∃ q : ReceiveQueue, q.Windowed ∧ (∃ i r, q.stored i = some r) ∧ q.readCursor = 0xFFFFFFFF ∧ q.Waiting ∧
      q.hasReadable = .error (.assertion emptyQueueText) ∧ ¬ q.FrontCorrect := by
  obtain ⟨q, hw, hrc, i, hl⟩ := first_byte 0xFFFFFFFF
  have hi : q.stored i = some ⟨SYN, 0xFFFFFFFF, 1⟩ := by rw [hl, if_pos rfl]
  have herr : q.hasReadable = .error (.assertion emptyQueueText) := by
    rcases findFrontSegment_cases hw.wf with ⟨j, r, _, hf⟩ | ⟨he, _⟩
    · have hj := hf.stored
      have hbelow := hf.below
      rw [hl j] at hj
      split at hj
      · cases hj
        exact absurd hbelow (by decide)
      · simp at hj
    · rw [hasReadable, if_neg (size_ne_zero hw.wf hi), he, error_bind]
  refine ⟨q, hw, ⟨i, _, hi⟩, hrc, ⟨i, _, hi, hrc.symm⟩, herr, ?_⟩
  intro hc
  obtain ⟨b, hb⟩ := hc.hasReadable_ok
  rw [herr] at hb
  simp at hb

end ReceiveQueue

end Peos2.Tcp
