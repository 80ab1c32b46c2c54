/-
  Tcp.Reassembly — the receive queue puts a byte stream back together.

  A run feeds the queue segments cut out of one stream, in any order and with any overlap,
  each inside the window when it is inserted, and reads whenever `has_readable` says so.
  The invariant: every record still to be read has its bytes at their place in the ring
  buffer, counted from the read cursor.

  Main result: `streamRun_delivers`.
-/
import Peos2.Lib.Run
import Peos2.Tcp.ReceiveQueue

namespace Peos2.Tcp

open Peos2.Lib Peos2.Support List

namespace ReceiveQueue

/-! ## Runs over a stream -/

/-- The queue, the bytes its reads returned so far, and the pieces of the
stream it accepted (where each starts and how long it is). -/
structure StreamState where
  queue : ReceiveQueue
  out : List UInt8
  accepted : List (Nat × Nat)

variable (stream : List UInt8) (isn : SequenceNumber)

/-- `segment`, `data` and `length` are the `n` bytes of the stream from
position `k` on. -/
structure Cut (k n : Nat) (segment : RecvSegment) (data : Bytes) (length : UInt32) : Prop where
  fits : k + n ≤ stream.length
  seqnbr : segment.seqnbr = isn + UInt32.ofNat k
  length_eq : length.toNat = n
  bytes : ∀ i < n, some (data i) = stream[k + i]?

/-- A segment inside the window is inserted, or a readable one is read. -/
inductive StreamStep : StreamState → StreamState → Prop
  | insert {s : StreamState} {k n : Nat} {segment : RecvSegment} {data : Bytes}
      {length : UInt32} {r : Bool} {q' : ReceiveQueue}
      (cut : Cut stream isn k n segment data length)
      (window : serialDist segment.seqnbr s.queue.readCursor + n ≤ 0xFFFF)
      (call : s.queue.insert segment data length = .ok (r, q')) :
      StreamStep s ⟨q', s.out, if r then s.accepted ++ [(k, n)] else s.accepted⟩
  | read {s : StreamState} {len : UInt32} {segment : RecvSegment} {bytes : List UInt8}
      {q' : ReceiveQueue} (readable : s.queue.hasReadable = .ok true)
      (call : s.queue.readOneSegment len = .ok (segment, bytes, q')) :
      StreamStep s ⟨q', s.out ++ bytes, s.accepted⟩

def StreamInit (s : StreamState) : Prop :=
  (∃ q, s.queue = reset q isn) ∧ s.out = [] ∧ s.accepted = []

def StreamRun (s : StreamState) : Prop := Reach (StreamInit isn) (StreamStep stream isn) s

/-! ## The invariant -/

/-- Record `r` is the piece of the stream from `k` on, and those of its bytes
that were not read yet are in the buffer. -/
structure Holds (s : StreamState) (k : Nat) (r : RecvSegment) : Prop where
  fits : k + r.length.toNat ≤ stream.length
  seqnbr : r.seqnbr = isn + UInt32.ofNat k
  buffered : ∀ p, s.out.length ≤ p → k ≤ p → p < k + r.length.toNat →
    s.queue.dataBuffer.contents[p - s.out.length]? = stream[p]?

/-- Every accepted piece was read in full or is still on record. -/
def Accounted (s : StreamState) : Prop :=
  ∀ k n, (k, n) ∈ s.accepted → k + n ≤ stream.length ∧
    (k + n ≤ s.out.length ∨
      ∃ i r, s.queue.stored i = some r ∧ r.seqnbr = isn + UInt32.ofNat k ∧ r.length.toNat = n)

structure Aligned (s : StreamState) : Prop where
  wf : s.queue.WF
  out_prefix : s.out <+: stream
  cursor : s.queue.readCursor = isn + UInt32.ofNat s.out.length
  records : ∀ i r, s.queue.stored i = some r → ∃ k, Holds stream isn s k r
  accounted : Accounted stream isn s

variable {stream isn}

variable {s : StreamState}

theorem Aligned.out_le (h : Aligned stream isn s) :
    s.out.length ≤ stream.length := h.out_prefix.length_le

theorem StreamInit.aligned (h : StreamInit isn s) : Aligned stream isn s := by
  obtain ⟨⟨q, hq⟩, hout, hacc⟩ := h
  refine ⟨?_, ?_, ?_, ?_, ?_⟩
  · rw [hq]
    exact reset_wf q isn
  · rw [hout]
    exact nil_prefix
  · rw [hq, hout]
    simp
  · intro i r hr
    rw [hq] at hr
    simp at hr
  · intro k n hkn
    rw [hacc] at hkn
    simp at hkn

section

variable (hlen : stream.length < 4294967296)

include hlen

theorem window_position {k n R : Nat}
    (hk : k + n ≤ stream.length) (hR : R ≤ stream.length)
    (hwin : serialDist (isn + UInt32.ofNat k) (isn + UInt32.ofNat R) + n ≤ 0xFFFF) :
    (R ≤ k ∧ serialDist (isn + UInt32.ofNat k) (isn + UInt32.ofNat R) = k - R) ∨
    (k + n ≤ R ∧ stream.length ≤ serialDist (isn + UInt32.ofNat k) (isn + UInt32.ofNat R) + R) := by
  rw [serialDist_add_ofNat isn (by omega)] at hwin ⊢
  omega

theorem overlay_holds {contents : List UInt8}
    {k n R : Nat} {segment : RecvSegment} {data : Bytes} {length : UInt32}
    (cut : Cut stream isn k n segment data length) (hR : R ≤ stream.length)
    (hwin : serialDist segment.seqnbr (isn + UInt32.ofNat R) + n ≤ 0xFFFF) {p : Nat} (hp : R ≤ p)
    (h : contents[p - R]? = stream[p]? ∧ p < stream.length ∨ (k ≤ p ∧ p < k + n)) :
    (overlay contents (serialDist segment.seqnbr (isn + UInt32.ofNat R))
      (data.first length.toNat))[p - R]? = stream[p]? := by
  rw [cut.seqnbr] at hwin ⊢
  have hpos := window_position hlen cut.fits hR hwin
  have hn : (data.first length.toNat).length = n := by
    rw [Bytes.length_first, cut.length_eq]
  set d := serialDist (isn + UInt32.ofNat k) (isn + UInt32.ofNat R) with hd
  by_cases hin : k ≤ p ∧ p < k + n
  · -- a byte of the new segment
    obtain ⟨_, _⟩ | ⟨_, _⟩ := hpos
    · rw [getElem?_overlay_inside _ _ _ (show d ≤ p - R by omega) (by omega),
          Bytes.getElem?_first _ (show p - R - d < length.toNat by rw [cut.length_eq]; omega),
          cut.bytes _ (by omega)]
      congr 1
      omega
    · omega
  -- a byte that was there before
  obtain ⟨hold, hps⟩ := h.resolve_right hin
  have hlt : p - R < contents.length := by
    by_contra hge
    rw [getElem?_eq_none (by omega), getElem?_eq_getElem hps] at hold
    simp at hold
  rw [getElem?_overlay_of_lt _ _ _ hlt, hold]
  omega

theorem Aligned.insert {s : StreamState}
    (h : Aligned stream isn s) {k n : Nat} {segment : RecvSegment} {data : Bytes} {length : UInt32}
    {r : Bool} {q' : ReceiveQueue} (cut : Cut stream isn k n segment data length)
    (hwin : serialDist segment.seqnbr s.queue.readCursor + n ≤ 0xFFFF)
    (hcall : s.queue.insert segment data length = .ok (r, q')) :
    Aligned stream isn ⟨q', s.out, if r then s.accepted ++ [(k, n)] else s.accepted⟩ := by
  rcases insert_ok_cases h.wf hcall with ⟨rfl, rfl⟩ | ⟨rfl, _, _, hwf, hrc, hw, i, hi, hl⟩
  · -- refused: nothing changed
    exact ⟨h.wf, h.out_prefix, h.cursor, fun i r hr => by
      obtain ⟨k', hk'⟩ := h.records i r hr
      exact ⟨k', hk'.fits, hk'.seqnbr, hk'.buffered⟩, h.accounted⟩
  -- recorded in slot `i`, the bytes laid over the buffer
  have hcont : q'.dataBuffer.contents = overlay s.queue.dataBuffer.contents
      (serialDist segment.seqnbr (isn + UInt32.ofNat s.out.length)) (data.first length.toNat) := by
    obtain ⟨b, hb, _, hc⟩ := write_window h.wf data (by rw [cut.length_eq]; exact hwin)
    rw [hw] at hb
    cases hb
    rw [hc, h.cursor]
  rw [h.cursor] at hwin
  refine ⟨hwf, h.out_prefix, by rw [hrc]; exact h.cursor, ?_, ?_⟩
  · intro j r hr
    have hr' : q'.stored j = some r := hr
    rw [hl j] at hr'
    by_cases hj : j = i
    · rw [if_pos hj] at hr'
      cases hr'
      refine ⟨k, by rw [show ({ segment with length := length } : RecvSegment).length = length
        from rfl, cut.length_eq]; exact cut.fits, cut.seqnbr, ?_⟩
      intro p hp hk hlt
      show q'.dataBuffer.contents[_]? = _
      rw [hcont]
      refine overlay_holds hlen cut h.out_le hwin hp (.inr ⟨hk, ?_⟩)
      rw [← cut.length_eq]
      exact hlt
    rw [if_neg hj] at hr'
    obtain ⟨k', hk'⟩ := h.records j r hr'
    refine ⟨k', hk'.fits, hk'.seqnbr, ?_⟩
    intro p hp hk hlt
    show q'.dataBuffer.contents[_]? = _
    rw [hcont]
    have := hk'.fits
    exact overlay_holds hlen cut h.out_le hwin hp (.inl ⟨hk'.buffered p hp hk hlt, by omega⟩)
  · intro k' n' hmem
    rw [if_pos rfl, mem_append, mem_singleton] at hmem
    rcases hmem with hold | hnew
    · obtain ⟨hfit, hcase⟩ := h.accounted k' n' hold
      refine ⟨hfit, hcase.imp_right ?_⟩
      rintro ⟨j, r, hr, hseq, hn⟩
      refine ⟨j, r, ?_, hseq, hn⟩
      show q'.stored j = some r
      rw [hl j, if_neg, hr]
      rintro rfl
      rw [hi] at hr
      simp at hr
    · cases hnew
      exact ⟨cut.fits, .inr ⟨i, { segment with length := length }, by rw [hl i, if_pos rfl],
        cut.seqnbr, cut.length_eq⟩⟩

theorem Aligned.front (h : Aligned stream isn s) {i : Nat}
    {r : RecvSegment} (hr : s.queue.stored i = some r) (hseq : r.seqnbr = s.queue.readCursor) :
    s.out.length + r.length.toNat ≤ stream.length ∧
      r.length.toNat ≤ s.queue.dataBuffer.contents.length ∧
      s.queue.dataBuffer.contents.take r.length.toNat
        = (stream.drop s.out.length).take r.length.toNat := by
  obtain ⟨k, hk⟩ := h.records i r hr
  have hout := h.out_le
  have hfits := hk.fits
  have hpos : k = s.out.length := by
    refine @add_ofNat_inj isn k s.out.length (by omega) (by omega) ?_
    rw [← hk.seqnbr, hseq, h.cursor]
  subst hpos
  -- byte by byte, the buffer agrees with the stream
  have hbyte : ∀ j < r.length.toNat,
      s.queue.dataBuffer.contents[j]? = stream[s.out.length + j]? := by
    intro j hj
    have := hk.buffered (s.out.length + j) (by omega) (by omega) (by omega)
    rwa [Nat.add_sub_cancel_left] at this
  have hbuf : r.length.toNat ≤ s.queue.dataBuffer.contents.length := by
    by_contra hlt
    have := hbyte s.queue.dataBuffer.contents.length (by omega)
    rw [getElem?_eq_none (Nat.le_refl _), getElem?_eq_getElem (by omega)] at this
    exact absurd this (by simp)
  refine ⟨hfits, hbuf, ?_⟩
  apply ext_getElem?
  intro j
  by_cases hj : j < r.length.toNat
  · rw [getElem?_take_of_lt hj, getElem?_take_of_lt hj, getElem?_drop, hbyte j hj]
  · rw [getElem?_take_eq_none (by omega), getElem?_take_eq_none (by omega)]

theorem Aligned.read {s : StreamState}
    (h : Aligned stream isn s) {len : UInt32} {segment : RecvSegment} {bytes : List UInt8}
    {q' : ReceiveQueue} (hcall : s.queue.readOneSegment len = .ok (segment, bytes, q')) :
    Aligned stream isn ⟨q', s.out ++ bytes, s.accepted⟩ := by
  obtain ⟨i, hf, hseq, _, _, hbytes, hwf, hcont, hrc, _, hl⟩ := readOneSegment_ok h.wf hcall
  obtain ⟨_, _, htake⟩ := h.front hlen hf.stored hseq
  have hblen : bytes.length = segment.length.toNat := by
    rw [hbytes, length_take]
    omega
  have hout' : (s.out ++ bytes).length = s.out.length + segment.length.toNat := by
    rw [length_append, hblen]
  refine ⟨hwf, ?_, ?_, ?_, ?_⟩
  · -- the bytes read continue the stream
    obtain ⟨rest, hrest⟩ := h.out_prefix
    refine ⟨rest.drop segment.length.toNat, ?_⟩
    show s.out ++ bytes ++ _ = stream
    rw [hbytes, htake, ← hrest, drop_left, append_assoc, take_append_drop]
  · show q'.readCursor = _
    rw [hrc, h.cursor, hout', ← add_ofNat_add, ofNat_toNat]
  · intro j r hr
    have hr' : q'.stored j = some r := hr
    rw [hl j] at hr'
    by_cases hj : j = i
    · rw [if_pos hj] at hr'
      simp at hr'
    rw [if_neg hj] at hr'
    obtain ⟨k, hk⟩ := h.records j r hr'
    refine ⟨k, hk.fits, hk.seqnbr, ?_⟩
    intro p hp hkp hlt
    have hp' : s.out.length + segment.length.toNat ≤ p := by
      rw [← hout']
      exact hp
    show q'.dataBuffer.contents[p - (s.out ++ bytes).length]? = _
    rw [hcont, hout', getElem?_drop, ← hk.buffered p (by omega) hkp hlt]
    congr 1
    omega
  · intro k n hmem
    obtain ⟨hfit, hcase⟩ := h.accounted k n hmem
    refine ⟨hfit, ?_⟩
    show k + n ≤ (s.out ++ bytes).length ∨ _
    rcases hcase with _ | ⟨j, r, hr, hrseq, hn⟩
    · exact .inl (by omega)
    by_cases hj : j = i
    · -- the piece just read
      subst hj
      rw [hf.stored] at hr
      cases hr
      have hk : k = s.out.length := by
        refine @add_ofNat_inj isn k s.out.length (by omega) (by omega) ?_
        rw [← hrseq, hseq, h.cursor]
      exact .inl (by omega)
    · refine .inr ⟨j, r, ?_, hrseq, hn⟩
      show q'.stored j = some r
      rw [hl j, if_neg hj, hr]

theorem StreamStep.aligned {s' : StreamState}
    (h : StreamStep stream isn s s') (hs : Aligned stream isn s) : Aligned stream isn s' := by
  cases h with
  | insert cut window call => exact hs.insert hlen cut window call
  | read readable call => exact hs.read hlen call

theorem StreamRun.aligned (h : StreamRun stream isn s) :
    Aligned stream isn s :=
  Reach.invariant (fun _ h0 => h0.aligned) (fun _ _ _ hs hstep => hstep.aligned hlen hs) h

end

/-! ## Delivery -/

theorem insert_returns {q : ReceiveQueue} (hq : q.WF) (segment : RecvSegment) (data : Bytes)
    {length : UInt32} (hwin : serialDist segment.seqnbr q.readCursor + length.toNat ≤ 0xFFFF) :
    ∃ r q', q.insert segment data length = .ok (r, q') := by
  by_cases hfull : q.segments.full = true
  · exact ⟨false, q, insert_refused (.inl hfull)⟩
  · by_cases hcur : q.behindCursor segment.seqnbr = true
    · exact ⟨false, q, insert_refused (.inr (.inl hcur))⟩
    · rw [Bool.not_eq_true] at hfull hcur
      obtain ⟨i, q', h, _⟩ := insert_window hq data hfull hcur hwin
      exact ⟨true, q', h⟩

theorem Aligned.read_returns (hlen : stream.length < 4294967296) (h : Aligned stream isn s)
    {i : Nat} {r : RecvSegment} (hf : s.queue.Front i r) (hseq : r.seqnbr = s.queue.readCursor)
    {len : UInt32} (hl : r.length.toNat ≤ len.toNat) :
    ∃ bytes q', s.queue.readOneSegment len = .ok (r, bytes, q') := by
  obtain ⟨_, hbuf, _⟩ := h.front hlen hf.stored hseq
  obtain ⟨q', hread, _⟩ := readOneSegment_spec h.wf hf hseq hl hbuf
  exact ⟨_, q', hread⟩

/-- **The reads return a prefix of the stream**, the cursor stands at its end, every insert
inside the window returns, and so does every read of a readable queue into a long enough buffer.
-/
theorem streamRun_delivers (hlen : stream.length < 4294967296) {s : StreamState}
    (h : StreamRun stream isn s) :
    s.out <+: stream ∧ s.queue.readCursor = isn + UInt32.ofNat s.out.length ∧
    (∀ (segment : RecvSegment) (data : Bytes) (length : UInt32),
      serialDist segment.seqnbr s.queue.readCursor + length.toNat ≤ 0xFFFF →
      ∃ r q', s.queue.insert segment data length = .ok (r, q')) ∧
    (s.queue.hasReadable = .ok true →
      ∃ i r, s.queue.Front i r ∧ ∀ len : UInt32, r.length.toNat ≤ len.toNat →
        ∃ bytes q', s.queue.readOneSegment len = .ok (r, bytes, q')) := by
  have ha := StreamRun.aligned hlen h
  refine ⟨ha.out_prefix, ha.cursor, ?_, ?_⟩
  · intro segment data length hwin
    exact insert_returns ha.wf segment data hwin
  · intro hread
    obtain ⟨i, r, hf, hseq⟩ := (hasReadable_true ha.wf).mp hread
    exact ⟨i, r, hf, fun len hl => ha.read_returns hlen hf hseq hl⟩

/-- The stream 1 2 3 4, its second half arriving first and overlapping. -/
def overlapping : Checked (Bool × List UInt8) := do
  let (_, q) ← (blank.reset 100).insert ⟨ACK, 102, 0⟩ (Bytes.ofList [3, 4]) 2
  let (_, q) ← q.insert ⟨ACK, 100, 0⟩ (Bytes.ofList [1, 2, 3]) 3
  let readable ← q.hasReadable
  let (_, bytes, _) ← q.readOneSegment 20480
  .ok (readable, bytes)

theorem streamRun_overlapping :
    ∃ s, StreamRun [1, 2, 3, 4] 100 s ∧ s.out = [1, 2, 3] ∧ s.queue.readCursor = 103 := by
  have hrun : overlapping = .ok (true, [1, 2, 3]) := by decide
  rw [overlapping, bind_ok] at hrun
  obtain ⟨⟨_, q1⟩, h1, hrun⟩ := hrun
  obtain ⟨⟨_, q2⟩, h2, hrun⟩ := bind_ok.mp hrun
  obtain ⟨readable, h3, hrun⟩ := bind_ok.mp hrun
  obtain ⟨⟨_, bytes, q3⟩, h4, hrun⟩ := bind_ok.mp hrun
  cases hrun
  have hfresh : StreamInit 100 ⟨blank.reset 100, [], []⟩ := ⟨⟨blank, rfl⟩, rfl, rfl⟩
  have c1 : Cut [1, 2, 3, 4] 100 2 2 ⟨ACK, 102, 0⟩ (Bytes.ofList [3, 4]) 2 :=
    ⟨by decide, by decide, by decide, by decide⟩
  have c2 : Cut [1, 2, 3, 4] 100 0 3 ⟨ACK, 100, 0⟩ (Bytes.ofList [1, 2, 3]) 3 :=
    ⟨by decide, by decide, by decide, by decide⟩
  have r1 := (Reach.init hfresh).step (StreamStep.insert c1 (by decide) h1)
  have hrc : q1.readCursor = 100 := by
    have := (streamRun_delivers (by decide) r1).2.1
    rw [this]
    rfl
  have r2 := r1.step (StreamStep.insert c2 (by rw [hrc]; decide) h2)
  have r3 := r2.step (StreamStep.read h3 h4)
  refine ⟨_, r3, rfl, ?_⟩
  rw [(streamRun_delivers (by decide) r3).2.1]
  rfl

end ReceiveQueue

end Peos2.Tcp
