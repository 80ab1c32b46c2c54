/-
  Tcp.Deduplication — what duplicates and overlaps do to delivery.

  `insert` keeps every record it accepts, and the readers only look at the least one. A
  record that lies behind the cursor when its turn comes (a duplicate, or the lower part
  of an overlap) is never removed, and blocks everything after it.

  Main results: `delivers_iff`, `duplicate_blocks`.
-/
import Peos2.Tcp.Reassembly

namespace Peos2.Tcp

open Peos2.Lib Peos2.Support List

namespace ReceiveQueue

/-! ## Draining the queue -/

/-- `while (has_readable()) read_one_segment(...)`, stopped after any number
of reads: the bytes returned and the queue afterwards. -/
inductive Drained : ReceiveQueue → List UInt8 → ReceiveQueue → Prop
  | done (q : ReceiveQueue) : Drained q [] q
  | read {q q1 q' : ReceiveQueue} {len : UInt32} {segment : RecvSegment}
      {bytes rest : List UInt8} (readable : q.hasReadable = .ok true)
      (call : q.readOneSegment len = .ok (segment, bytes, q1))
      (next : Drained q1 rest q') : Drained q (bytes ++ rest) q'

/-- The accepted pieces cover the `n` bytes of the stream from `start` on. -/
def Covers (accepted : List (Nat × Nat)) (start n : Nat) : Prop :=
  ∀ p < start + n, start ≤ p → ∃ piece ∈ accepted, piece.1 ≤ p ∧ p < piece.1 + piece.2

/-- Record `r` in slot `i` comes before record `z` in slot `j` in the order of
`find_front_segment`. -/
def Before (i : Nat) (r : RecvSegment) (j : Nat) (z : RecvSegment) : Prop :=
  r.seqnbr.toNat < z.seqnbr.toNat ∨ (r.seqnbr.toNat = z.seqnbr.toNat ∧ i < j)

/-- `Before`, or the same slot. -/
def UpTo (i : Nat) (r : RecvSegment) (j : Nat) (z : RecvSegment) : Prop :=
  r.seqnbr.toNat < z.seqnbr.toNat ∨ (r.seqnbr.toNat = z.seqnbr.toNat ∧ i ≤ j)

/-- Record `z` in slot `j` completes the next `n` bytes, and the records up to
it start at or above the cursor and do not overlap. -/
structure InOrder (q : ReceiveQueue) (n j : Nat) (z : RecvSegment) : Prop where
  stored : q.stored j = some z
  below : z.seqnbr.toNat < 4294967295
  reaches : q.readCursor.toNat + n ≤ z.seqnbr.toNat + z.length.toNat
  fromCursor : ∀ i r, q.stored i = some r → UpTo i r j z →
    q.readCursor.toNat ≤ r.seqnbr.toNat
  apart : ∀ i r i' r', q.stored i = some r → q.stored i' = some r' → Before i r i' r' →
    UpTo i' r' j z → r.seqnbr.toNat + r.length.toNat ≤ r'.seqnbr.toNat

def Contiguous (q : ReceiveQueue) (n : Nat) : Prop := n = 0 ∨ ∃ j z, q.InOrder n j z

variable {stream : List UInt8} {isn : SequenceNumber}

variable {s : StreamState} {q1 q : ReceiveQueue} {bytes : List UInt8} {i n j : Nat}
  {r z : RecvSegment}

theorem Aligned.toNat_cursor (hisn : isn.toNat + stream.length ≤ 4294967296)
    (h : Aligned stream isn s) (hlt : s.out.length < stream.length) :
    s.queue.readCursor.toNat = isn.toNat + s.out.length := by
  rw [h.cursor, toNat_add_ofNat]
  omega

theorem Aligned.toNat_cursor_read (hlen : stream.length < 4294967296)
    (hisn : isn.toNat + stream.length ≤ 4294967296) (h : Aligned stream isn s) {len : UInt32}
    {segment : RecvSegment} (hcall : s.queue.readOneSegment len = .ok (segment, bytes, q1))
    (hlt : s.out.length + segment.length.toNat < stream.length) :
    bytes.length = segment.length.toNat ∧
      q1.readCursor.toNat = s.queue.readCursor.toNat + segment.length.toNat := by
  have hread := h.read hlen hcall
  obtain ⟨_, _, _, _, _, hbytes, _⟩ := readOneSegment_ok h.wf hcall
  have hblen : bytes.length = segment.length.toNat := by
    rw [hbytes, length_take]
    omega
  have hout : (s.out ++ bytes).length = s.out.length + segment.length.toNat := by
    rw [length_append, hblen]
  refine ⟨hblen, ?_⟩
  have h1 := hread.toNat_cursor hisn (by show (s.out ++ bytes).length < _; omega)
  have h2 := h.toNat_cursor hisn (by omega)
  have h1' : q1.readCursor.toNat = isn.toNat + (s.out ++ bytes).length := h1
  omega

/-! ## What was delivered was in order -/

theorem inOrder_front (hf : q.Front i r) (hseq : r.seqnbr = q.readCursor)
    (hn : n ≤ r.length.toNat) : q.InOrder n i r := by
  refine ⟨hf.stored, hf.below, by rw [hseq]; omega, ?_, ?_⟩
  · intro a t ht _
    have := hf.least a t ht
    rw [hseq] at this
    omega
  · -- nothing comes before the front
    intro a t a' t' ht ht' hbefore hupto
    have h1 := hf.least a t ht
    unfold Before at hbefore
    unfold UpTo at hupto
    omega

theorem InOrder.cons (hf : q.Front i r) (hseq : r.seqnbr = q.readCursor)
    (hcur : q1.readCursor.toNat = q.readCursor.toNat + r.length.toNat)
    (hl : ∀ a, q1.stored a = if a = i then none else q.stored a) (hn : r.length.toNat ≤ n)
    (h : q1.InOrder (n - r.length.toNat) j z) : q.InOrder n j z := by
  have hj : j ≠ i ∧ q.stored j = some z := by
    have := h.stored
    rw [hl j] at this
    split at this
    · exact absurd this (by simp)
    · exact ⟨by assumption, this⟩
  have hkeep : ∀ a t, a ≠ i → q.stored a = some t → q1.stored a = some t := by
    intro a t ha ht
    rw [hl a, if_neg ha, ht]
  have hself : ∀ t, q.stored i = some t → t = r := by
    intro t ht
    rw [hf.stored] at ht
    exact (Option.some.inj ht).symm
  have hrc : r.seqnbr.toNat = q.readCursor.toNat := by rw [hseq]
  refine ⟨hj.2, h.below, ?_, ?_, ?_⟩
  · have := h.reaches
    omega
  · intro a t ht _
    have := hf.least a t ht
    omega
  · intro a t a' t' ht ht' hbefore hupto
    by_cases ha' : a' = i
    · -- nothing comes before the front
      subst ha'
      have h1 := hf.least a t ht
      rw [hself t' ht'] at hbefore
      unfold Before at hbefore
      omega
    have hfrom := h.fromCursor a' t' (hkeep a' t' ha' ht') hupto
    by_cases ha : a = i
    · subst ha
      rw [hself t ht]
      omega
    · exact h.apart a t a' t' (hkeep a t ha ht) (hkeep a' t' ha' ht') hbefore hupto

theorem inOrder_of_drained (hlen : stream.length < 4294967296)
    (hisn : isn.toNat + stream.length ≤ 4294967296) {q' : ReceiveQueue} (h : Drained q bytes q') :
    ∀ (s : StreamState), s.queue = q → Aligned stream isn s →
      ∀ n, 0 < n → s.out.length + n ≤ stream.length → n ≤ bytes.length →
        ∃ j z, q.InOrder n j z := by
  induction h with
  | done q =>
    intro s _ _ n hpos _ hle
    rw [length_nil] at hle
    omega
  | @read q q1 q' len segment bytes rest readable call next ih =>
    intro s hs ha n hpos hfit hle
    subst hs
    obtain ⟨i, hf, hseq, _, _, _, _, _, _, _, hl⟩ := readOneSegment_ok ha.wf call
    by_cases hn : n ≤ segment.length.toNat
    · exact ⟨i, segment, inOrder_front hf hseq hn⟩
    obtain ⟨hblen, hcur⟩ := ha.toNat_cursor_read hlen hisn call (by omega)
    rw [length_append] at hle
    obtain ⟨j, z, hz⟩ := ih ⟨q1, s.out ++ bytes, s.accepted⟩ rfl (ha.read hlen call)
      (n - segment.length.toNat) (by omega)
      (by show (s.out ++ bytes).length + _ ≤ _; rw [length_append]; omega)
      (by omega)
    exact ⟨j, z, InOrder.cons hf hseq hcur hl (by omega) hz⟩

/-! ## What is in order is delivered -/

theorem Covers.le (ha : Accounted stream isn s) (h : Covers s.accepted s.out.length n)
    (hpos : 0 < n) : s.out.length + n ≤ stream.length := by
  obtain ⟨⟨k, m⟩, hmem, _⟩ := h (s.out.length + n - 1) (by omega) (by omega)
  have := (ha k m hmem).1
  omega

theorem InOrder.front_at_cursor (hisn : isn.toNat + stream.length ≤ 4294967296)
    (ha : Aligned stream isn s) (hpos : 0 < n) (hcov : Covers s.accepted s.out.length n)
    (h : s.queue.InOrder n j z) : ∃ i r, s.queue.Front i r ∧ r.seqnbr = s.queue.readCursor := by
  have hfit := hcov.le ha.accounted hpos
  have hcur := ha.toNat_cursor hisn (by omega)
  rcases findFrontSegment_cases ha.wf with ⟨i, r, _, hf⟩ | ⟨_, hall⟩
  · refine ⟨i, r, hf, ?_⟩
    have hge := h.fromCursor i r hf.stored (hf.least j z h.stored)
    -- the record that holds the next byte does not start above it
    obtain ⟨⟨k, m⟩, hmem, _⟩ := hcov s.out.length (by omega) (Nat.le_refl _)
    obtain ⟨_, hcase⟩ := ha.accounted k m hmem
    obtain ⟨a, t, ht, htseq, _⟩ := hcase.resolve_left (by omega)
    have htnat : t.seqnbr.toNat = isn.toNat + k := by
      rw [htseq, toNat_add_ofNat]
      omega
    have := hf.least a t ht
    rw [eq_iff_toNat]
    omega
  · have h1 := hall j z h.stored
    have h2 := h.below
    omega

theorem InOrder.tail (hf : q.Front i r) (hseq : r.seqnbr = q.readCursor)
    (hcur : q1.readCursor.toNat = q.readCursor.toNat + r.length.toNat)
    (hl : ∀ a, q1.stored a = if a = i then none else q.stored a) (hn : r.length.toNat < n)
    (h : q.InOrder n j z) : q1.InOrder (n - r.length.toNat) j z := by
  have hrc : r.seqnbr.toNat = q.readCursor.toNat := by rw [hseq]
  have hreach := h.reaches
  have hji : j ≠ i := by
    rintro rfl
    have hzr : some z = some r := by rw [← h.stored, hf.stored]
    cases hzr
    omega
  have hold : ∀ a t, q1.stored a = some t → a ≠ i ∧ q.stored a = some t := by
    intro a t ht
    rw [hl a] at ht
    split at ht
    · simp at ht
    · exact ⟨by assumption, ht⟩
  refine ⟨by rw [hl j, if_neg hji, h.stored], h.below, by omega, ?_, ?_⟩
  · intro a t ht hupto
    obtain ⟨_, hta⟩ := hold a t ht
    have hbefore : Before i r a t := by
      have := hf.least a t hta
      unfold Before
      omega
    have := h.apart i r a t hf.stored hta hbefore hupto
    omega
  · intro a t a' t' ht ht' hbefore hupto
    exact h.apart a t a' t' (hold a t ht).2 (hold a' t' ht').2 hbefore hupto

/-- Covered bytes that are in order are drained. Induction on the number
of records: each read removes one. -/
theorem drained_of_contiguous (hlen : stream.length < 4294967296)
    (hisn : isn.toNat + stream.length ≤ 4294967296) (size : Nat) :
    ∀ (s : StreamState), s.queue.segments.size = size → Aligned stream isn s →
      ∀ n, Covers s.accepted s.out.length n → s.queue.Contiguous n →
        ∃ bytes q', Drained s.queue bytes q' ∧ n ≤ bytes.length := by
  induction size with
  | zero =>
    intro s hsize ha n _ hc
    rcases hc with rfl | ⟨j, z, hz⟩
    · exact ⟨[], s.queue, .done _, Nat.zero_le _⟩
    · exact absurd hsize (size_ne_zero ha.wf hz.stored)
  | succ size ih =>
    intro s hsize ha n hcov hc
    rcases hc with rfl | ⟨j, z, hz⟩
    · exact ⟨[], s.queue, .done _, Nat.zero_le _⟩
    by_cases hpos : 0 < n
    · obtain ⟨i, r, hf, hseq⟩ := hz.front_at_cursor hisn ha hpos hcov
      have hreadable := (hasReadable_true ha.wf).mpr ⟨i, r, hf, hseq⟩
      obtain ⟨bytes, q1, hcall⟩ := ha.read_returns hlen hf hseq (Nat.le_refl _)
      obtain ⟨i', hf', _, _, _, hbytes, _, _, _, _, hl⟩ := readOneSegment_ok ha.wf hcall
      obtain ⟨rfl, _⟩ := hf.unique hf'
      have hblen : bytes.length = r.length.toNat := by
        rw [hbytes, length_take]
        omega
      by_cases hn : n ≤ r.length.toNat
      · -- this read was enough
        refine ⟨bytes ++ [], q1, .read hreadable hcall (.done q1), ?_⟩
        rw [append_nil, hblen]
        exact hn
      have hfit := hcov.le ha.accounted hpos
      obtain ⟨_, hcur⟩ := ha.toNat_cursor_read hlen hisn hcall (by omega)
      have hcov' : Covers s.accepted (s.out ++ bytes).length (n - r.length.toNat) := by
        intro p hlt hp
        rw [length_append] at hp hlt
        exact hcov p (by omega) (by omega)
      obtain ⟨rest, q', hdrain, _⟩ := ih ⟨q1, s.out ++ bytes, s.accepted⟩
        (by show q1.segments.size = size; omega) (ha.read hlen hcall)
        (n - r.length.toNat) hcov'
        (.inr ⟨j, z, InOrder.tail hf hseq hcur hl (by omega) hz⟩)
      refine ⟨bytes ++ rest, q', .read hreadable hcall hdrain, ?_⟩
      rw [length_append]
      omega
    · exact ⟨[], s.queue, .done _, by omega⟩

theorem Drained.cursor {q' : ReceiveQueue} (h : Drained q bytes q') (hq : q.WF) :
    q'.readCursor = q.readCursor + UInt32.ofNat bytes.length := by
  induction h with
  | done q => simp
  | @read q q1 q' len segment bytes rest readable call next ih =>
    obtain ⟨_, _, _, _, _, hbytes, hwf, _, hrc, _⟩ := readOneSegment_ok hq call
    have hblen : bytes.length = segment.length.toNat := by
      rw [hbytes, length_take]
      omega
    rw [ih hwf, hrc, length_append, ← add_ofNat_add, hblen, ofNat_toNat]

/-- **When covered bytes are delivered.** In a run over a stream below 2^32, if the accepted
segments cover the next `n` bytes, draining the queue advances the cursor by at least `n`
exactly when the records up to the one that completes them follow one another without overlap.
-/
theorem delivers_iff (hlen : stream.length < 4294967296)
    (hisn : isn.toNat + stream.length ≤ 4294967296) {s : StreamState}
    (h : StreamRun stream isn s) {n : Nat} (hcov : Covers s.accepted s.out.length n) :
    (∃ bytes q', Drained s.queue bytes q' ∧ n ≤ bytes.length ∧
      q'.readCursor = s.queue.readCursor + UInt32.ofNat bytes.length) ↔
    s.queue.Contiguous n := by
  have ha := StreamRun.aligned hlen h
  constructor
  · rintro ⟨bytes, q', hdrain, hle, _⟩
    rcases Nat.eq_zero_or_pos n with hz | hpos
    · exact .inl hz
    · exact .inr (inOrder_of_drained hlen hisn hdrain s rfl ha n hpos
        (hcov.le ha.accounted hpos) hle)
  · intro hc
    obtain ⟨bytes, q', hdrain, hle⟩ := drained_of_contiguous hlen hisn _ s rfl ha n hcov hc
    exact ⟨bytes, q', hdrain, hle, hdrain.cursor ha.wf⟩

/-! ## Arrivals without reads -/

/-- The pieces of the stream in `l` arrive one after the other: whether all
were accepted, and the queue afterwards. -/
def arrive (stream : List UInt8) (isn : SequenceNumber) (q : ReceiveQueue) :
    List (Nat × Nat) → Checked (Bool × ReceiveQueue)
  | [] => .ok (true, q)
  | (k, n) :: l => do
      let (r, q) ← q.insert ⟨ACK, isn + UInt32.ofNat k, 0⟩
        (Bytes.ofList ((stream.drop k).take n)) (UInt32.ofNat n)
      let (rs, q) ← arrive stream isn q l
      .ok (r && rs, q)

theorem cut_piece {k : Nat} (hfit : k + n ≤ stream.length) (hn : n < 4294967296) :
    Cut stream isn k n ⟨ACK, isn + UInt32.ofNat k, 0⟩ (Bytes.ofList ((stream.drop k).take n))
      (UInt32.ofNat n) := by
  refine ⟨hfit, rfl, toNat_ofNat_lt hn, ?_⟩
  intro i hi
  unfold Bytes.ofList
  rw [getD_eq_getElem?_getD, getElem?_take_of_lt hi, getElem?_drop,
      getElem?_eq_getElem (show k + i < stream.length by omega)]
  rfl

theorem StreamRun.arrive (l : List (Nat × Nat)) : ∀ {s : StreamState} {q : ReceiveQueue},
    StreamRun stream isn s →
    (∀ p ∈ l, p.1 + p.2 ≤ stream.length ∧
      serialDist (isn + UInt32.ofNat p.1) s.queue.readCursor + p.2 ≤ 0xFFFF) →
    ReceiveQueue.arrive stream isn s.queue l = .ok (true, q) → s.queue.WF →
    StreamRun stream isn ⟨q, s.out, s.accepted ++ l⟩ := by
  induction l with
  | nil =>
    intro s q hrun _ h _
    cases h
    rw [append_nil]
    exact hrun
  | cons p l ih =>
    intro s q hrun hl h hwf
    obtain ⟨k, n⟩ := p
    rw [ReceiveQueue.arrive, bind_ok] at h
    obtain ⟨⟨r, q1⟩, h1, h⟩ := h
    obtain ⟨⟨rs, q2⟩, h2, h⟩ := bind_ok.mp h
    have hall : (r && rs) = true ∧ q2 = q := Prod.mk.inj (Except.ok.inj h)
    rw [Bool.and_eq_true] at hall
    obtain ⟨⟨rfl, rfl⟩, rfl⟩ := hall
    obtain ⟨hfit, hwin⟩ := hl (k, n) (by simp)
    have hstep := hrun.step (StreamStep.insert (cut_piece hfit (by omega)) hwin h1)
    have hrc : q1.readCursor = s.queue.readCursor := by
      rcases insert_ok_cases hwf h1 with ⟨_, rfl⟩ | ⟨_, _, _, _, hrc, _⟩
      · rfl
      · exact hrc
    have hrest : ∀ p ∈ l, p.1 + p.2 ≤ stream.length ∧
        serialDist (isn + UInt32.ofNat p.1) q1.readCursor + p.2 ≤ 0xFFFF := by
      intro p hp
      rw [hrc]
      exact hl p (mem_cons_of_mem _ hp)
    have := ih hstep hrest h2 (insert_ok_wf hwf h1)
    simpa using this

theorem streamRun_arrive {l : List (Nat × Nat)} (hl : ∀ p ∈ l, p.1 + p.2 ≤ stream.length ∧
      serialDist (isn + UInt32.ofNat p.1) isn + p.2 ≤ 0xFFFF)
    (h : arrive stream isn (blank.reset isn) l = .ok (true, q)) :
    StreamRun stream isn ⟨q, [], l⟩ := by
  have hinit : StreamInit isn ⟨blank.reset isn, [], []⟩ := ⟨⟨blank, rfl⟩, rfl, rfl⟩
  exact StreamRun.arrive l (Reach.init hinit) hl h (reset_wf _ _)

/-- The halves of the stream 1 2 3 4 in the wrong order are delivered. -/
theorem delivers_swapped :
    ∃ s, StreamRun [1, 2, 3, 4] 100 s ∧ ∃ bytes q', Drained s.queue bytes q' ∧
      4 ≤ bytes.length ∧ q'.readCursor = s.queue.readCursor + UInt32.ofNat bytes.length := by
  have hrun : (arrive [1, 2, 3, 4] 100 (blank.reset 100) [(2, 2), (0, 2)]).map
      (fun r => (r.1, r.2.readCursor, r.2.segments.watermark, r.2.stored 0, r.2.stored 1))
      = .ok (true, 100, 2, some ⟨ACK, 102, 2⟩, some ⟨ACK, 100, 2⟩) := by decide
  rw [map_ok] at hrun
  obtain ⟨⟨all, q⟩, harr, hq⟩ := hrun
  simp only [Prod.mk.injEq] at hq
  obtain ⟨rfl, hrc, hwm, h0, h1⟩ := hq
  have hs := streamRun_arrive (by decide) harr
  have hcov : Covers [(2, 2), (0, 2)] 0 4 := by unfold Covers; decide
  -- the records are those in slots 0 and 1
  have hslots : ∀ i r, q.stored i = some r →
      (i = 0 ∧ r = ⟨ACK, 102, 2⟩) ∨ (i = 1 ∧ r = ⟨ACK, 100, 2⟩) := by
    intro i r hr
    have hi : i < 2 := hwm ▸ Pool.lookup_lt_watermark hr
    rcases (by omega : i = 0 ∨ i = 1) with rfl | rfl
    · rw [h0] at hr
      exact .inl ⟨rfl, (Option.some.inj hr).symm⟩
    · rw [h1] at hr
      exact .inr ⟨rfl, (Option.some.inj hr).symm⟩
  refine ⟨_, hs, (delivers_iff (by decide) (by decide) hs hcov).mpr
    (.inr ⟨0, ⟨ACK, 102, 2⟩, h0, by decide, by rw [hrc]; decide, ?_, ?_⟩)⟩
  · intro i r hr _
    rw [hrc]
    rcases hslots i r hr with ⟨_, rfl⟩ | ⟨_, rfl⟩ <;> decide
  · intro i r i' r' hr hr' hbefore _
    unfold Before at hbefore
    rcases hslots i r hr with ⟨rfl, rfl⟩ | ⟨rfl, rfl⟩ <;>
      rcases hslots i' r' hr' with ⟨rfl, rfl⟩ | ⟨rfl, rfl⟩ <;> revert hbefore <;> decide

/-- **A duplicate stops the stream**: 1 2 arrives twice and 3 4 once, all are
accepted, and draining the queue never gets to 3. -/
theorem duplicate_blocks :
    ∃ s, StreamRun [1, 2, 3, 4] 100 s ∧ Covers s.accepted s.out.length 4 ∧
      ¬ ∃ bytes q', Drained s.queue bytes q' ∧ 4 ≤ bytes.length ∧
        q'.readCursor = s.queue.readCursor + UInt32.ofNat bytes.length := by
  have hrun : (arrive [1, 2, 3, 4] 100 (blank.reset 100) [(0, 2), (0, 2), (2, 2)]).map
      (fun r => (r.1, r.2.readCursor, r.2.segments.watermark, r.2.stored 0, r.2.stored 1,
        r.2.stored 2))
      = .ok (true, 100, 3, some ⟨ACK, 100, 2⟩, some ⟨ACK, 100, 2⟩, some ⟨ACK, 102, 2⟩) := by
    rfl
  rw [map_ok] at hrun
  obtain ⟨⟨all, q⟩, harr, hq⟩ := hrun
  simp only [Prod.mk.injEq] at hq
  obtain ⟨rfl, hrc, hwm, h0, h1, h2⟩ := hq
  have hs := streamRun_arrive (by decide) harr
  have hcov : Covers [(0, 2), (0, 2), (2, 2)] 0 4 := by unfold Covers; decide
  refine ⟨_, hs, hcov, ?_⟩
  rintro ⟨bytes, q', hdrain, hle, _⟩
  obtain ⟨j, z, hz⟩ := inOrder_of_drained (by decide) (by decide) hdrain _ rfl
    (StreamRun.aligned (by decide) hs) 4 (by decide) (Nat.le_refl 4) hle
  have hreach := hz.reaches
  rw [show ({ queue := q, out := [], accepted := _ } : StreamState).queue.readCursor = 100 from hrc]
    at hreach
  -- the record that completes the bytes is the last one, behind both copies
  have hj : j < 3 := hwm ▸ Pool.lookup_lt_watermark hz.stored
  have hlast : j = 2 := by
    rcases (by omega : j = 0 ∨ j = 1 ∨ j = 2) with rfl | rfl | rfl
    · have : some (⟨ACK, 100, 2⟩ : RecvSegment) = some z := by rw [← h0, ← hz.stored]
      cases this
      exact absurd hreach (by decide)
    · have : some (⟨ACK, 100, 2⟩ : RecvSegment) = some z := by rw [← h1, ← hz.stored]
      cases this
      exact absurd hreach (by decide)
    · rfl
  subst hlast
  have hzeq : some (⟨ACK, 102, 2⟩ : RecvSegment) = some z := by rw [← h2, ← hz.stored]
  cases hzeq
  have := hz.apart 0 ⟨ACK, 100, 2⟩ 1 ⟨ACK, 100, 2⟩ h0 h1 (by unfold Before; decide)
    (by unfold UpTo; decide)
  exact absurd this (by decide)

end ReceiveQueue

end Peos2.Tcp
