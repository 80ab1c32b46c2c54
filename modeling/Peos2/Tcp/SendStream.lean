/-
  Tcp.SendStream — what was written to the send queue is what is read.

  Three structures move at different times: the byte ring, the queue of
  records and the read position. The invariant numbers the accepted
  segments once and for all and says which of them are still queued and
  which were read.

  Main result: `sendRun_faithful`.
-/
import Peos2.Tcp.Transmit

namespace Peos2.Tcp

open Peos2.Lib Peos2.Support List

namespace SendQueue

/-! ## Runs -/

abbrev Written := SendSegment × List UInt8

/-- The queue, the segments it accepted and those its reads returned. -/
structure SendState where
  queue : SendQueue
  accepted : List Written
  returned : List Written

/-- The number behind the last segment of a list, `isn` if there is none. -/
def endOf (isn : SequenceNumber) (l : List Written) : Nat :=
  lastEnd (fun p : Written => p.1.seqnbr.toNat) (fun p => p.1.dataLength.toNat) isn.toNat l

variable (isn : SequenceNumber)

/-- Writes at the cursor with at most 99 segments queued, reads when there is
something to read and the buffer is long enough, and acks of what was read. -/
inductive SendStep : SendState → SendState → Prop
  | write {s : SendState} {flags : UInt16} {data : Bytes} {dataLength sendLength : UInt32}
      {r : Bool} {q' : SendQueue} (room : s.queue.queued.length ≤ 99)
      (shorter : sendLength.toNat ≤ dataLength.toNat)
      (below : s.queue.writePos.toNat + dataLength.toNat < 0xFFFF0000)
      (call : s.queue.writeBack ⟨flags, s.queue.writePos, 0, 0⟩ (some data) dataLength sendLength
        = .ok (r, q')) :
      SendStep s ⟨q', if r then s.accepted
        ++ [(⟨flags, s.queue.writePos, dataLength, sendLength⟩, data.first dataLength.toNat)]
        else s.accepted, s.returned⟩
  | read {s : SendState} {length : UInt32} {r : Option Written} {q' : SendQueue}
      (readable : s.queue.hasReadable = true)
      (long : ∀ active, s.queue.queued[s.queue.readPos.toNat]? = some active →
        active.dataLength.toNat ≤ length.toNat)
      (call : s.queue.readOneSegment length = .ok (r, q')) :
      SendStep s ⟨q', s.accepted, s.returned ++ r.toList⟩
  | ack {s : SendState} {n : SequenceNumber} {q' : SendQueue}
      (read : n.toNat ≤ endOf isn s.returned) (call : s.queue.ack n = .ok q') :
      SendStep s ⟨q', s.accepted, s.returned⟩

def SendInit (s : SendState) : Prop :=
  (∃ q, s.queue = reset q isn) ∧ s.accepted = [] ∧ s.returned = [] ∧ isn.toNat < 0xFFFF0000

def SendRun (s : SendState) : Prop := Reach (SendInit isn) (SendStep isn) s

/-! ## The invariant -/

abbrev TilesSeq (lo : Nat) (l : List Written) (hi : Nat) : Prop :=
  Tiles (fun p : Written => p.1.seqnbr.toNat) (fun p => p.1.dataLength.toNat) lo l hi

/-- The invariant of a run: of the accepted segments the first `popped`
are gone, the rest is queued, and the reads got as far as `returned`. -/
structure Faithful (accepted returned : List Written) (popped : Nat) (q : SendQueue) : Prop where
  laid : q.Laid
  order : returned = accepted.take returned.length
  popped_le : popped ≤ returned.length
  queued : q.queued = (accepted.drop popped).map Prod.fst
  bytes : q.bytes = (accepted.drop popped).flatMap Prod.snd
  readPos : popped + q.readPos.toNat = returned.length
  gone : TilesSeq isn.toNat (accepted.take popped) q.ackPos.toNat
  waiting : TilesSeq q.ackPos.toNat (accepted.drop popped) q.writePos.toNat
  lengths : ∀ p ∈ accepted, p.2.length = p.1.dataLength.toNat
  below : q.writePos.toNat < 0xFFFF0000

variable {isn}

variable {s : SendState} {popped : Nat} {q : SendQueue} {acc ret : List Written}
  {n : SequenceNumber}

theorem SendInit.faithful (h : SendInit isn s) : Faithful isn s.accepted s.returned 0 s.queue := by
  obtain ⟨⟨q, hq⟩, hacc, hret, hisn⟩ := h
  rw [hq, hacc, hret]
  refine ⟨reset_laid q isn, rfl, Nat.le_refl _, queued_reset q isn, bytes_reset q isn, rfl, rfl,
    rfl, ?_, hisn⟩
  intro p hp
  simp at hp

theorem Faithful.returned_le (h : Faithful isn acc ret popped q) : ret.length ≤ acc.length := by
  have := congrArg length h.order
  rw [length_take] at this
  omega

theorem Faithful.ack_le (h : Faithful isn acc ret popped q) : q.ackPos.toNat ≤ q.writePos.toNat :=
  h.waiting.spaced.le

theorem Faithful.ackPos_eq (h : Faithful isn acc ret popped q) :
    q.ackPos.toNat = endOf isn (acc.take popped) :=
  h.gone.end_eq

theorem Faithful.write {acc ret : List Written} {popped : Nat} {q q' : SendQueue}
    (h : Faithful isn acc ret popped q) {flags : UInt16} {data : Bytes}
    {dataLength sendLength : UInt32} {r : Bool} (hroom : q.queued.length ≤ 99)
    (hshort : sendLength.toNat ≤ dataLength.toNat)
    (hbelow : q.writePos.toNat + dataLength.toNat < 0xFFFF0000)
    (hcall : q.writeBack ⟨flags, q.writePos, 0, 0⟩ (some data) dataLength sendLength
      = .ok (r, q')) :
    Faithful isn (if r then acc
      ++ [(⟨flags, q.writePos, dataLength, sendLength⟩, data.first dataLength.toNat)] else acc)
      ret popped q' := by
  have hlaid := h.laid.writeBack hshort hcall
  obtain ⟨hrefuse, haccept⟩ := writeBack_spec h.laid.wf ⟨flags, q.writePos, 0, 0⟩ data
    dataLength sendLength
  by_cases hfit : q.bytes.length + dataLength.toNat ≤ 65535
  · obtain ⟨q1, h1, _, hbytes, hqueued, hwrite, hack, hread, _⟩ := haccept hfit rfl
    rw [h1] at hcall
    cases hcall
    have hlt : q.queued.length < 100 := by omega
    rw [if_pos hlt] at hqueued
    have hle := h.returned_le
    have hpop := h.popped_le
    have hdrop : (acc ++ [((⟨flags, q.writePos, dataLength, sendLength⟩ : SendSegment),
        data.first dataLength.toNat)]).drop popped = acc.drop popped
        ++ [(⟨flags, q.writePos, dataLength, sendLength⟩, data.first dataLength.toNat)] :=
      drop_append_of_le_length (by omega)
    have hw : q'.writePos.toNat = q.writePos.toNat + dataLength.toNat := by
      rw [hwrite, toNat_add_eq]
      omega
    rw [if_pos (decide_eq_true hlt)]
    refine ⟨hlaid, ?_, hpop, ?_, ?_, ?_, ?_, ?_, ?_, by omega⟩
    · rw [take_append_of_le_length hle]
      exact h.order
    · rw [hqueued, hdrop, map_append, h.queued]
      rfl
    · rw [hbytes, hdrop, h.bytes]
      simp
    · rw [hread]
      exact h.readPos
    · rw [take_append_of_le_length (by omega), hack]
      exact h.gone
    · rw [hdrop, hack, hw]
      exact h.waiting.concat rfl
    · intro p hp
      rcases mem_append.mp hp with hp | hp
      · exact h.lengths p hp
      · rw [mem_singleton] at hp
        subst hp
        exact Bytes.length_first _ _
  · rw [hrefuse (Or.inl (by omega))] at hcall
    cases hcall
    exact h

theorem slice_tiles (pre : List Written) : ∀ {lo hi : Nat} {p : Written} {post : List Written},
    TilesSeq lo (pre ++ p :: post) hi →
    (∀ r ∈ pre ++ p :: post, r.2.length = r.1.dataLength.toNat) →
    lo ≤ p.1.seqnbr.toNat ∧
      (((pre ++ p :: post).flatMap Prod.snd).drop (p.1.seqnbr.toNat - lo)).take
        p.1.dataLength.toNat = p.2 := by
  induction pre with
  | nil =>
    intro lo hi p post h hlen
    obtain ⟨hp, _⟩ := h
    have hplen := hlen p (by simp)
    have hp' : p.1.seqnbr.toNat = lo := hp
    refine ⟨by omega, ?_⟩
    rw [hp', Nat.sub_self, drop_zero, nil_append, flatMap_cons, ← hplen, take_left]
  | cons r pre ih =>
    intro lo hi p post h hlen
    obtain ⟨_, hrest⟩ := h
    have hrlen := hlen r (by simp)
    have hrest' : TilesSeq (lo + r.1.dataLength.toNat) (pre ++ p :: post) hi := hrest
    obtain ⟨_, hslice⟩ := ih hrest' (fun t ht => hlen t (mem_cons_of_mem _ ht))
    refine ⟨by omega, ?_⟩
    rw [show p.1.seqnbr.toNat - lo
        = r.2.length + (p.1.seqnbr.toNat - (lo + r.1.dataLength.toNat)) by omega,
        cons_append, flatMap_cons, drop_append]
    rw [drop_eq_nil_of_le (by omega), Nat.add_sub_cancel_left]
    exact hslice

theorem Faithful.read_next (h : Faithful isn acc ret popped q)
    (hlt : q.readPos.toNat < q.queued.length) :
    ∃ p, acc[ret.length]? = some p ∧ q.queued[q.readPos.toNat]? = some p.1 ∧
      ∀ length : UInt32, p.1.dataLength.toNat ≤ length.toNat →
        q.readOneSegment length = .ok (some p, { q with readPos := q.readPos + 1 }) := by
  have hpos := h.readPos
  have hqlen : q.queued.length = acc.length - popped := by
    rw [h.queued, length_map, length_drop]
  have hbound : ret.length < acc.length := by omega
  refine ⟨acc[ret.length], getElem?_eq_getElem hbound, ?_, ?_⟩
  · rw [h.queued, getElem?_map, getElem?_drop, hpos, getElem?_eq_getElem hbound]
    rfl
  · intro length hlen
    have hact : q.queued[q.readPos.toNat]? = some (acc[ret.length]).1 := by
      rw [h.queued, getElem?_map, getElem?_drop, hpos, getElem?_eq_getElem hbound]
      rfl
    have hmem : (acc[ret.length]).1 ∈ q.queued := mem_of_getElem? hact
    -- below the border the window test passes
    have hfree : ¬ q.Outside (acc[ret.length]).1 := by
      rw [h.laid.outside_iff hmem]
      unfold Caught
      have := h.ack_le
      have := h.below
      omega
    have hread := readOneSegment_inside h.laid.wf hact hfree (h.laid.fits hmem) hlen
    -- the bytes in the buffer are those written
    have hsplit : acc.drop popped = (acc.drop popped).take q.readPos.toNat
        ++ acc[ret.length] :: acc.drop (ret.length + 1) := by
      rw [← drop_eq_getElem_cons hbound, ← hpos, ← drop_drop, take_append_drop]
    have htiles := h.waiting
    rw [hsplit] at htiles
    obtain ⟨hge, hslice⟩ := slice_tiles _ htiles (fun r hr => h.lengths r (by
      rw [← hsplit] at hr
      exact mem_of_mem_drop hr))
    rw [← hsplit, ← h.bytes] at hslice
    rw [serialDist_of_le hge, hslice] at hread
    exact hread

theorem Faithful.read {acc ret : List Written} {popped : Nat} {q q' : SendQueue}
    (h : Faithful isn acc ret popped q) {length : UInt32} {r : Option Written}
    (hreadable : q.hasReadable = true)
    (hlong : ∀ active, q.queued[q.readPos.toNat]? = some active →
      active.dataLength.toNat ≤ length.toNat)
    (hcall : q.readOneSegment length = .ok (r, q')) :
    Faithful isn acc (ret ++ r.toList) popped q' := by
  have hlt := (hasReadable_iff h.laid.wf).mp hreadable
  obtain ⟨p, hp, hact, hread⟩ := h.read_next hlt
  rw [hread length (hlong p.1 hact)] at hcall
  cases hcall
  have hlen := h.laid.wf.length_queued
  have hpos := h.readPos
  have hnew : (ret ++ (some p).toList).length = ret.length + 1 := by simp
  refine ⟨h.laid.read hlt, ?_, ?_, h.queued, h.bytes, ?_, h.gone, h.waiting, h.lengths, h.below⟩
  · rw [hnew, take_add_one, hp, ← h.order]
  · omega
  · show popped + (q.readPos + 1).toNat = _
    rw [toNat_add_eq, UInt32.toNat_one]
    omega

theorem Faithful.popped_lt (h : Faithful isn acc ret popped q) (hn : n.toNat ≤ endOf isn ret)
    (habove : n > q.ackPos) : popped < ret.length := by
  by_contra hge
  have heq : popped = ret.length := Nat.le_antisymm h.popped_le (Nat.not_lt.mp hge)
  have hack := h.ackPos_eq
  rw [heq, ← h.order] at hack
  rw [gt_iff_lt, lt_iff_toNat] at habove
  omega

theorem Faithful.pop {q' : SendQueue} (h : Faithful isn acc ret popped q) {s : SendSegment}
    {rest : List SendSegment} (hn : n.toNat ≤ endOf isn ret) (hpop : Pop n q q' s rest) :
    Faithful isn acc ret (popped + 1) q' := by
  have hlt := h.popped_lt hn hpop.above
  have hle := h.returned_le
  have hbound : popped < acc.length := by omega
  have hcons := drop_eq_getElem_cons hbound
  have hqueued := h.queued
  rw [hcons, hpop.before] at hqueued
  obtain ⟨hs, hrest⟩ := cons.inj hqueued
  have hwaiting := h.waiting
  rw [hcons] at hwaiting
  obtain ⟨hseq, htail⟩ := hwaiting
  have hseq' : (acc[popped]).1.seqnbr.toNat = q.ackPos.toNat := hseq
  have htail' : TilesSeq (q.ackPos.toNat + (acc[popped]).1.dataLength.toNat)
      (acc.drop (popped + 1)) q.writePos.toNat := htail
  have hend : q'.ackPos.toNat = q.ackPos.toNat + (acc[popped]).1.dataLength.toNat := by
    have h1 := htail'.spaced.le
    have h2 := h.below
    rw [hpop.ackPos, hs, toNat_add_eq]
    omega
  refine ⟨h.laid.pop hpop, h.order, hlt, ?_, ?_, ?_, ?_, ?_, h.lengths, ?_⟩
  · rw [hpop.after, hrest]
  · rw [hpop.bytes, h.bytes, hcons, flatMap_cons, hs, ← h.lengths _ (getElem_mem hbound), drop_left]
  · have := h.readPos
    rw [hpop.readPos]
    omega
  · rw [take_add_one, getElem?_eq_getElem hbound, hend]
    exact h.gone.concat hseq
  · rw [hend, hpop.writePos]
    exact htail'
  · rw [hpop.writePos]
    exact h.below

theorem Faithful.pops {q' : SendQueue} (hn : n.toNat ≤ endOf isn ret)
    (hrun : Relation.ReflTransGen (Pops n) q q') (h : ∃ popped, Faithful isn acc ret popped q) :
    ∃ popped, Faithful isn acc ret popped q' := by
  induction hrun with
  | refl => exact h
  | tail _ hpop ih =>
    obtain ⟨popped, ih⟩ := ih
    obtain ⟨s, rest, hpop⟩ := hpop
    exact ⟨popped + 1, ih.pop hn hpop⟩

theorem Faithful.ack_returns (hn : n.toNat ≤ endOf isn ret) (fuel : Nat) :
    ∀ {popped : Nat} {q : SendQueue},
    Faithful isn acc ret popped q → q.queued.length < fuel →
    ∃ q', ackFrom n fuel q = .ok q' := by
  induction fuel with
  | zero =>
    intro popped q _ hlt
    omega
  | succ fuel ih =>
    intro popped q h hlt
    rcases ackFrom_turn h.laid.wf n with ⟨_, ht⟩ | ⟨habove, hempty, _⟩ | ⟨q1, s, rest, hpop, ht⟩
    · exact ⟨q, ht fuel⟩
    · -- nothing queued: everything accepted is gone, so everything read is
      exfalso
      have hlt' := h.popped_lt hn habove
      have hle := h.returned_le
      have hqueued := congrArg length h.queued
      rw [hempty, length_map, length_drop, length_nil] at hqueued
      omega
    · rw [ht fuel]
      have hlen := congrArg length hpop.before
      rw [length_cons] at hlen
      exact ih (h.pop hn hpop) (by rw [hpop.after]; omega)

theorem SendStep.faithful {s' : SendState} (h : SendStep isn s s')
    (hs : ∃ popped, Faithful isn s.accepted s.returned popped s.queue) :
    ∃ popped, Faithful isn s'.accepted s'.returned popped s'.queue := by
  obtain ⟨popped, hf⟩ := hs
  cases h with
  | write room shorter below call => exact ⟨popped, hf.write room shorter below call⟩
  | read readable long call => exact ⟨popped, hf.read readable long call⟩
  | ack read call =>
    exact Faithful.pops read (ackFrom_pops _ hf.laid.wf call).1 ⟨popped, hf⟩

theorem SendRun.faithful (h : SendRun isn s) :
    ∃ popped, Faithful isn s.accepted s.returned popped s.queue := by
  induction h with
  | init h0 => exact ⟨0, SendInit.faithful h0⟩
  | step _ hstep ih => exact hstep.faithful ih

/-! ## The result -/

theorem Faithful.size_eq (h : Faithful isn acc ret popped q) :
    q.dataBuffer.size = q.writePos - q.ackPos := by
  have hsize : q.dataBuffer.size.toNat = q.bytes.length := h.laid.wf.buffer.toNat_size (by decide)
  have hle := h.ack_le
  rw [eq_iff_toNat, hsize, show (q.writePos - q.ackPos).toNat = serialDist q.writePos q.ackPos from rfl,
      serialDist_of_le hle, h.bytes]
  have hsum := h.waiting.add_sum
  have hlen : ((acc.drop popped).flatMap Prod.snd).length
      = ((acc.drop popped).map fun p => p.1.dataLength.toNat).sum := by
    rw [length_flatMap]
    exact congrArg sum (map_congr_left (fun p hp => h.lengths p (mem_of_mem_drop hp)))
  omega

/-- **What was written is what is read.** In every state of a run the segments returned are the
first accepted ones, all of them once nothing is left, and the next read returns the next one
with its bytes; the queued records tile the buffered bytes, and an ack of what was read returns.
-/
theorem sendRun_faithful {s : SendState} (h : SendRun isn s) :
    s.returned <+: s.accepted ∧
    (s.queue.hasReadable = false → s.returned = s.accepted) ∧
    (s.queue.hasReadable = true → ∃ p, s.accepted[s.returned.length]? = some p ∧
      ∀ length : UInt32, p.1.dataLength.toNat ≤ length.toNat →
        s.queue.readOneSegment length
          = .ok (some p, { s.queue with readPos := s.queue.readPos + 1 })) ∧
    s.queue.dataBuffer.size = s.queue.writePos - s.queue.ackPos ∧
    Tiles (fun r : SendSegment => r.seqnbr.toNat) (fun r => r.dataLength.toNat)
      s.queue.ackPos.toNat s.queue.queued s.queue.writePos.toNat ∧
    (∀ n : SequenceNumber, n.toNat ≤ endOf isn s.returned → ∃ q', s.queue.ack n = .ok q') := by
  obtain ⟨popped, hf⟩ := h.faithful
  have hiff := hasReadable_iff hf.laid.wf
  refine ⟨?_, ?_, ?_, hf.size_eq, ?_, ?_⟩
  · rw [hf.order]
    exact take_prefix _ _
  · intro hno
    have hqueued := congrArg length hf.queued
    have hpos := hf.readPos
    have hall : ¬ s.queue.readPos.toNat < s.queue.queued.length := by
      intro hlt
      rw [hiff.mpr hlt] at hno
      simp at hno
    rw [length_map, length_drop] at hqueued
    rw [hf.order, take_of_length_le (by omega)]
  · intro hyes
    obtain ⟨p, hp, _, hread⟩ := hf.read_next (hiff.mp hyes)
    exact ⟨p, hp, hread⟩
  · rw [hf.queued]
    exact tiles_map.mpr hf.waiting
  · intro n hn
    have hsize : s.queue.segments.size = s.queue.queued.length := hf.laid.wf.segments.size_eq
    exact hf.ack_returns hn _ (by omega)

/-- Two bytes and a FIN are written, the bytes are read and acknowledged: the
queue after each call, and what the read returned. -/
def exchange (q : SendQueue) :
    Checked (SendQueue × SendQueue × Option Written × SendQueue × SendQueue) := do
  let (_, q1) ← q.writeBack ⟨0, q.writePos, 0, 0⟩ (some (Bytes.ofList [0x68, 0x69])) 2 2
  let (_, q2) ← q1.writeBack ⟨FIN, q1.writePos, 0, 0⟩ (some (Bytes.ofList [0x21])) 1 0
  let (p, q3) ← q2.readOneSegment 2
  let q4 ← q3.ack 1002
  .ok (q1, q2, p, q3, q4)

theorem sendRun_exchange :
    ∃ s, SendRun 1000 s ∧ s.returned = [(⟨0, 1000, 2, 2⟩, [0x68, 0x69])] ∧
      s.returned <+: s.accepted ∧ s.queue.ackPos = 1002 := by
  have hrun : (exchange (reset (Connection.new .wildcard .wildcard .LISTEN).txQueue 1000)).map
      (fun r => (r.1.queued.length, r.1.writePos, r.2.1.hasReadable,
        r.2.1.queued[r.2.1.readPos.toNat]?, r.2.2.1, r.2.2.2.2.ackPos))
      = .ok (1, 1002, true, some ⟨0, 1000, 2, 2⟩,
        some (⟨0, 1000, 2, 2⟩, [0x68, 0x69]), 1002) := by rfl
  rw [map_ok] at hrun
  obtain ⟨⟨q1, q2, p, q3, q4⟩, hex, hq⟩ := hrun
  simp only [Prod.mk.injEq] at hq
  obtain ⟨_, hwrite, hreadable, hnext, rfl, hack⟩ := hq
  rw [exchange, bind_ok] at hex
  obtain ⟨⟨r1, _⟩, h1, hex⟩ := hex
  obtain ⟨⟨r2, _⟩, h2, hex⟩ := bind_ok.mp hex
  obtain ⟨⟨_, _⟩, h3, hex⟩ := bind_ok.mp hex
  obtain ⟨_, h4, hex⟩ := bind_ok.mp hex
  cases hex
  have hinit : SendInit 1000
      ⟨reset (Connection.new .wildcard .wildcard .LISTEN).txQueue 1000, [], []⟩ :=
    ⟨⟨_, rfl⟩, rfl, rfl, by decide⟩
  have s0 : SendRun 1000 _ := Reach.init hinit
  have s1 := Reach.step s0 (SendStep.write (by decide) (by decide) (by decide) h1)
  have s2 := s1.step (SendStep.write (by show q1.queued.length ≤ 99; omega) (by decide)
    (by show q1.writePos.toNat + _ < _; rw [hwrite]; decide) h2)
  have s3 := s2.step (SendStep.read hreadable (fun active hactive => by
    rw [show q2.queued[q2.readPos.toNat]? = some active from hactive] at hnext
    cases hnext
    decide) h3)
  have s4 := s3.step (SendStep.ack (by exact Nat.le_refl 1002) h4)
  exact ⟨_, s4, rfl, (sendRun_faithful s4).1, hack⟩

end SendQueue

end Peos2.Tcp
