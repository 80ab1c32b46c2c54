/-
  Tcp.Shutdown — what becomes of the payload when the remote end shuts a connection down.

  A segment that arrives in `ESTABLISHED` at the read cursor is sequenced, read by the
  `step` at the end of the same call and handed to the callback. A FIN counts as one byte
  of the sequence space. `early_recv` adds a phantom byte for it only to an empty segment,
  and `sequenced_recv` drops the bytes of a segment with a FIN, so the two agree only when
  a segment does not carry both.

  Main results: `delivered_iff`, `payload_lost`.
-/
import Peos2.Tcp.Lifecycle

namespace Peos2.Tcp

open Peos2.Lib Peos2.Support List

/-! ## A segment at the read cursor -/

namespace ReceiveQueue

variable {q q' : ReceiveQueue} {flags : UInt16} {data : Bytes} {length : UInt32}

theorem length_of_insert (hins : q.insert ⟨flags, q.readCursor, 0⟩ data length = .ok (true, q')) :
    length.toNat ≤ 65535 := by
  by_contra hlong
  have hrefused : q.insert ⟨flags, q.readCursor, 0⟩ data length = .ok (false, q) := by
    refine insert_refused (.inr (.inr ?_))
    have hzero : unsigned (q.dataBuffer.startOffset (signed (q.readCursor - q.readCursor))) = 0 := by
      rw [UInt32.sub_self]
      rfl
    show unsigned (q.dataBuffer.startOffset (signed (q.readCursor - q.readCursor))) + length
      > q.dataBuffer.capacity
    rw [hzero, UInt32.zero_add, gt_iff_lt, lt_iff_toNat, q.toNat_capacity]
    omega
  rw [hins] at hrefused
  simp at hrefused

/-- A segment at the cursor of a drained queue that is read next is read
with exactly its bytes. -/
theorem insert_inOrder (hq : q.WF) (hdrained : q.hasReadable = .ok false) {r : Bool}
    (hins : q.insert ⟨flags, q.readCursor, 0⟩ data length = .ok (r, q'))
    (hreadable : q'.hasReadable = .ok true) {len : UInt32} {segment : RecvSegment}
    {bytes : List UInt8} {q'' : ReceiveQueue}
    (hread : q'.readOneSegment len = .ok (segment, bytes, q'')) :
    segment = ⟨flags, q.readCursor, length⟩ ∧ bytes = data.first length.toNat ∧
      q'.readCursor = q.readCursor ∧ q''.readCursor = q.readCursor + length := by
  rcases insert_ok_cases hq hins with ⟨_, rfl⟩ | ⟨rfl, _, _, hwf, hrc, hwrite, i, hnone, hl⟩
  · rw [hdrained] at hreadable
    exact absurd hreadable (by decide)
  obtain ⟨j, hfront, hseq, _, _, hbytes, _, _, hcursor, _⟩ := readOneSegment_ok hwf hread
  obtain ⟨rfl, rfl⟩ := front_stored_last hq hdrained hnone hl hrc hfront hseq
  have hdist : serialDist q.readCursor q.readCursor = 0 := by
    rw [serialDist, UInt32.sub_self]
    rfl
  obtain ⟨b, hw, _, hcontents⟩ := @write_window q hq q.readCursor data length
    (by rw [hdist]; have := length_of_insert hins; omega)
  cases hwrite.symm.trans hw
  refine ⟨rfl, ?_, hrc, by rw [hcursor, hrc]⟩
  rw [hbytes, hcontents, hdist]
  have htake := take_overlay_zero q.dataBuffer.contents (data.first length.toNat)
  rw [Bytes.length_first] at htake
  exact htake

end ReceiveQueue

/-! ## Reading the trace of a call -/

def consumedAt : Action → Option SequenceNumber
  | .consumed _ cursor => some cursor
  | _ => none

def callbackData : Action → Option (List UInt8)
  | .callback _ data => some data
  | _ => none

/-- What the callback was handed before anything else was consumed. -/
def handedOver (after : List Action) : List (List UInt8) :=
  (after.takeWhile fun a => (consumedAt a).isNone).filterMap callbackData

/-- The read cursor when the next segment was consumed, or at the end. -/
def cursorAfter (after : List Action) (final : SequenceNumber) : SequenceNumber :=
  (after.findSome? consumedAt).getD final

/-- The place of a FIN in the sequence space. -/
def finLength (flags : UInt16) : UInt32 := if hasFlag flags FIN then 1 else 0

/-- The last thing that happened is a segment sent with the read cursor as
its acknowledgment number. -/
def World.AcksCursor (w : World) : Prop :=
  ∃ destination header payload, w.trace.getLast? = some (.output destination header payload) ∧
    header.ackNbr = w.conn.rxQueue.readCursor

/-- No payload is lost: `after` is what happened in a call from `w` to `w'`
after the segment was consumed. -/
structure Delivered (w w' : World) (metadata : SegmentMetadata) (data : Bytes) (length : UInt32)
    (after : List Action) : Prop where
  payload : length ≠ 0 → handedOver after = [data.first length.toNat]
  cursor : cursorAfter after w'.conn.rxQueue.readCursor
    = w.conn.rxQueue.readCursor + length + finLength metadata.flags
  acked : w'.AcksCursor

theorem handedOver_append {here rest : List Action} (hhere : ∀ a ∈ here, consumedAt a = none)
    (hrest : (∀ a ∈ rest, callbackData a = none) ∨
      ∃ segment cursor tail, rest = .consumed segment cursor :: tail) :
    handedOver (here ++ rest) = here.filterMap callbackData := by
  unfold handedOver
  rw [takeWhile_append_of_pos (by simpa using hhere), filterMap_append]
  suffices hnone : (rest.takeWhile fun a => (consumedAt a).isNone).filterMap callbackData = [] by
    rw [hnone, append_nil]
  rcases hrest with hrest | ⟨segment, cursor, tail, rfl⟩
  · rw [filterMap_eq_nil_iff]
    intro a ha
    exact hrest a (takeWhile_subset _ ha)
  · rfl

theorem cursorAfter_append {here rest : List Action} {final : SequenceNumber}
    (hhere : ∀ a ∈ here, consumedAt a = none) :
    cursorAfter (here ++ rest) final = cursorAfter rest final := by
  unfold cursorAfter
  rw [findSome?_append, findSome?_eq_none_iff.mpr hhere]
  rfl

/-! ## What the parts of a call record -/

def Adds (P : Action → Prop) (w w' : World) : Prop :=
  ∃ acts, w'.trace = w.trace ++ acts ∧ ∀ a ∈ acts, P a

def Inert (a : Action) : Prop := consumedAt a = none ∧ callbackData a = none

variable {P : Action → Prop} {w w' : World}

theorem Adds.trans {w1 : World} (h : Adds P w w1) (h1 : Adds P w1 w') : Adds P w w' := by
  obtain ⟨acts, htrace, hacts⟩ := h
  obtain ⟨acts1, htrace1, hacts1⟩ := h1
  refine ⟨acts ++ acts1, by rw [htrace1, htrace, append_assoc], ?_⟩
  intro a ha
  rcases mem_append.mp ha with ha | ha
  · exact hacts a ha
  · exact hacts1 a ha

theorem Adds.refl (w : World) : Adds P w w := ⟨[], by simp, by simp⟩

theorem Adds.log (h : Adds P w w') {a : Action} (ha : P a) : Adds P w (w'.log a) :=
  h.trans ⟨[a], rfl, by simpa using ha⟩

namespace World

variable (env : Environment)

variable {w w' : World} {data : List UInt8} {fuel : Nat}

theorem close_adds (h : w.close = .ok w') : Adds Inert w w' := by
  unfold close activeClose at h
  split at h
  · obtain ⟨w1, htransmit, h⟩ := bind_ok.mp h
    obtain ⟨r, txQueue, _, rfl⟩ := transmit_ok htransmit
    cases h
    refine ⟨[.transmit w.conn.state FIN, .transition w.conn.state .FIN_WAIT_1], ?_, ?_⟩
    · show (w.trace ++ [_]) ++ [_] = _
      rw [append_assoc]
      rfl
    · simp [Inert, consumedAt, callbackData]
  · cases h
    exact Adds.refl w

theorem sendData_adds (h : w.sendData data = .ok w') : Adds Inert w w' := by
  obtain ⟨r, txQueue, _, rfl⟩ := transmit_ok h
  exact ⟨[.transmit w.conn.state 0], rfl, by simp [Inert, consumedAt, callbackData]⟩

theorem appCalls_adds (calls : List AppCall) : ∀ {w w' : World}, appCalls calls w = .ok w' →
    Adds Inert w w' := by
  induction calls with
  | nil =>
    intro w w' h
    cases h
    exact Adds.refl w
  | cons c cs ih =>
    intro w w' h
    rw [appCalls, bind_ok] at h
    obtain ⟨w1, hc, h⟩ := h
    refine Adds.trans ?_ (ih h)
    cases c with
    | send data => exact sendData_adds hc
    | close => exact close_adds hc

theorem Emits.adds (h : Emits env w w') : Adds Inert w w' := by
  induction h with
  | refl => exact Adds.refl w
  | tail _ hemit ih =>
    refine ih.trans ?_
    cases hemit with
    | fetched => exact Adds.refl _
    | sent flags seqnbr data =>
      exact ⟨[_], rfl, by simp [Inert, consumedAt, callbackData]⟩

theorem sequencedRecv_established {segment : RecvSegment} (hstate : w.conn.state = .ESTABLISHED)
    (h : w.sequencedRecv env segment data = .ok w') :
    ∃ here, w'.trace = w.trace ++ here ∧ (∀ a ∈ here, consumedAt a = none) ∧
      here.filterMap callbackData =
        if hasFlag segment.flags FIN = false ∧ w.conn.callback = true then [data] else [] := by
  unfold sequencedRecv at h
  rw [hstate] at h
  simp only at h
  split at h
  next hfin =>
    obtain ⟨w1, htransmit, h⟩ := bind_ok.mp h
    obtain ⟨r, txQueue, _, rfl⟩ := transmit_ok htransmit
    cases h
    refine ⟨[.transmit w.conn.state FIN, .transition w.conn.state .LAST_ACK], ?_, ?_, ?_⟩
    · show (w.trace ++ [_]) ++ [_] = _
      rw [append_assoc]
      rfl
    · simp [consumedAt]
    · rw [if_neg (by simp [hfin])]
      rfl
  next hfin =>
    rw [Bool.not_eq_true] at hfin
    unfold onFullReceive at h
    split at h
    next hset =>
      obtain ⟨acts, htrace, hacts⟩ := appCalls_adds _ h
      refine ⟨.callback w.conn.state data :: acts, ?_, ?_, ?_⟩
      · rw [htrace]
        show (w.trace ++ [_]) ++ acts = _
        rw [append_assoc]
        rfl
      · intro a ha
        rcases mem_cons.mp ha with rfl | ha
        · rfl
        · exact (hacts a ha).1
      · rw [if_pos ⟨hfin, hset⟩]
        have hnone : acts.filterMap callbackData = [] :=
          filterMap_eq_nil_iff.mpr fun a ha => (hacts a ha).2
        rw [filterMap_cons, hnone]
        rfl
    next hset =>
      cases h
      refine ⟨[], by simp, by simp, ?_⟩
      rw [if_neg (fun hc => hset hc.2)]
      rfl

theorem receiveLoop_rest {w1 : World} (h : receiveLoop env fuel w = .ok w1)
    (hemits : Emits env w1 w') : ∃ rest, w'.trace = w.trace ++ rest ∧
      cursorAfter rest w'.conn.rxQueue.readCursor = w.conn.rxQueue.readCursor ∧
      ((∀ a ∈ rest, callbackData a = none) ∨
        ∃ segment cursor tail, rest = .consumed segment cursor :: tail) := by
  rcases receiveLoop_cases env h with
    ⟨rfl, _⟩ | ⟨_, segment, data, rxQueue, w2, _, _, _, hseq, hloop⟩
  · obtain ⟨outs, houts, hinert⟩ := Emits.adds env hemits
    refine ⟨outs, houts, ?_, .inl fun a ha => (hinert a ha).2⟩
    have hnone : outs.findSome? consumedAt = none :=
      findSome?_eq_none_iff.mpr fun a ha => (hinert a ha).1
    rw [cursorAfter, hnone, hemits.rxQueue_eq]
    rfl
  have hmoves := (sequencedRecv_moves env getLast?_concat hseq).trans
    ((receiveLoop_moves env _ hloop).trans (hemits.moves env))
  obtain ⟨tail, htail⟩ := Moves.trace_prefix env hmoves
  refine ⟨.consumed segment w.conn.rxQueue.readCursor :: tail, ?_, rfl, .inr ⟨_, _, _, rfl⟩⟩
  rw [← htail]
  show (w.trace ++ [_]) ++ tail = _
  rw [append_assoc]
  rfl

theorem step_established (hstate : w.conn.state = .ESTABLISHED) (h : w.step env fuel = .ok w') :
    Adds Inert w w' ∨ ∃ segment bytes rxQueue after,
      w.conn.rxQueue.hasReadable = .ok true ∧
      w.conn.rxQueue.readOneSegment stepBufferSize = .ok (segment, bytes, rxQueue) ∧
      w'.trace = w.trace ++ .consumed segment w.conn.rxQueue.readCursor :: after ∧
      handedOver after =
        (if hasFlag segment.flags FIN = false ∧ w.conn.callback = true then [bytes] else []) ∧
      cursorAfter after w'.conn.rxQueue.readCursor = rxQueue.readCursor := by
  obtain ⟨w1, hloop, hemits⟩ := step_ok env h
  rcases receiveLoop_cases env hloop with
    ⟨rfl, _⟩ | ⟨_, segment, bytes, rxQueue, w2, _, hreadable, hread, hseq, hnext⟩
  · exact .inl (Emits.adds env hemits)
  obtain ⟨here, hhere, hquiet, hcallbacks⟩ := sequencedRecv_established env (by exact hstate) hseq
  obtain ⟨rest, hrest, hcursor, hkind⟩ := receiveLoop_rest env hnext hemits
  refine .inr ⟨segment, bytes, rxQueue, here ++ rest, hreadable, hread, ?_, ?_, ?_⟩
  · rw [hrest, hhere]
    show ((w.trace ++ [_]) ++ here) ++ rest = _
    rw [append_assoc, append_assoc]
    rfl
  · rw [handedOver_append hquiet hkind, hcallbacks]
    rfl
  · rw [cursorAfter_append hquiet, hcursor, sequencedRecv_rxQueue env hseq]
    rfl

theorem sent_acks (w : World) (flags : UInt16) (seqnbr : SequenceNumber) (data : List UInt8) :
    (w.sent env flags seqnbr data).AcksCursor :=
  ⟨_, _, _, getLast?_concat, rfl⟩

theorem send_acks {flags : UInt16} {seqnbr : SequenceNumber}
    (h : w.send env flags seqnbr data = .ok w') : w'.AcksCursor := by
  rw [send_eq] at h
  split at h
  · cases h
    exact sent_acks env w flags seqnbr data
  · simp at h

theorem transmitLoop_acks (fuel : Nat) : ∀ {w w' : World}, transmitLoop env fuel w = .ok w' →
    w.conn.txQueue.hasReadable = true ∨ w.AcksCursor → w'.AcksCursor := by
  induction fuel with
  | zero =>
    intro w w' h
    exact absurd h (by simp [transmitLoop])
  | succ fuel ih =>
    intro w w' h hcases
    rw [transmitLoop] at h
    split at h
    · obtain ⟨⟨r, txQueue⟩, _, h⟩ := bind_ok.mp h
      cases r with
      | some p =>
        simp only [bind_ok] at h
        obtain ⟨w1, hsend, h⟩ := h
        exact ih h (.inr (send_acks env hsend))
      | none =>
        simp only [bind_ok] at h
        obtain ⟨w1, hsend, h⟩ := h
        exact ih h (.inr (send_acks env hsend))
    next hnone =>
      cases h
      exact hcases.resolve_left hnone

theorem step_acks (h : w.step env fuel = .ok w')
    (hreadable : w.conn.rxQueue.hasReadable = .ok true) : w'.AcksCursor := by
  rw [step, hreadable, ok_bind, bind_ok] at h
  obtain ⟨w1, _, h⟩ := h
  split at h
  · obtain ⟨w2, hidle, h⟩ := bind_ok.mp h
    exact transmitLoop_acks env fuel h (.inr (send_acks env hidle))
  next htx =>
    exact transmitLoop_acks env fuel h (.inl (by simpa using htx))

theorem handleAck_established {metadata : SegmentMetadata} (hstate : w.conn.state = .ESTABLISHED)
    (h : w.handleAck metadata = .ok w') : ∃ txQueue, w' = w.withTx txQueue := by
  unfold handleAck at h
  split at h
  · obtain ⟨txQueue, _, h⟩ := bind_ok.mp h
    refine ⟨txQueue, ?_⟩
    simp only [remoteConsumedAll, show (w.withTx txQueue).conn.state = .ESTABLISHED from hstate]
      at h
    split at h <;> cases h <;> rfl
  · cases h
    exact ⟨w.conn.txQueue, rfl⟩

end World

/-! ## One in-order segment -/

/-- What `early_recv` sequences in `ESTABLISHED`. -/
def sequencedLength (flags : UInt16) (length : UInt32) : UInt32 :=
  if hasFlag flags FIN && length == 0 then 1 else length

def sequencedData (flags : UInt16) (data : Bytes) (length : UInt32) : Bytes :=
  if hasFlag flags FIN && length == 0 then phantom else data

/-- What a call does with a segment at the read cursor that it consumes: the callback gets
the bytes if there is no FIN, and the cursor moves by the sequenced length. -/
theorem onReceive_inOrder (env : Environment) {fuel : Nat} {metadata : SegmentMetadata}
    {data : Bytes} {length : UInt32} {segment : RecvSegment} {cursor : SequenceNumber}
    {after : List Action} (hw : Settled w) (hstate : w.conn.state = .ESTABLISHED)
    (hseq : metadata.tcpHeader.seqNbr = w.conn.rxQueue.readCursor)
    (h : w.onReceive env fuel metadata data length = .ok w')
    (hconsumed : w'.trace = w.trace ++ .received metadata length :: .consumed segment cursor :: after)
    :
    handedOver after =
        (if hasFlag metadata.flags FIN = false ∧ w.conn.callback = true then
          [(sequencedData metadata.flags data length).first
            (sequencedLength metadata.flags length).toNat] else []) ∧
      cursorAfter after w'.conn.rxQueue.readCursor
        = w.conn.rxQueue.readCursor + sequencedLength metadata.flags length ∧
      w'.AcksCursor := by
  rw [World.onReceive, bind_ok] at h
  obtain ⟨w1, hearly, h⟩ := h
  obtain ⟨w2, hack, hstep⟩ := bind_ok.mp h
  obtain ⟨r, q, hins, rfl⟩ := World.earlyRecv_established (by exact hstate) hearly
  obtain ⟨txQueue, rfl⟩ := World.handleAck_established (by exact hstate) hack
  rcases World.step_established env (by exact hstate) hstep with
    ⟨acts, hacts, hinert⟩ | ⟨segment1, bytes, rxQueue, after1, hreadable, hread, htrace, hhanded, hcursor⟩
  · -- the call consumed something
    have hall : w.trace ++ .received metadata length :: acts
        = w.trace ++ .received metadata length :: .consumed segment cursor :: after := by
      rw [← hconsumed, hacts]
      show _ = (w.trace ++ [_]) ++ acts
      rw [append_assoc]
      rfl
    have hacts' := (cons.inj (append_cancel_left hall)).2
    have hc := (hinert (.consumed segment cursor) (by rw [hacts']; simp)).1
    exact absurd hc (by simp [consumedAt])
  -- it was the segment that arrived
  rw [hseq] at hins
  obtain ⟨hsegment, hbytes, _, hrc⟩ :=
    ReceiveQueue.insert_inOrder hw.wf hw.drained hins hreadable hread
  have hafter : after = after1 := by
    have hall : w.trace ++ .received metadata length :: .consumed segment cursor :: after
        = w.trace ++ .received metadata length :: .consumed segment1 q.readCursor :: after1 := by
      rw [← hconsumed, htrace]
      show (w.trace ++ [_]) ++ _ = _
      rw [append_assoc]
      rfl
    exact (cons.inj (cons.inj (append_cancel_left hall)).2).2
  subst hafter
  refine ⟨?_, hcursor.trans hrc, World.step_acks env hstep hreadable⟩
  rw [hhanded, hsegment, hbytes]
  rfl

/-- **When no payload is lost.** A segment at the read cursor of an `ESTABLISHED` connection
that the call consumes is handed to the callback once, and the cursor moves by its length and
its FIN, exactly when it has no payload, or no FIN and a callback to go to. -/
theorem delivered_iff (env : Environment) {fuel : Nat} {w w' : World}
    {metadata : SegmentMetadata} {data : Bytes} {length : UInt32} {segment : RecvSegment}
    {cursor : SequenceNumber} {after : List Action} (hrun : LifeRun env w)
    (hstate : w.conn.state = .ESTABLISHED)
    (hseq : metadata.tcpHeader.seqNbr = w.conn.rxQueue.readCursor)
    (h : w.onReceive env fuel metadata data length = .ok w')
    (hconsumed : w'.trace = w.trace ++ .received metadata length :: .consumed segment cursor :: after) :
    Delivered w w' metadata data length after ↔
      (length = 0 ∨ (hasFlag metadata.flags FIN = false ∧ w.conn.callback = true)) := by
  obtain ⟨hhanded, hcursor, hacked⟩ :=
    onReceive_inOrder env (LifeRun.settled env hrun) hstate hseq h hconsumed
  constructor
  · rintro ⟨hpayload, _, _⟩
    by_contra hnot
    rw [not_or] at hnot
    obtain ⟨hlength, hcond⟩ := hnot
    have hlost := hpayload hlength
    rw [hhanded, if_neg hcond] at hlost
    simp at hlost
  · intro hcond
    refine ⟨?_, ?_, hacked⟩
    · intro hlength
      have hok := hcond.resolve_left hlength
      rw [hhanded, if_pos hok, sequencedData, sequencedLength, hok.1]
      rfl
    · rw [hcursor, sequencedLength, finLength, UInt32.add_assoc]
      cases hfin : hasFlag metadata.flags FIN with
      | false => simp
      | true =>
        have hempty : length = 0 := hcond.resolve_right (by simp [hfin])
        subst hempty
        rfl

/-! ## A byte with and without a FIN -/

/-- An established connection with a callback gets one byte, in a segment with
the given flags. -/
def oneByte (flags : UInt16) : Checked (World × World) := do
  let w0 ← birth World.quiet 2 { ConnectionTable.blank with callback := true } (.plain SYN 1000 0)
  let w1 ← w0.onReceive World.quiet 2 (.plain ACK 1001 0xDEADBEF0) phantom 0
  let w2 ← w1.onReceive World.quiet 2 (.plain flags 1001 0xDEADBEF0) phantom 1
  .ok (w1, w2)

def seen (p : World × World) : ConnectionState × Bool × SequenceNumber × Option SequenceNumber :=
  (p.1.conn.state, p.1.conn.callback, p.1.conn.rxQueue.readCursor,
    (p.2.trace.drop (p.1.trace.length + 1)).head?.bind consumedAt)

theorem oneByte_run {flags : UInt16} (h : oneByte flags = .ok (w, w'))
    (hseen : seen (w, w') = (.ESTABLISHED, true, 1001, some 1001)) :
    (LifeRun World.quiet w ∧ w.conn.state = .ESTABLISHED ∧ w.conn.callback = true ∧
      1001 = w.conn.rxQueue.readCursor) ∧
    w.onReceive World.quiet 2 (.plain flags 1001 0xDEADBEF0) phantom 1 = .ok w' ∧
    ∃ segment cursor after, w'.trace
      = w.trace ++ .received (.plain flags 1001 0xDEADBEF0) 1 :: .consumed segment cursor :: after := by
  obtain ⟨w0, h0, h⟩ := bind_ok.mp h
  obtain ⟨w1, h1, h⟩ := bind_ok.mp h
  obtain ⟨w2, h2, h⟩ := bind_ok.mp h
  cases h
  simp only [seen, Prod.mk.injEq] at hseen
  obtain ⟨hstate, hset, hcursor, hnext⟩ := hseen
  have r0 : LifeRun World.quiet w0 := Reach.init (birth_born World.quiet (by decide) h0)
  refine ⟨⟨r0.step ⟨2, .received _ _ _, h1⟩, hstate, hset, hcursor.symm⟩, h2, ?_⟩
  -- the trace goes on with the arrival, and then with what was consumed
  obtain ⟨w3, harrival, hmoves⟩ := World.onReceive_moves _ h2
  obtain ⟨rest, hrest⟩ := harrival.trace_prefix.trans (World.Moves.trace_prefix _ hmoves)
  rw [← hrest, drop_append_of_le_length (by simp), drop_of_length_le (by simp)] at hnext
  cases rest with
  | nil => simp at hnext
  | cons a after =>
    cases a with
    | consumed segment cursor =>
      refine ⟨segment, cursor, after, ?_⟩
      rw [← hrest, append_assoc]
      rfl
    | _ => exact absurd hnext (by simp [consumedAt])

theorem delivered_oneByte : ∃ w w' after, LifeRun World.quiet w ∧
    Delivered w w' (.plain ACK 1001 0xDEADBEF0) phantom 1 after := by
  have hlife : (oneByte ACK).map seen = .ok (.ESTABLISHED, true, 1001, some 1001) := by rfl
  obtain ⟨⟨w, w'⟩, hw, hseen⟩ := map_ok.mp hlife
  obtain ⟨⟨hrun, hstate, hset, hseq⟩, hcall, segment, cursor, after, htrace⟩ := oneByte_run hw hseen
  exact ⟨w, w', after, hrun, (delivered_iff _ hrun hstate hseq hcall htrace).mpr
    (.inr ⟨by decide, hset⟩)⟩

/-- **A byte that comes with a FIN is lost**: the callback never sees it, and
the cursor does not count the FIN. -/
theorem payload_lost : ∃ w w' segment cursor after, LifeRun World.quiet w ∧
    w.conn.state = .ESTABLISHED ∧ w.conn.callback = true ∧
    w.conn.rxQueue.readCursor = 1001 ∧
    w.onReceive World.quiet 2 (.plain (FIN ||| ACK) 1001 0xDEADBEF0) phantom 1 = .ok w' ∧
    w'.trace = w.trace ++ .received (.plain (FIN ||| ACK) 1001 0xDEADBEF0) 1 ::
      .consumed segment cursor :: after ∧
    handedOver after = [] ∧ cursorAfter after w'.conn.rxQueue.readCursor = 1002 ∧
    ¬ Delivered w w' (.plain (FIN ||| ACK) 1001 0xDEADBEF0) phantom 1 after := by
  have hlife : (oneByte (FIN ||| ACK)).map seen
      = .ok (.ESTABLISHED, true, 1001, some 1001) := by rfl
  obtain ⟨⟨w, w'⟩, hw, hseen⟩ := map_ok.mp hlife
  obtain ⟨⟨hrun, hstate, hset, hseq⟩, hcall, segment, cursor, after, htrace⟩ := oneByte_run hw hseen
  obtain ⟨hhanded, hcursor, _⟩ := onReceive_inOrder _ (LifeRun.settled _ hrun) hstate
    (show (SegmentMetadata.plain (FIN ||| ACK) 1001 0xDEADBEF0).tcpHeader.seqNbr = _ from hseq)
    hcall htrace
  have hnone : handedOver after = [] := by
    rw [hhanded, if_neg]
    rintro ⟨hfin, _⟩
    exact absurd hfin (by decide)
  refine ⟨w, w', segment, cursor, after, hrun, hstate, hset, hseq.symm, hcall, htrace, hnone,
    ?_, ?_⟩
  · rw [hcursor, ← hseq]
    rfl
  · intro hd
    have hbyte := hd.payload (by decide)
    rw [hnone] at hbyte
    simp at hbyte

end Peos2.Tcp
