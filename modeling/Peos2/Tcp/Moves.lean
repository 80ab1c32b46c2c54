/-
  Tcp.Moves — what a call on a connection can do, said once.

  `Arrival` lists what `early_recv` can make of a segment, by state. `Move` lists the
  elementary moves that everything else is made of: acknowledging, `step`, `close` and the
  calls of the application, each with the circumstances in which the code makes it. Every
  call that returns is an arrival followed by moves, or moves alone, so a property of all
  calls is a property of each arrival and each move.

  Main result: `onReceive_moves`.
-/
import Peos2.Tcp.Connection

namespace Peos2.Tcp

open Peos2.Lib Peos2.Support List ReceiveQueue

namespace World

variable (env : Environment)

/-! ## Moves -/

/-- What becomes of a connection when a segment has just arrived. -/
inductive Arrival (w : World) (metadata : SegmentMetadata) (data : Bytes) (length : UInt32) :
    World → Prop
  /-- The segment is of no interest in this state. -/
  | ignored : Arrival w metadata data length (w.log (.received metadata length))
  /-- `LISTEN` creates a connection in the table. -/
  | accepted (table : ConnectionTable) (state : w.conn.state = .LISTEN) :
      Arrival w metadata data length { w.log (.received metadata length) with table }
  | established (state : w.conn.state = .SYN_RCVD) (ack : hasFlag metadata.flags ACK = true) :
      Arrival w metadata data length
        ((w.log (.received metadata length)).transition .ESTABLISHED)
  /-- `ESTABLISHED` sequences everything, an empty FIN with its phantom byte. -/
  | sequenced {r : Bool} {rxQueue : ReceiveQueue} (state : w.conn.state = .ESTABLISHED)
      (call : w.conn.rxQueue.insert ⟨metadata.flags, metadata.tcpHeader.seqNbr, 0⟩
        (if hasFlag metadata.flags FIN && length == 0 then phantom else data)
        (if hasFlag metadata.flags FIN && length == 0 then 1 else length) = .ok (r, rxQueue)) :
      Arrival w metadata data length ((w.log (.received metadata length)).withRx rxQueue)
  /-- `FIN_WAIT_1` sequences an empty FIN and goes on to `CLOSING`. -/
  | closing {r : Bool} {rxQueue : ReceiveQueue} (state : w.conn.state = .FIN_WAIT_1)
      (fin : hasFlag metadata.flags FIN = true) (empty : length = 0)
      (call : w.conn.rxQueue.insert ⟨metadata.flags, metadata.tcpHeader.seqNbr, 0⟩ phantom 1
        = .ok (r, rxQueue)) :
      Arrival w metadata data length
        (((w.log (.received metadata length)).withRx rxQueue).transition .CLOSING)
  /-- `FIN_WAIT_2` sequences an empty FIN. -/
  | finSequenced {r : Bool} {rxQueue : ReceiveQueue} (state : w.conn.state = .FIN_WAIT_2)
      (fin : hasFlag metadata.flags FIN = true) (empty : length = 0)
      (call : w.conn.rxQueue.insert ⟨metadata.flags, metadata.tcpHeader.seqNbr, 0⟩ phantom 1
        = .ok (r, rxQueue)) :
      Arrival w metadata data length ((w.log (.received metadata length)).withRx rxQueue)

/-- What the end of `step` is made of: reading the send queue and putting
segments out. -/
inductive Emit : World → World → Prop
  | fetched {w : World} {r : Option (SendSegment × List UInt8)} {txQueue : SendQueue}
      (readable : w.conn.txQueue.hasReadable = true)
      (call : w.conn.txQueue.readOneSegment stepBufferSize = .ok (r, txQueue)) :
      Emit w (w.withTx txQueue)
  | sent (w : World) (flags : UInt16) (seqnbr : SequenceNumber) (data : List UInt8) :
      Emit w (w.sent env flags seqnbr data)

inductive Move : World → World → Prop
  | acked {w : World} {n : SequenceNumber} {txQueue : SendQueue}
      (call : w.conn.txQueue.ack n = .ok txQueue) : Move w (w.withTx txQueue)
  | finAcked {w : World} (state : w.conn.state = .FIN_WAIT_1) :
      Move w (w.transition .FIN_WAIT_2)
  /-- The remote end acknowledged everything, our FIN included. -/
  | finished {w : World} {table : ConnectionTable}
      (state : w.conn.state = .LAST_ACK ∨ w.conn.state = .CLOSING)
      (call : w.table.finishConnection w.conn.handle = .ok table) :
      Move w ({ w with table }.log (.finish w.conn.state))
  /-- `FIN_WAIT_2` got the remote end's FIN. -/
  | destroyed {w : World} {table : ConnectionTable} {segment : RecvSegment}
      {cursor : SequenceNumber} (state : w.conn.state = .FIN_WAIT_2)
      (last : w.trace.getLast? = some (.consumed segment cursor))
      (fin : hasFlag segment.flags FIN = true)
      (call : w.table.finishConnection w.conn.handle = .ok table) :
      Move w ({ w with table }.log (.finish w.conn.state))
  | consumed {w : World} {segment : RecvSegment} {data : List UInt8} {rxQueue : ReceiveQueue}
      (readable : w.conn.rxQueue.hasReadable = .ok true)
      (call : w.conn.rxQueue.readOneSegment stepBufferSize = .ok (segment, data, rxQueue)) :
      Move w ((w.withRx rxQueue).log (.consumed segment w.conn.rxQueue.readCursor))
  /-- A segment other than a FIN is handed to the send queue. -/
  | transmitted {w : World} {flags : UInt16} {data : Bytes} {length sendLength : UInt32}
      {r : Bool} {txQueue : SendQueue} (noFin : hasFlag flags FIN = false)
      (shorter : sendLength.toNat ≤ length.toNat)
      (call : w.conn.txQueue.writeBack ⟨flags, w.conn.txQueue.writePos, 0, 0⟩ (some data) length
        sendLength = .ok (r, txQueue)) :
      Move w ((w.withTx txQueue).log (.transmit w.conn.state flags))
  /-- A FIN is handed to the send queue and `ESTABLISHED` is left. -/
  | left {w : World} {newState : ConnectionState} {r : Bool} {txQueue : SendQueue}
      (state : w.conn.state = .ESTABLISHED)
      (target : newState = .LAST_ACK ∨ newState = .FIN_WAIT_1)
      (call : w.conn.txQueue.writeBack ⟨FIN, w.conn.txQueue.writePos, 0, 0⟩ (some phantom) 1 0
        = .ok (r, txQueue)) :
      Move w (((w.withTx txQueue).log (.transmit w.conn.state FIN)).transition newState)
  | called {w : World} {segment : RecvSegment} {cursor : SequenceNumber} (data : List UInt8)
      (state : w.conn.state = .ESTABLISHED)
      (last : w.trace.getLast? = some (.consumed segment cursor))
      (noFin : hasFlag segment.flags FIN = false) (set : w.conn.callback = true) :
      Move w (w.log (.callback w.conn.state data))
  | emitted {w w' : World} (emit : Emit env w w') : Move w w'

abbrev Emits : World → World → Prop := Relation.ReflTransGen (Emit env)

abbrev Moves : World → World → Prop := Relation.ReflTransGen (Move env)

variable {w w' : World} {data : Bytes} {length : UInt32} {metadata : SegmentMetadata}
  {flags : UInt16} {fuel : Nat}

theorem Emits.moves (h : Emits env w w') : Moves env w w' :=
  Relation.ReflTransGen.mono (fun _ _ => .emitted) _ _ h

theorem Emits.rxQueue_eq (h : Emits env w w') : w'.conn.rxQueue = w.conn.rxQueue := by
  induction h with
  | refl => rfl
  | tail _ hemit ih =>
    rw [← ih]
    cases hemit <;> rfl

theorem Move.trace_prefix (h : Move env w w') : w.trace <+: w'.trace := by
  cases h with
  | acked => exact prefix_refl _
  | emitted emit =>
    cases emit with
    | fetched => exact prefix_refl _
    | sent => exact prefix_append _ _
  | left =>
    -- the FIN and the transition
    show w.trace <+: (w.trace ++ [_]) ++ [_]
    rw [append_assoc]
    exact prefix_append _ _
  | _ => exact prefix_append _ _

theorem Moves.trace_prefix (h : Moves env w w') : w.trace <+: w'.trace := by
  induction h with
  | refl => exact prefix_refl _
  | tail _ hmove ih => exact ih.trans (hmove.trace_prefix env)

theorem Arrival.trace_prefix (h : Arrival w metadata data length w') :
    w.trace ++ [.received metadata length] <+: w'.trace := by
  cases h with
  | established | closing => exact prefix_append _ _
  | _ => exact prefix_refl _

theorem Move.rxQueue_wf (h : Move env w w') (hrx : w.conn.rxQueue.WF) : w'.conn.rxQueue.WF := by
  cases h with
  | consumed readable call =>
    obtain ⟨_, _, _, _, _, _, hwf, _⟩ := readOneSegment_ok hrx call
    exact hwf
  | emitted emit => cases emit <;> exact hrx
  | _ => exact hrx

theorem Moves.rxQueue_wf (h : Moves env w w') (hrx : w.conn.rxQueue.WF) : w'.conn.rxQueue.WF := by
  induction h with
  | refl => exact hrx
  | tail _ hmove ih => exact hmove.rxQueue_wf env ih

theorem Arrival.rxQueue_wf (h : Arrival w metadata data length w') (hrx : w.conn.rxQueue.WF) :
    w'.conn.rxQueue.WF := by
  cases h with
  | ignored | accepted | established => exact hrx
  | sequenced state call => exact insert_ok_wf hrx call
  | closing state fin empty call => exact insert_ok_wf hrx call
  | finSequenced state fin empty call => exact insert_ok_wf hrx call

/-! ## The building blocks -/

theorem transmit_ok {sendLength : UInt32} (h : w.transmit flags data length sendLength = .ok w') :
    ∃ r txQueue, w.conn.txQueue.writeBack ⟨flags, w.conn.txQueue.writePos, 0, 0⟩ (some data)
        length sendLength = .ok (r, txQueue) ∧
      w' = (w.withTx txQueue).log (.transmit w.conn.state flags) := by
  rw [transmit, bind_ok] at h
  obtain ⟨⟨r, txQueue⟩, hcall, h⟩ := h
  cases h
  exact ⟨r, txQueue, hcall, rfl⟩

theorem transmit_moves {sendLength : UInt32} (hfin : hasFlag flags FIN = false)
    (hshort : sendLength.toNat ≤ length.toNat)
    (h : w.transmit flags data length sendLength = .ok w') : Moves env w w' := by
  obtain ⟨r, txQueue, hcall, rfl⟩ := transmit_ok h
  exact .single (.transmitted hfin hshort hcall)

theorem markForDestruction_ok (h : w.markForDestruction = .ok w') :
    ∃ table, w.table.finishConnection w.conn.handle = .ok table ∧
      w' = { w with table }.log (.finish w.conn.state) := by
  rw [markForDestruction, bind_ok] at h
  obtain ⟨table, hcall, h⟩ := h
  cases h
  exact ⟨table, hcall, rfl⟩

theorem sequence_ok (h : w.sequence metadata data length = .ok w') :
    ∃ r rxQueue, w.conn.rxQueue.insert ⟨metadata.flags, metadata.tcpHeader.seqNbr, 0⟩ data length
        = .ok (r, rxQueue) ∧ w' = w.withRx rxQueue := by
  rw [sequence, bind_ok] at h
  obtain ⟨conn, hconn, h⟩ := h
  rw [Connection.sequence, bind_ok] at hconn
  obtain ⟨⟨r, rxQueue⟩, hcall, hconn⟩ := hconn
  cases hconn
  cases h
  exact ⟨r, rxQueue, hcall, rfl⟩

theorem leave_moves {w1 : World} {newState : ConnectionState} (hstate : w.conn.state = .ESTABLISHED)
    (htarget : newState = .LAST_ACK ∨ newState = .FIN_WAIT_1)
    (h : w.transmit FIN phantom 1 0 = .ok w1) : Moves env w (w1.transition newState) := by
  obtain ⟨r, txQueue, hcall, rfl⟩ := transmit_ok h
  exact .single (.left hstate htarget hcall)

/-! ## The application -/

theorem close_moves (h : w.close = .ok w') : Moves env w w' := by
  unfold close activeClose at h
  split at h
  next hstate =>
    obtain ⟨w1, htransmit, h⟩ := bind_ok.mp h
    cases h
    exact leave_moves env hstate (.inr rfl) htransmit
  · cases h
    exact .refl

theorem sendData_moves {data : List UInt8} (h : w.sendData data = .ok w') : Moves env w w' :=
  transmit_moves env (by decide) (Nat.le_refl _) h

theorem close_rxQueue (h : w.close = .ok w') : w'.conn.rxQueue = w.conn.rxQueue := by
  unfold close activeClose at h
  split at h
  · obtain ⟨w1, htransmit, h⟩ := bind_ok.mp h
    obtain ⟨r, txQueue, _, rfl⟩ := transmit_ok htransmit
    cases h
    rfl
  · cases h
    rfl

theorem sendData_rxQueue {data : List UInt8} (h : w.sendData data = .ok w') :
    w'.conn.rxQueue = w.conn.rxQueue := by
  obtain ⟨r, txQueue, _, rfl⟩ := transmit_ok h
  rfl

theorem appCalls_moves (calls : List AppCall) : ∀ {w w' : World},
    appCalls calls w = .ok w' → Moves env w w' := by
  induction calls with
  | nil =>
    intro w w' h
    cases h
    exact .refl
  | cons c cs ih =>
    intro w w' h
    rw [appCalls, bind_ok] at h
    obtain ⟨w1, hc, h⟩ := h
    refine Relation.ReflTransGen.trans ?_ (ih h)
    cases c with
    | send data => exact sendData_moves env hc
    | close => exact close_moves env hc

theorem appCalls_rxQueue (calls : List AppCall) : ∀ {w w' : World},
    appCalls calls w = .ok w' → w'.conn.rxQueue = w.conn.rxQueue := by
  induction calls with
  | nil =>
    intro w w' h
    cases h
    rfl
  | cons c cs ih =>
    intro w w' h
    rw [appCalls, bind_ok] at h
    obtain ⟨w1, hc, h⟩ := h
    rw [ih h]
    cases c with
    | send data => exact sendData_rxQueue hc
    | close => exact close_rxQueue hc

/-! ## The states -/

theorem earlyRecv_established (hstate : w.conn.state = .ESTABLISHED)
    (h : w.earlyRecv metadata data length = .ok w') :
    ∃ r rxQueue, w.conn.rxQueue.insert ⟨metadata.flags, metadata.tcpHeader.seqNbr, 0⟩
        (if hasFlag metadata.flags FIN && length == 0 then phantom else data)
        (if hasFlag metadata.flags FIN && length == 0 then 1 else length) = .ok (r, rxQueue) ∧
      w' = w.withRx rxQueue := by
  unfold earlyRecv at h
  rw [hstate] at h
  simp only at h
  split at h
  next hfin =>
    rw [if_pos hfin, if_pos hfin]
    exact sequence_ok h
  next hfin =>
    rw [if_neg hfin, if_neg hfin]
    exact sequence_ok h

theorem earlyRecv_arrival
    (h : (w.log (.received metadata length)).earlyRecv metadata data length = .ok w') :
    Arrival w metadata data length w' := by
  have hearly := h
  unfold earlyRecv at h
  split at h
  next hstate =>
    -- LISTEN
    split at h
    · obtain ⟨⟨_, table⟩, _, h⟩ := bind_ok.mp h
      cases h
      exact .accepted table hstate
    · cases h
      exact .ignored
  next hstate =>
    -- SYN_RCVD
    split at h
    next hack =>
      cases h
      exact .established hstate hack
    · cases h
      exact .ignored
  next hstate =>
    -- ESTABLISHED
    obtain ⟨r, rxQueue, hins, rfl⟩ := earlyRecv_established hstate hearly
    exact .sequenced hstate hins
  next hstate =>
    -- FIN_WAIT_1
    split at h
    next hfin =>
      rw [Bool.and_eq_true, beq_iff_eq] at hfin
      obtain ⟨w1, hseq, h⟩ := bind_ok.mp h
      obtain ⟨r, rxQueue, hcall, rfl⟩ := sequence_ok hseq
      cases h
      exact .closing hstate hfin.1 hfin.2 hcall
    · cases h
      exact .ignored
  next hstate =>
    -- FIN_WAIT_2
    split at h
    next hfin =>
      rw [Bool.and_eq_true, beq_iff_eq] at hfin
      obtain ⟨r, rxQueue, hcall, rfl⟩ := sequence_ok h
      exact .finSequenced hstate hfin.1 hfin.2 hcall
    · cases h
      exact .ignored
  all_goals
    cases h
    exact .ignored

theorem earlyRecv_finWait1 (hstate : w.conn.state = .FIN_WAIT_1)
    (hfin : hasFlag metadata.flags FIN = true) (hempty : length = 0) :
    w.earlyRecv metadata data length =
      (w.sequence metadata phantom 1 >>= fun w => .ok (w.transition .CLOSING)) := by
  unfold earlyRecv
  rw [hstate, hempty]
  simp only [hfin, beq_self_eq_true, Bool.and_self, if_true]

theorem sequencedRecv_moves {segment : RecvSegment} {cursor : SequenceNumber} {data : List UInt8}
    (hlast : w.trace.getLast? = some (.consumed segment cursor))
    (h : w.sequencedRecv env segment data = .ok w') : Moves env w w' := by
  unfold sequencedRecv at h
  split at h
  · -- SYN_RCVD
    split at h
    · exact transmit_moves env (by decide) (by decide) h
    · cases h
      exact .refl
  next hstate =>
    -- ESTABLISHED
    split at h
    · obtain ⟨w1, htransmit, h⟩ := bind_ok.mp h
      cases h
      exact leave_moves env hstate (.inl rfl) htransmit
    next hfin =>
      rw [Bool.not_eq_true] at hfin
      unfold onFullReceive at h
      split at h
      next hset =>
        exact .head (.called data hstate hlast hfin hset) (appCalls_moves env _ h)
      · cases h
        exact .refl
  next hstate =>
    -- FIN_WAIT_2
    split at h
    next hfin =>
      obtain ⟨table, hcall, rfl⟩ := markForDestruction_ok h
      exact .single (.destroyed hstate hlast hfin hcall)
    · cases h
      exact .refl
  all_goals
    cases h
    exact .refl

theorem sequencedRecv_rxQueue {segment : RecvSegment} {data : List UInt8}
    (h : w.sequencedRecv env segment data = .ok w') : w'.conn.rxQueue = w.conn.rxQueue := by
  unfold sequencedRecv at h
  split at h
  · -- SYN_RCVD
    split at h
    · obtain ⟨r, txQueue, _, rfl⟩ := transmit_ok h
      rfl
    · cases h
      rfl
  · -- ESTABLISHED
    split at h
    · obtain ⟨w1, htransmit, h⟩ := bind_ok.mp h
      obtain ⟨r, txQueue, _, rfl⟩ := transmit_ok htransmit
      cases h
      rfl
    unfold onFullReceive at h
    split at h
    · have hrx := appCalls_rxQueue _ h
      exact hrx
    · cases h
      rfl
  · -- FIN_WAIT_2
    split at h
    · obtain ⟨table, _, rfl⟩ := markForDestruction_ok h
      rfl
    · cases h
      rfl
  all_goals
    cases h
    rfl

theorem handleAck_moves (h : w.handleAck metadata = .ok w') : Moves env w w' := by
  unfold handleAck at h
  split at h
  · obtain ⟨txQueue, hack, h⟩ := bind_ok.mp h
    refine .head (.acked hack) ?_
    simp only at h
    split at h
    · unfold remoteConsumedAll at h
      split at h
      next hstate =>
        obtain ⟨table, hcall, rfl⟩ := markForDestruction_ok h
        exact .single (.finished (.inl hstate) hcall)
      next hstate =>
        obtain ⟨table, hcall, rfl⟩ := markForDestruction_ok h
        exact .single (.finished (.inr hstate) hcall)
      next hstate =>
        cases h
        exact .single (.finAcked hstate)
      all_goals
        cases h
        exact .refl
    · cases h
      exact .refl
  · cases h
    exact .refl

theorem handleAck_rxQueue (h : w.handleAck metadata = .ok w') :
    w'.conn.rxQueue = w.conn.rxQueue := by
  unfold handleAck at h
  split at h
  · obtain ⟨txQueue, _, h⟩ := bind_ok.mp h
    simp only at h
    split at h
    · unfold remoteConsumedAll at h
      split at h
      · obtain ⟨table, _, rfl⟩ := markForDestruction_ok h
        rfl
      · obtain ⟨table, _, rfl⟩ := markForDestruction_ok h
        rfl
      all_goals
        cases h
        rfl
    · cases h
      rfl
  · cases h
    rfl

/-! ## `step` and `on_receive` -/

theorem receiveLoop_cases (h : receiveLoop env fuel w = .ok w') :
    (w' = w ∧ w.conn.rxQueue.hasReadable = .ok false) ∨
    ∃ rest segment data rxQueue w1, fuel = rest + 1 ∧
      w.conn.rxQueue.hasReadable = .ok true ∧
      w.conn.rxQueue.readOneSegment stepBufferSize = .ok (segment, data, rxQueue) ∧
      ((w.withRx rxQueue).log (.consumed segment w.conn.rxQueue.readCursor)).sequencedRecv env
        segment data = .ok w1 ∧ receiveLoop env rest w1 = .ok w' := by
  cases fuel with
  | zero => exact absurd h (by simp [receiveLoop])
  | succ fuel =>
    rw [receiveLoop, bind_ok] at h
    obtain ⟨readable, hreadable, h⟩ := h
    cases readable with
    | false =>
      cases h
      exact .inl ⟨rfl, hreadable⟩
    | true =>
      rw [if_pos rfl, bind_ok] at h
      obtain ⟨⟨segment, data, rxQueue⟩, hread, h⟩ := h
      obtain ⟨w1, hseq, h⟩ := bind_ok.mp h
      exact .inr ⟨fuel, segment, data, rxQueue, w1, rfl, hreadable, hread, hseq, h⟩

theorem receiveLoop_moves (fuel : Nat) : ∀ {w w' : World},
    receiveLoop env fuel w = .ok w' → Moves env w w' := by
  induction fuel with
  | zero =>
    intro w w' h
    exact absurd h (by simp [receiveLoop])
  | succ fuel ih =>
    intro w w' h
    rcases receiveLoop_cases env h with
      ⟨rfl, _⟩ | ⟨rest, segment, data, rxQueue, w1, hfuel, hreadable, hread, hseq, hrest⟩
    · exact .refl
    · cases hfuel
      refine .head (.consumed hreadable hread) ?_
      exact (sequencedRecv_moves env getLast?_concat hseq).trans (ih hrest)

theorem receiveLoop_drained (fuel : Nat) : ∀ {w w' : World},
    receiveLoop env fuel w = .ok w' → w'.conn.rxQueue.hasReadable = .ok false := by
  induction fuel with
  | zero =>
    intro w w' h
    exact absurd h (by simp [receiveLoop])
  | succ fuel ih =>
    intro w w' h
    rcases receiveLoop_cases env h with
      ⟨rfl, hnone⟩ | ⟨rest, segment, data, rxQueue, w1, hfuel, _, _, _, hrest⟩
    · exact hnone
    · cases hfuel
      exact ih hrest

theorem send_emits {seqnbr : SequenceNumber} {data : List UInt8}
    (h : w.send env flags seqnbr data = .ok w') : Emits env w w' := by
  rw [send_eq] at h
  split at h
  · cases h
    exact .single (.sent w flags seqnbr data)
  · simp at h

theorem transmitLoop_emits (fuel : Nat) : ∀ {w w' : World},
    transmitLoop env fuel w = .ok w' → Emits env w w' := by
  induction fuel with
  | zero =>
    intro w w' h
    exact absurd h (by simp [transmitLoop])
  | succ fuel ih =>
    intro w w' h
    rw [transmitLoop] at h
    split at h
    next hreadable =>
      obtain ⟨⟨r, txQueue⟩, hread, h⟩ := bind_ok.mp h
      refine .head (.fetched hreadable hread) ?_
      cases r with
      | some p =>
        simp only [bind_ok] at h
        obtain ⟨w1, hsend, h⟩ := h
        exact (send_emits env hsend).trans (ih h)
      | none =>
        simp only [bind_ok] at h
        obtain ⟨w1, hsend, h⟩ := h
        exact (send_emits env hsend).trans (ih h)
    · cases h
      exact .refl

theorem step_ok (h : w.step env fuel = .ok w') :
    ∃ w1, receiveLoop env (w.conn.rxQueue.segments.size + 1) w = .ok w1 ∧ Emits env w1 w' := by
  rw [step, bind_ok] at h
  obtain ⟨receivedSequenced, _, h⟩ := h
  obtain ⟨w1, hreceive, h⟩ := bind_ok.mp h
  refine ⟨w1, hreceive, ?_⟩
  split at h
  · obtain ⟨w2, hidle, h⟩ := bind_ok.mp h
    exact (send_emits env hidle).trans (transmitLoop_emits env fuel h)
  · exact transmitLoop_emits env fuel h

theorem step_moves (h : w.step env fuel = .ok w') : Moves env w w' := by
  obtain ⟨w1, hreceive, hemits⟩ := step_ok env h
  exact (receiveLoop_moves env _ hreceive).trans (hemits.moves env)

theorem step_drained (h : w.step env fuel = .ok w') : w'.conn.rxQueue.hasReadable = .ok false := by
  obtain ⟨w1, hreceive, hemits⟩ := step_ok env h
  rw [hemits.rxQueue_eq]
  exact receiveLoop_drained env _ hreceive

/-- Every `on_receive` that returns is an arrival followed by moves. -/
theorem onReceive_moves (h : w.onReceive env fuel metadata data length = .ok w') :
    ∃ w1, Arrival w metadata data length w1 ∧ Moves env w1 w' := by
  rw [onReceive, bind_ok] at h
  obtain ⟨w1, hearly, h⟩ := h
  obtain ⟨w2, hack, h⟩ := bind_ok.mp h
  exact ⟨w1, earlyRecv_arrival hearly, (handleAck_moves env hack).trans (step_moves env h)⟩

theorem onReceive_drained (h : w.onReceive env fuel metadata data length = .ok w') :
    w'.conn.rxQueue.hasReadable = .ok false := by
  rw [onReceive, bind_ok] at h
  obtain ⟨w1, _, h⟩ := h
  obtain ⟨w2, _, hstep⟩ := bind_ok.mp h
  exact step_drained env hstep

end World

end Peos2.Tcp
