/-
  Tcp.Connection — `net::tcp::connection`, its states and the connection table
  (`libraries/net/tcp/connection.{h,cc}`, `connection_state.{h,cc}`,
  `connection_table.{h,cc}`).

  A call runs in a `World`: the connection, the table it lives in, and a trace of what can
  be seen from outside (segments received, consumed and sent, callbacks, transitions).
  Each virtual member function of `connection_state` is a definition by cases on the seven
  states, with the default of the base class where a state does not override it.

  What the application calls on the connection when it is handed data is an arbitrary
  function of the trace and the data.
-/
import Peos2.Net.Checksum
import Peos2.Tcp.ReceiveQueue
import Peos2.Tcp.SendQueue

namespace Peos2.Tcp

open Peos2.Lib Peos2.Support

/-! ## Data -/

/-- The objects behind `connection_state::LISTEN`, `SYN_RCVD` and so on. -/
inductive ConnectionState where
  | LISTEN
  | SYN_RCVD
  | ESTABLISHED
  | LAST_ACK
  | FIN_WAIT_1
  | CLOSING
  | FIN_WAIT_2
  deriving Repr, DecidableEq

/-- `net::tcp::connection` -/
structure Connection where
  remote : Endpoint
  localEnd : Endpoint
  state : ConnectionState
  rxQueue : ReceiveQueue
  txQueue : SendQueue
  nextOutgoingSeqnbr : SequenceNumber
  /-- `_callback` is not null -/
  callback : Bool
  handle : Nat

/-- `net::tcp::connection_table` -/
structure ConnectionTable where
  connections : Pool Connection 40 0xFFFF
  newConnections : Pool Nat 10 0xFFFF
  finishedConnections : Pool Nat 10 0xFFFF
  callback : Bool

/-- What a call on a connection does that can be seen from outside. -/
inductive Action where
  /-- `on_receive` was called. -/
  | received (metadata : SegmentMetadata) (length : UInt32)
  /-- `step` read a segment from the receive queue, at this read cursor. -/
  | consumed (segment : RecvSegment) (cursor : SequenceNumber)
  /-- The data callback was invoked, in this state. -/
  | callback (state : ConnectionState) (data : List UInt8)
  /-- `transmit` was called, in this state and with these flags. -/
  | transmit (state : ConnectionState) (flags : UInt16)
  | transition (old new : ConnectionState)
  /-- `finish_connection` was called, in this state. -/
  | finish (state : ConnectionState)
  | output (destination : Address) (header : Header) (payload : List UInt8)
  deriving DecidableEq

/-- What the application may do with a connection it is handed. -/
inductive AppCall where
  | send (data : List UInt8)
  | close

/-- What a connection meets but does not own. -/
structure Environment where
  /-- `_ipv4.local_address()` -/
  localAddress : Address
  /-- What a `sequence_number` on the stack holds before it is assigned. -/
  stale : SequenceNumber
  /-- `callback::on_receive`: what the application calls, given all that
  happened before and the data. -/
  onReceive : List Action → List UInt8 → List AppCall

/-- A connection with its table, and what happened so far. -/
structure World where
  conn : Connection
  table : ConnectionTable
  trace : List Action

/-- `static char phantom[1] = {'!'}` -/
def phantom : Bytes := fun _ => 0x21

/-- `sizeof(buffer)` of the static buffer of `step`. -/
def stepBufferSize : UInt32 := 20 * 1024

namespace World

def log (w : World) (a : Action) : World := { w with trace := w.trace ++ [a] }

def withRx (w : World) (rxQueue : ReceiveQueue) : World :=
  { w with conn := { w.conn with rxQueue } }

def withTx (w : World) (txQueue : SendQueue) : World :=
  { w with conn := { w.conn with txQueue } }

def withState (w : World) (state : ConnectionState) : World :=
  { w with conn := { w.conn with state } }

end World

/-! ## The connection table -/

/-- `connection(ipv4, table, remote, local, state)`, before `create_connection`
fills in the rest. -/
def Connection.new (remote localEnd : Endpoint) (state : ConnectionState) : Connection where
  remote := remote
  localEnd := localEnd
  state := state
  rxQueue := ReceiveQueue.blank
  txQueue := ⟨0, 0, 0, 0xFFFF, ⟨⟨fun _ => 0, 0, 0⟩⟩, ⟨fun _ => ⟨0, 0, 0, 0⟩, 0, 0⟩⟩
  nextOutgoingSeqnbr := 0
  callback := false
  handle := 0

namespace ConnectionTable

def blank : ConnectionTable where
  connections := ⟨fun _ => ⟨0xFFFF, 0xFFFF, none⟩, 0, 0xFFFF, 0xFFFF, 0⟩
  newConnections := ⟨fun _ => ⟨0xFFFF, 0xFFFF, none⟩, 0, 0xFFFF, 0xFFFF, 0⟩
  finishedConnections := ⟨fun _ => ⟨0xFFFF, 0xFFFF, none⟩, 0, 0xFFFF, 0xFFFF, 0⟩
  callback := false

/-- `handle create_connection(remote, local, state)` -/
def createConnection (t : ConnectionTable) (remote localEnd : Endpoint)
    (state : ConnectionState) : Checked (Nat × ConnectionTable) := do
  let (connectionId, connections) ←
    t.connections.emplaceAnywhere (Connection.new remote localEnd state)
  let connection ← connections.get connectionId
  let connections ← connections.set connectionId
    { connection with handle := connectionId, callback := t.callback }
  let (_, newConnections) ← t.newConnections.emplaceAnywhere connectionId
  .ok (connectionId, { t with connections, newConnections })

/-- `void finish_connection(handle)` -/
def finishConnection (t : ConnectionTable) (handle : Nat) : Checked ConnectionTable := do
  let (_, finishedConnections) ← t.finishedConnections.emplaceAnywhere handle
  .ok { t with finishedConnections }

end ConnectionTable

/-! ## Building blocks of the states -/

namespace Connection

/-- `void reset_rx(sequence_number incoming_seqnbr)` -/
def resetRx (c : Connection) (incomingSeqnbr : SequenceNumber) : Connection :=
  { c with rxQueue := c.rxQueue.reset incomingSeqnbr }

/-- `void reset_tx(sequence_number outgoing_seqnbr)` -/
def resetTx (c : Connection) (outgoingSeqnbr : SequenceNumber) : Connection :=
  { c with txQueue := c.txQueue.reset outgoingSeqnbr }

/-- `void sequence(const segment_metadata &metadata, const char *data, size_t length)`;
the result of `insert` is ignored, and the length of the record is filled in
by it. -/
def sequence (c : Connection) (metadata : SegmentMetadata) (data : Bytes) (length : UInt32) :
    Checked Connection := do
  let (_, rxQueue) ← c.rxQueue.insert
    { flags := metadata.flags, seqnbr := metadata.tcpHeader.seqNbr, length := 0 } data length
  .ok { c with rxQueue }

end Connection

namespace World

def sequence (w : World) (metadata : SegmentMetadata) (data : Bytes) (length : UInt32) :
    Checked World := do
  let conn ← w.conn.sequence metadata data length
  .ok { w with conn }

/-- `void transmit(const tcp_send_segment &segment, const char *data, size_t length, size_t
send_length)`; the callers set only the flags. The result of `write_back` is ignored. -/
def transmit (w : World) (flags : UInt16) (data : Bytes) (length sendLength : UInt32) :
    Checked World := do
  let (_, txQueue) ← w.conn.txQueue.writeBack
    { flags, seqnbr := w.conn.txQueue.writePos, dataLength := 0, sendLength := 0 }
    (some data) length sendLength
  .ok ((w.withTx txQueue).log (.transmit w.conn.state flags))

/-- `void transmit_phantom(const tcp_send_segment &segment)` -/
def transmitPhantom (w : World) (flags : UInt16) : Checked World :=
  w.transmit flags phantom 1 0

/-- `void transition(const connection_state *new_state)` -/
def transition (w : World) (newState : ConnectionState) : World :=
  (w.withState newState).log (.transition w.conn.state newState)

/-- `void mark_for_destruction()` -/
def markForDestruction (w : World) : Checked World := do
  let table ← w.table.finishConnection w.conn.handle
  .ok ({ w with table }.log (.finish w.conn.state))

/-- The header `send` fills in, without its checksum. -/
def outgoingHeader (w : World) (flags : UInt16) (seqnbr : SequenceNumber) : Header where
  srcPort := w.conn.localEnd.port
  destPort := w.conn.remote.port
  seqNbr := seqnbr
  ackNbr := w.conn.rxQueue.readCursor
  flagsHdrsz := (flags &&& (0x1FF : UInt16)) ||| ((5 : UInt16) <<< (12 : UInt16))
  wndsz := 10000
  checksum := 0
  urgptr := 0

end World

/-- The bytes of a header in memory, in network byte order. -/
def Header.bytes (h : Header) : List UInt8 :=
  Net.be16 h.srcPort ++ Net.be16 h.destPort ++ Net.be32 h.seqNbr ++ Net.be32 h.ackNbr
    ++ Net.be16 h.flagsHdrsz ++ Net.be16 h.wndsz ++ Net.be16 h.checksum ++ Net.be16 h.urgptr

namespace World

variable (env : Environment)

/-- `void send(uint16_t flags, sequence_number seqnbr, const char *data, size_t length)`. The
checksum is computed over memory as it lies and stored as it is, so in host order its bytes are
swapped. -/
def send (w : World) (flags : UInt16) (seqnbr : SequenceNumber) (data : List UInt8) :
    Checked World := do
  let flags := flags ||| ACK
  let hdr := w.outgoingHeader flags seqnbr
  let checksum (payload : List UInt8) : UInt16 := Net.swap16
    (Net.checksum env.localAddress w.conn.remote.ipaddr 6 hdr.bytes payload)
  let w ←
    if ((hasFlag flags SYN || hasFlag flags FIN) && data.length == 1) || data.length == 0 then
      -- a phantom byte, or an idle ack without payload
      .ok (w.log (.output w.conn.remote.ipaddr { hdr with checksum := checksum [] } []))
    else do
      check (data.length + 20 < 1500) "length + sizeof(hdr) < sizeof(buffer)"
      .ok (w.log (.output w.conn.remote.ipaddr { hdr with checksum := checksum data } data))
  .ok { w with
    conn := { w.conn with nextOutgoingSeqnbr := seqnbr + UInt32.ofNat data.length } }

/-! ## The states -/

/-- `active_close` -/
def activeClose (w : World) : Checked World :=
  match w.conn.state with
  | .ESTABLISHED => do
      let w ← w.transmitPhantom FIN
      .ok (w.transition .FIN_WAIT_1)
  | _ => .ok w

/-- `void close()` -/
def close (w : World) : Checked World := w.activeClose

/-- `void send(const char *data, size_t length)`, called by the application. -/
def sendData (w : World) (data : List UInt8) : Checked World :=
  w.transmit 0 (Bytes.ofList data) (UInt32.ofNat data.length) (UInt32.ofNat data.length)

def appCall (w : World) : AppCall → Checked World
  | .send data => w.sendData data
  | .close => w.close

def appCalls : List AppCall → World → Checked World
  | [], w => .ok w
  | c :: cs, w => do
      let w ← w.appCall c
      appCalls cs w

/-- `void on_full_receive(const char *data, size_t length)` -/
def onFullReceive (w : World) (data : List UInt8) : Checked World :=
  if w.conn.callback then
    appCalls (env.onReceive w.trace data) (w.log (.callback w.conn.state data))
  else .ok w

/-- `LISTEN`: create a connection for the pair of endpoints of a SYN, and
sequence the SYN there. -/
def acceptSyn (table : ConnectionTable) (metadata : SegmentMetadata) :
    Checked (Nat × ConnectionTable) := do
  let (connIdx, table) ← table.createConnection
    ⟨metadata.datagram.srcAddr, metadata.tcpHeader.srcPort⟩
    ⟨metadata.datagram.destAddr, metadata.tcpHeader.destPort⟩ .SYN_RCVD
  let clientConn ← table.connections.get connIdx
  let clientConn := (clientConn.resetRx metadata.tcpHeader.seqNbr).resetTx 0xDEADBEEF
  let clientConn ← clientConn.sequence metadata phantom 1
  let connections ← table.connections.set connIdx clientConn
  .ok (connIdx, { table with connections })

/-- `early_recv`: a segment has just arrived. -/
def earlyRecv (w : World) (metadata : SegmentMetadata) (data : Bytes) (length : UInt32) :
    Checked World :=
  match w.conn.state with
  | .LISTEN =>
    if hasFlag metadata.flags SYN then do
      let (_, table) ← acceptSyn w.table metadata
      .ok { w with table }
    else .ok w
  | .SYN_RCVD =>
    if hasFlag metadata.flags ACK then .ok (w.transition .ESTABLISHED) else .ok w
  | .ESTABLISHED =>
    if hasFlag metadata.flags FIN && length == 0 then w.sequence metadata phantom 1
    else w.sequence metadata data length
  | .FIN_WAIT_1 =>
    if hasFlag metadata.flags FIN && length == 0 then do
      let w ← w.sequence metadata phantom 1
      .ok (w.transition .CLOSING)
    else .ok w
  | .FIN_WAIT_2 =>
    if hasFlag metadata.flags FIN && length == 0 then w.sequence metadata phantom 1
    else .ok w
  | .LAST_ACK | .CLOSING => .ok w

/-- `sequenced_recv`: a segment is read in order. -/
def sequencedRecv (w : World) (segment : RecvSegment) (data : List UInt8) : Checked World :=
  match w.conn.state with
  | .SYN_RCVD =>
    if hasFlag segment.flags SYN then w.transmit SYN phantom 1 0 else .ok w
  | .ESTABLISHED =>
    if hasFlag segment.flags FIN then do
      let w ← w.transmit FIN phantom 1 0
      .ok (w.transition .LAST_ACK)
    else w.onFullReceive env data
  | .FIN_WAIT_2 =>
    if hasFlag segment.flags FIN then w.markForDestruction else .ok w
  | .LISTEN | .LAST_ACK | .FIN_WAIT_1 | .CLOSING => .ok w

/-- `remote_consumed_all` -/
def remoteConsumedAll (w : World) : Checked World :=
  match w.conn.state with
  | .LAST_ACK | .CLOSING => w.markForDestruction
  | .FIN_WAIT_1 => .ok (w.transition .FIN_WAIT_2)
  | .LISTEN | .SYN_RCVD | .ESTABLISHED | .FIN_WAIT_2 => .ok w

/-! ## `step` and `on_receive` -/

/-- The first loop of `step`. Every turn takes a record off the receive
queue, so the loop ends within one turn more than there are records. -/
def receiveLoop : Nat → World → Checked World
  | 0, _ => .error .outOfFuel
  | fuel + 1, w => do
      let readable ← w.conn.rxQueue.hasReadable
      if readable then
        let (segment, data, rxQueue) ← w.conn.rxQueue.readOneSegment stepBufferSize
        let w := (w.withRx rxQueue).log (.consumed segment w.conn.rxQueue.readCursor)
        let w ← w.sequencedRecv env segment data
        receiveLoop fuel w
      else .ok w

/-- The last loop of `step`. When `read_one_segment` returns 0 without a
segment, `seg` keeps its default flags and whatever its `seqnbr` held. -/
def transmitLoop : Nat → World → Checked World
  | 0, _ => .error .outOfFuel
  | fuel + 1, w =>
    if w.conn.txQueue.hasReadable then do
      let (read, txQueue) ← w.conn.txQueue.readOneSegment stepBufferSize
      let w := w.withTx txQueue
      let w ← match read with
        | some (seg, data) => w.send env seg.flags seg.seqnbr data
        | none => w.send env 0 env.stale []
      transmitLoop fuel w
    else .ok w

/-- `void step()`; `fuel` bounds the transmit loop. -/
def step (fuel : Nat) (w : World) : Checked World := do
  let receivedSequenced ← w.conn.rxQueue.hasReadable
  let w ← receiveLoop env (w.conn.rxQueue.segments.size + 1) w
  let w ←
    if receivedSequenced && !w.conn.txQueue.hasReadable then
      -- nothing else will carry the ack
      w.send env 0 w.conn.nextOutgoingSeqnbr []
    else .ok w
  transmitLoop env fuel w

/-- The part of `on_receive` that handles an acknowledgment number. -/
def handleAck (w : World) (metadata : SegmentMetadata) : Checked World :=
  if hasFlag metadata.flags ACK then do
    let txQueue ← w.conn.txQueue.ack metadata.tcpHeader.ackNbr
    let w := w.withTx txQueue
    if metadata.tcpHeader.ackNbr ≥ w.conn.txQueue.writePos then w.remoteConsumedAll else .ok w
  else .ok w

/-- `void on_receive(const segment_metadata &metadata, const char *data, size_t length)` -/
def onReceive (fuel : Nat) (w : World) (metadata : SegmentMetadata) (data : Bytes)
    (length : UInt32) : Checked World := do
  let w := w.log (.received metadata length)
  let w ← w.earlyRecv metadata data length
  let w ← w.handleAck metadata
  w.step env fuel

/-! ## What `send` does -/

/-- A segment without payload: a phantom byte or nothing. -/
def bare (flags : UInt16) (length : Nat) : Bool :=
  ((hasFlag (flags ||| ACK) SYN || hasFlag (flags ||| ACK) FIN) && length == 1) || length == 0

def payload (flags : UInt16) (data : List UInt8) : List UInt8 :=
  if bare flags data.length then [] else data

def sentHeader (w : World) (flags : UInt16) (seqnbr : SequenceNumber) (data : List UInt8) :
    Header :=
  { w.outgoingHeader (flags ||| ACK) seqnbr with
    checksum := Net.swap16 (Net.checksum env.localAddress w.conn.remote.ipaddr 6
      (w.outgoingHeader (flags ||| ACK) seqnbr).bytes (payload flags data)) }

def sent (w : World) (flags : UInt16) (seqnbr : SequenceNumber) (data : List UInt8) : World where
  conn := { w.conn with nextOutgoingSeqnbr := seqnbr + UInt32.ofNat data.length }
  table := w.table
  trace := w.trace
    ++ [.output w.conn.remote.ipaddr (w.sentHeader env flags seqnbr data) (payload flags data)]

theorem send_eq (w : World) (flags : UInt16) (seqnbr : SequenceNumber) (data : List UInt8) :
    w.send env flags seqnbr data =
      if bare flags data.length = true ∨ data.length + 20 < 1500 then
        .ok (w.sent env flags seqnbr data)
      else .error (.assertion "length + sizeof(hdr) < sizeof(buffer)") := by
  unfold send
  by_cases hbare : bare flags data.length = true
  · have hcond : (((hasFlag (flags ||| ACK) SYN || hasFlag (flags ||| ACK) FIN)
        && data.length == 1) || data.length == 0) = true := hbare
    rw [if_pos (Or.inl hbare)]
    simp only [hcond, if_true, ok_bind]
    simp only [sent, sentHeader, payload, hbare, if_true, log]
  have hcond : ¬ (((hasFlag (flags ||| ACK) SYN || hasFlag (flags ||| ACK) FIN)
      && data.length == 1) || data.length == 0) = true := hbare
  simp only [if_neg hcond]
  by_cases hfit : data.length + 20 < 1500
  · rw [if_pos (Or.inr hfit)]
    simp only [hfit, decide_true, check_true, ok_bind]
    simp only [sent, sentHeader, payload, if_neg hbare, log]
  · rw [if_neg (not_or.mpr ⟨hbare, hfit⟩)]
    simp only [hfit, decide_false, check_false, error_bind]

theorem send_nil (w : World) (flags : UInt16) (seqnbr : SequenceNumber) :
    w.send env flags seqnbr [] = .ok (w.sent env flags seqnbr []) := by
  rw [send_eq, if_pos (.inr (by decide))]

def quiet : Environment := ⟨0, 0, fun _ _ => []⟩

end World

end Peos2.Tcp
