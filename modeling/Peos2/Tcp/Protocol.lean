/-
  Tcp.Protocol — `net::tcp::protocol` (`libraries/net/tcp/protocol.{h,cc}`), with the
  lookup in `connection_table.cc` and `connection::compare`.

  A datagram is given to the connection that matches its two endpoints best. A field that
  is 0 matches anything, and every other field that agrees counts one. After the call, the
  connections it created are stepped and finished ones are removed.
-/
import Peos2.Net.Wire
import Peos2.Tcp.Connection

namespace Peos2.Tcp

open Peos2.Lib Peos2.Support

/-! ## Matching -/

/-- `int count_specific_matches(const endpoint &filter, const endpoint &endpoint)` -/
def countSpecificMatches (filter endpoint : Endpoint) : Int :=
  if filter.ipaddr ≠ 0 ∧ endpoint.ipaddr ≠ filter.ipaddr then -1
  else if filter.port ≠ 0 ∧ endpoint.port ≠ filter.port then -1
  else (if filter.ipaddr ≠ 0 then 1 else 0) + (if filter.port ≠ 0 then 1 else 0)

/-- `int compare(const endpoint &remote, const endpoint &local)` -/
def Connection.compare (c : Connection) (remote localEnd : Endpoint) : Int :=
  let remoteMatch := countSpecificMatches c.remote remote
  let localMatch := countSpecificMatches c.localEnd localEnd
  if remoteMatch ≥ 0 ∧ localMatch ≥ 0 then remoteMatch + localMatch else -1

namespace ConnectionTable

/-- The loop of `find_best_match` over the slots still to visit. -/
def bestFrom (t : ConnectionTable) (remote localEnd : Endpoint) :
    List Nat → Int → Option Nat → Checked (Option Nat)
  | [], _, mostSpecificIt => .ok mostSpecificIt
  | it :: rest, mostSpecificMatch, mostSpecificIt => do
      let c ← t.connections.get it
      let score := c.compare remote localEnd
      if score > mostSpecificMatch then t.bestFrom remote localEnd rest score (some it)
      else t.bestFrom remote localEnd rest mostSpecificMatch mostSpecificIt

/-- `handle find_best_match(const endpoint &remote, const endpoint &local)`;
`none` is the end sentinel. -/
def findBestMatch (t : ConnectionTable) (remote localEnd : Endpoint) : Checked (Option Nat) :=
  t.bestFrom remote localEnd t.connections.indices (-1) none

end ConnectionTable

/-! ## The header -/

def Header.ofBytes (data : Bytes) : Header where
  srcPort := Net.field16 data 0
  destPort := Net.field16 data 2
  seqNbr := Net.field32 data 4
  ackNbr := Net.field32 data 8
  flagsHdrsz := Net.field16 data 12
  wndsz := Net.field16 data 14
  checksum := Net.field16 data 16
  urgptr := Net.field16 data 18

/-- `uint8_t hdrsz = (hdr.flags_hdrsz >> 12) * 4` -/
def Header.hdrsz (h : Header) : UInt8 := ((h.flagsHdrsz >>> 12) * 4).toUInt8

/-- `ALIGN_UP(val, align)` -/
def alignUp (val align : UInt32) : UInt32 := (val + align - 1) &&& ~~~ (align - 1)

/-- `remote` in `on_receive`. -/
def remoteOf (datagram : DatagramMetadata) (hdr : Header) : Endpoint :=
  ⟨datagram.srcAddr, hdr.srcPort⟩

/-- `local` in `on_receive`. -/
def localOf (datagram : DatagramMetadata) (hdr : Header) : Endpoint :=
  ⟨datagram.destAddr, hdr.destPort⟩

/-! ## The protocol -/

/-- `net::tcp::protocol`. Beside the table there is, for each of its slots,
what the connection in it has done so far. -/
structure Protocol where
  table : ConnectionTable
  history : Nat → List Action

structure Delivery where
  handle : Nat
  metadata : SegmentMetadata
  data : Bytes
  length : UInt32

namespace Protocol

variable (env : Environment)

/-- The first half of `on_receive`: what is handed to which connection, or
`none` for a datagram that is dropped. -/
def dispatch (p : Protocol) (datagram : DatagramMetadata) (data : Bytes) (length : UInt32) :
    Checked (Option Delivery) :=
  if length < 20 then .ok none
  else do
    let hdr := Header.ofBytes data
    let flags := hdr.flagsHdrsz &&& (0x1FF : UInt16)
    match ← p.table.findBestMatch (remoteOf datagram hdr) (localOf datagram hdr) with
    | some conn =>
      let totalHeaderSize := alignUp hdr.hdrsz.toUInt32 4
      .ok (some ⟨conn, ⟨hdr, datagram, flags⟩, Net.advance data totalHeaderSize.toNat,
        length - totalHeaderSize⟩)
    | none => .ok none

/-- `_connections[handle].call()`: the connection works in its place in the
table. -/
def runAt (p : Protocol) (handle : Nat) (call : World → Checked World) : Checked Protocol := do
  let conn ← p.table.connections.get handle
  let w ← call ⟨conn, p.table, p.history handle⟩
  let connections ← w.table.connections.set handle w.conn
  .ok ⟨{ w.table with connections }, storeAt p.history handle w.trace⟩

/-- The loop of `step_new_connections` over the slots still to visit. -/
def stepFrom (fuel : Nat) : List Nat → Protocol → Checked Protocol
  | [], p => .ok p
  | it :: rest, p => do
      let handle ← p.table.newConnections.get it
      let p ←
        if p.table.connections.valid handle then p.runAt handle (World.step env fuel) else .ok p
      stepFrom fuel rest p

/-- `void step_new_connections()` -/
def stepNewConnections (fuel : Nat) (p : Protocol) : Checked Protocol := do
  let p ← stepFrom env fuel p.table.newConnections.indices p
  .ok { p with table := { p.table with newConnections := p.table.newConnections.clear } }

/-- The loop of `destroy_finished_connections` over the slots still to visit.
A handle that is no longer valid ends it. -/
def destroyFrom : List Nat → Protocol → Checked Protocol
  | [], p => .ok p
  | it :: rest, p => do
      let handle ← p.table.finishedConnections.get it
      if p.table.connections.valid handle then do
        let connections ← p.table.connections.erase handle
        destroyFrom rest ⟨{ p.table with connections }, storeAt p.history handle []⟩
      else .ok p

/-- `void destroy_finished_connections()` -/
def destroyFinishedConnections (p : Protocol) : Checked Protocol := do
  let p ← destroyFrom p.table.finishedConnections.indices p
  .ok { p with
    table := { p.table with finishedConnections := p.table.finishedConnections.clear } }

/-- `void on_receive(const ipv4::datagram_metadata &, const char *data, size_t length)`;
`fuel` bounds the transmit loops. -/
def onReceive (fuel : Nat) (p : Protocol) (datagram : DatagramMetadata) (data : Bytes)
    (length : UInt32) : Checked Protocol := do
  match ← p.dispatch datagram data length with
  | none => .ok p
  | some d =>
    let p ← p.runAt d.handle fun w => w.onReceive env fuel d.metadata d.data d.length
    let p ← p.stepNewConnections env fuel
    p.destroyFinishedConnections

/-- `void listen(const endpoint &local)` -/
def listen (p : Protocol) (localEnd : Endpoint) : Checked Protocol := do
  let (_, table) ← p.table.createConnection .wildcard localEnd .LISTEN
  .ok { p with table }

/-- The protocol as constructed; the application may have set a callback. -/
def blank (callback : Bool) : Protocol := ⟨{ ConnectionTable.blank with callback }, fun _ => []⟩

end Protocol

end Peos2.Tcp
