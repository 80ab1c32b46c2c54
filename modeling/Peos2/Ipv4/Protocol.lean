/-
  Ipv4.Protocol — `net::ipv4::protocol_impl` (`libraries/net/ipv4/protocol.{h,cc}`,
  `definitions.h`, `reassembly_buffer.h`, and `checksum` of `utils.cc`).

  A packet that passes the header checks is forwarded at once if its flags and offset
  field is 0. Any other goes into the reassembly buffer of its identifier, and the
  datagram is forwarded when the last fragment was seen and no hole is left.

  Header fields are in host byte order. The storage of a new reassembly buffer holds
  whatever was there before, a parameter of `onReceive`.
-/
import Peos2.Net.Wire
import Peos2.Support.FragBuffer
import Peos2.Support.UnorderedMap
import Peos2.Tcp.Definitions

namespace Peos2.Ipv4

open Peos2.Lib Peos2.Support
open Peos2.Tcp (Address DatagramMetadata)

/-! ## Definitions -/

/-- `FLAGS_MF` -/
def FLAGS_MF : UInt8 := 0x02

/-- `net::ipv4::proto` -/
inductive Proto where
  | ICMP
  | TCP
  | UDP
  deriving Repr, DecidableEq

def Proto.value : Proto → UInt8
  | .ICMP => 1
  | .TCP => 6
  | .UDP => 17

/-- `net::ipv4::header` -/
@[ext]
structure Header where
  ihl : UInt8
  version : UInt8
  ecnDscp : UInt8
  totalLen : UInt16
  id : UInt16
  fragOfs : UInt16
  ttl : UInt8
  protocol : UInt8
  checksum : UInt16
  srcAddr : Address
  destAddr : Address
  deriving Repr, DecidableEq

/-- The header at `data`; `ihl` is the low half of the first byte. -/
def Header.ofBytes (data : Bytes) : Header where
  ihl := data 0 &&& 0x0F
  version := data 0 >>> 4
  ecnDscp := data 1
  totalLen := Net.field16 data 2
  id := Net.field16 data 4
  fragOfs := Net.field16 data 6
  ttl := data 8
  protocol := data 9
  checksum := Net.field16 data 10
  srcAddr := Net.field32 data 12
  destAddr := Net.field32 data 16

def Header.bytes (hdr : Header) : List UInt8 :=
  [hdr.ihl ||| (hdr.version <<< 4), hdr.ecnDscp] ++ Net.be16 hdr.totalLen ++ Net.be16 hdr.id
    ++ Net.be16 hdr.fragOfs ++ [hdr.ttl, hdr.protocol] ++ Net.be16 hdr.checksum
    ++ Net.be32 hdr.srcAddr ++ Net.be32 hdr.destAddr

/-- `hdr.checksum = sum` -/
def Header.withChecksum (hdr : Header) (sum : UInt16) : Header := { hdr with checksum := sum }

/-- `size_t header_length = hdr.ihl * 4` -/
def Header.headerLength (hdr : Header) : UInt32 := hdr.ihl.toUInt32 * 4

/-- `options`: what lies between the header proper and the payload. -/
def Header.options (hdr : Header) (data : Bytes) : List UInt8 :=
  if hdr.headerLength > 20 then (Net.advance data 20).first (hdr.headerLength - 20).toNat else []

/-- `net::ipv4::reassembly_buffer_identifier` -/
structure Identifier where
  dest : Address
  source : Address
  id : UInt16
  protocol : UInt8
  deriving Repr, DecidableEq

/-- `net::ipv4::reassembly_buffer` -/
structure ReassemblyBuffer where
  ttl : Int
  receivedLast : Bool
  data : FragBuffer 10000

/-- `reassembly_buffer{}`, in storage that held `stale`. -/
def ReassemblyBuffer.new (stale : Bytes) : Checked ReassemblyBuffer := do
  let data ← FragBuffer.new stale
  .ok ⟨20000, false, data⟩

/-- What is given to the `on_receive` of an upper protocol. -/
structure Datagram where
  metadata : DatagramMetadata
  protocol : Proto
  payload : List UInt8
  deriving Repr, DecidableEq

/-- `net::ipv4::protocol_impl`, without the packets that wait for ARP. -/
structure Protocol where
  localAddr : Address
  netmask : Address
  defaultGateway : Address
  nextDatagramId : UInt16
  reassemblyBuffers : UnorderedMap Identifier ReassemblyBuffer 10

/-! ## Header checks -/

def Header.sum (header : Header) (options : List UInt8) : UInt16 :=
  ~~~ (Net.foldCarries 5 (Net.sumWords header.bytes + Net.sumWords options)).toUInt16

/-- `uint16_t checksum(const header &header, const char *options, size_t options_length)` -/
def checksum (header : Header) (options : List UInt8) : Checked UInt16 := do
  check (header.checksum == 0) "header.checksum == 0"
  .ok (header.sum options)

theorem checksum_eq {header : Header} (options : List UInt8) (h : header.checksum = 0) :
    checksum header options = .ok (header.sum options) := by
  unfold checksum
  rw [h]
  rfl

/-- `bool is_broadcast_address(address addr, address netmask)` -/
def isBroadcastAddress (addr netmask : Address) : Bool :=
  addr &&& ~~~ netmask == 0xFFFFFFFF &&& ~~~ netmask

/-- `bool is_same_subnet(address addr1, address addr2, address netmask)` -/
def isSameSubnet (addr1 addr2 netmask : Address) : Bool := addr1 &&& netmask == addr2 &&& netmask

/-- What `on_receive` knows of a packet that passed its checks. -/
structure Packet where
  id : UInt16
  fragOfs : UInt16
  protocol : UInt8
  srcAddr : Address
  destAddr : Address
  payload : Bytes
  payloadSize : UInt32

namespace Packet

/-- `uint8_t flags = frag_ofs >> 12` -/
def flags (pkt : Packet) : UInt8 := (pkt.fragOfs >>> 12).toUInt8

/-- `uint16_t frag_offset = (frag_ofs & 0x1FFF) * 8` -/
def fragOffset (pkt : Packet) : UInt16 := (pkt.fragOfs &&& 0x1FFF) * 8

/-- `flags & FLAGS_MF` -/
def moreFragments (pkt : Packet) : Bool := pkt.flags &&& FLAGS_MF != 0

/-- `ipv4_metadata` -/
def metadata (pkt : Packet) : DatagramMetadata := ⟨pkt.srcAddr, pkt.destAddr⟩

/-- `ident` -/
def ident (pkt : Packet) : Identifier := ⟨pkt.destAddr, pkt.srcAddr, pkt.id, pkt.protocol⟩

end Packet

/-- `payload`, `payload_size` and the fields `on_receive` goes on with. -/
def Header.packet (hdr : Header) (data : Bytes) (length : UInt32) : Packet where
  id := hdr.id
  fragOfs := hdr.fragOfs
  protocol := hdr.protocol
  srcAddr := hdr.srcAddr
  destAddr := hdr.destAddr
  payload := Net.advance data hdr.headerLength.toNat
  payloadSize := min (hdr.totalLen.toUInt32 - hdr.headerLength) (length - 20)

/-- `bool forward_datagram(...)`: what the upper protocols get. What they do with it is
`Datagram.deliver`. -/
def forwardDatagram (metadata : DatagramMetadata) (protocol : UInt8) (payload : List UInt8) :
    List Datagram :=
  if protocol = Proto.TCP.value then [⟨metadata, .TCP, payload⟩]
  else if protocol = Proto.UDP.value then [⟨metadata, .UDP, payload⟩]
  else if protocol = Proto.ICMP.value then [⟨metadata, .ICMP, payload⟩]
  else []

namespace Protocol

/-- `bool is_recipient(address dest_addr) const` -/
def isRecipient (p : Protocol) (destAddr : Address) : Bool :=
  destAddr == p.localAddr ||
    (isSameSubnet destAddr p.localAddr p.netmask && isBroadcastAddress destAddr p.netmask)

/-- The first half of `on_receive`: the packet, or `none` for one that is
dropped. -/
def examine (p : Protocol) (data : Bytes) (length : UInt32) : Checked (Option Packet) := do
  check (length > 20) "length > sizeof(hdr)"
  let hdr := Header.ofBytes data
  if hdr.version ≠ 4 then .ok none
  else if hdr.headerLength > 60 then .ok none
  else if hdr.totalLen.toUInt32 < hdr.headerLength then .ok none
  else if hdr.totalLen.toUInt32 > length then .ok none
  else if hdr.ttl = 0 then .ok none
  else do
    let calculated ← checksum (hdr.withChecksum 0) (hdr.options data)
    if hdr.checksum ≠ Net.swap16 calculated then .ok none
    else if p.isRecipient hdr.destAddr = false then .ok none
    else .ok (some (hdr.packet data length))

/-! ## Reassembly -/

/-- The slot of the identifier's buffer; `fresh` is inserted if there is none. The entry takes
it by value, with holes of its own. What the copy refers to in the source is modelled in
`Ipv4.Shared`. -/
def locate (buffers : UnorderedMap Identifier ReassemblyBuffer 10)
    (fresh : Checked ReassemblyBuffer) (ident : Identifier) :
    Checked (UnorderedMap Identifier ReassemblyBuffer 10 × Nat) := do
  match ← buffers.find ident with
  | some it => .ok (buffers, it)
  | none =>
    let buffer ← fresh
    let (_, buffers) ← buffers.insert ident buffer
    match ← buffers.find ident with
    | some it => .ok (buffers, it)
    | none => .error (.assertion "buffer_it != _reassembly_buffers.end()")

/-- The fragment is added to the buffer in slot `it`, and the datagram is
forwarded if that completes it. -/
def addFragment (buffers : UnorderedMap Identifier ReassemblyBuffer 10) (it : Nat)
    (pkt : Packet) :
    Checked (UnorderedMap Identifier ReassemblyBuffer 10 × List Datagram) := do
  let buffer ← buffers.value it
  let receivedLast := buffer.receivedLast || !pkt.moreFragments
  let data ← buffer.data.insert pkt.fragOffset.toNat pkt.payload (signed pkt.payloadSize)
  let buffers ← buffers.setValue it { buffer with receivedLast, data }
  if receivedLast then do
    let size ← data.continuousSize
    if size > 0 then do
      let buffers ← buffers.erase it
      .ok (buffers, forwardDatagram pkt.metadata pkt.protocol (data.data.first size.toNat))
    else .ok (buffers, [])
  else .ok (buffers, [])

/-- The branch of `on_receive` for fragments. -/
def reassemble (p : Protocol) (stale : Bytes) (pkt : Packet) :
    Checked (Protocol × List Datagram) :=
  if p.reassemblyBuffers.full then .ok (p, [])
  else do
    let (buffers, it) ← locate p.reassemblyBuffers (ReassemblyBuffer.new stale) pkt.ident
    let (buffers, out) ← addFragment buffers it pkt
    .ok ({ p with reassemblyBuffers := buffers }, out)

/-- `void on_receive(const frame_metadata &, const char *data, size_t length)` -/
def onReceive (p : Protocol) (stale : Bytes) (data : Bytes) (length : UInt32) :
    Checked (Protocol × List Datagram) := do
  match ← p.examine data length with
  | none => .ok (p, [])
  | some pkt =>
    if pkt.moreFragments = false ∧ pkt.fragOfs = 0 then
      .ok (p, forwardDatagram pkt.metadata pkt.protocol
        (pkt.payload.first pkt.payloadSize.toNat))
    else p.reassemble stale pkt

/-! ## Timeouts, configuration and sending -/

/-- The loop of `tick` with the iterator at slot `it`. A buffer that has not
timed out leaves the iterator where it is. -/
def tickFrom (deltaMs : UInt32) (endIter : Nat) :
    Nat → Nat → UnorderedMap Identifier ReassemblyBuffer 10 →
      Checked (UnorderedMap Identifier ReassemblyBuffer 10)
  | 0, _, _ => .error .outOfFuel
  | fuel + 1, it, buffers =>
    if it = endIter then .ok buffers
    else do
      let next := buffers.storage.jumpToValid (buffers.storage.watermark - (it + 1)) (it + 1)
      let buffer ← buffers.value it
      if buffer.ttl ≤ 0 then tickFrom deltaMs endIter fuel next buffers
      else do
        let ttl := signed (unsigned buffer.ttl - deltaMs)
        let buffers ← buffers.setValue it { buffer with ttl }
        if ttl ≤ 0 then do
          let buffers ← buffers.erase it
          tickFrom deltaMs endIter fuel next buffers
        else tickFrom deltaMs endIter fuel it buffers

/-- `void tick(uint32_t delta_ms)`; `fuel` bounds the loop. -/
def tick (fuel : Nat) (p : Protocol) (deltaMs : UInt32) : Checked Protocol := do
  let storage := p.reassemblyBuffers.storage
  let buffers ← tickFrom deltaMs storage.watermark fuel
    (storage.jumpToValid storage.watermark 0) p.reassemblyBuffers
  .ok { p with reassemblyBuffers := buffers }

/-- `void configure(address local, address netmask, address default_gateway)` -/
def configure (p : Protocol) (localAddr netmask defaultGateway : Address) : Protocol :=
  { p with localAddr, netmask, defaultGateway }

/-- The header `send_single_datagram` builds, before its checksum is known. -/
def outgoingHeader (p : Protocol) (protocol : Proto) (srcAddr destAddr : Address)
    (length : UInt32) : Header where
  ihl := 5
  version := 4
  ecnDscp := 0
  totalLen := (20 + length).toUInt16
  id := p.nextDatagramId
  fragOfs := 0
  ttl := 65
  protocol := protocol.value
  checksum := 0
  srcAddr := srcAddr
  destAddr := destAddr

/-- `void send_single_datagram(...)`: the packet that is given to
`ethernet().send`, or `none` for a datagram that is too large. -/
def sendSingleDatagram (p : Protocol) (protocol : Proto) (srcAddr destAddr : Address)
    (data : Bytes) (length : UInt32) : Checked (Protocol × Option (List UInt8)) := do
  let hdr := p.outgoingHeader protocol srcAddr destAddr length
  let sum ← checksum hdr []
  let p := { p with nextDatagramId := p.nextDatagramId + 1 }
  if 20 + length > 1500 then .ok (p, none)
  else
    .ok (p, some ((hdr.withChecksum (Net.swap16 sum)).bytes ++ data.first length.toNat))

/-- The protocol as constructed; its addresses are not initialised. -/
def blank (localAddr netmask defaultGateway : Address) : Protocol :=
  ⟨localAddr, netmask, defaultGateway, 0, .blank⟩

/-! ## The ways of a packet -/

variable {p : Protocol} {stale data : Bytes} {length : UInt32} {pkt : Packet}

theorem examine_accepts {hdr : Header} {calculated : UInt16} (hhdr : Header.ofBytes data = hdr)
    (hlong : length > 20) (hversion : hdr.version = 4) (hwide : ¬ hdr.headerLength > 60)
    (hcovers : ¬ hdr.totalLen.toUInt32 < hdr.headerLength)
    (hwithin : ¬ hdr.totalLen.toUInt32 > length) (httl : hdr.ttl ≠ 0)
    (hsum : checksum (hdr.withChecksum 0) (hdr.options data) = .ok calculated)
    (hcheck : hdr.checksum = Net.swap16 calculated)
    (hrecipient : p.isRecipient hdr.destAddr = true) :
    p.examine data length = .ok (some (hdr.packet data length)) := by
  unfold examine
  rw [decide_eq_true hlong, check_true, ok_bind]
  simp only [hhdr]
  rw [if_neg (fun hne => hne hversion), if_neg hwide, if_neg hcovers, if_neg hwithin, if_neg httl,
    hsum, ok_bind, if_neg (fun hne => hne hcheck), if_neg (by simp [hrecipient])]

section

variable (h : p.examine data length = .ok (some pkt))

include h

theorem examine_some :
    ¬ (Header.ofBytes data).totalLen.toUInt32 < (Header.ofBytes data).headerLength ∧
      pkt = (Header.ofBytes data).packet data length := by
  rw [examine, bind_ok] at h
  obtain ⟨_, _, h⟩ := h
  simp only at h
  split at h
  · cases h
  split at h
  · cases h
  split at h
  · cases h
  next hcovers =>
    split at h
    · cases h
    split at h
    · cases h
    obtain ⟨_, _, h⟩ := bind_ok.mp h
    split at h
    · cases h
    split at h
    · cases h
    cases h
    exact ⟨hcovers, rfl⟩

theorem examine_payloadSize :
    pkt.payloadSize.toNat ≤ 65535 := by
  obtain ⟨hcovers, rfl⟩ := examine_some h
  generalize Header.ofBytes data = hdr at hcovers
  have hfield : hdr.totalLen.toUInt32.toNat < 65536 := hdr.totalLen.toNat_lt
  have hdiff : (hdr.totalLen.toUInt32 - hdr.headerLength).toNat
      = hdr.totalLen.toUInt32.toNat - hdr.headerLength.toNat :=
    UInt32.toNat_sub_of_le _ _ (UInt32.not_lt.mp hcovers)
  have hmin : (hdr.packet data length).payloadSize.toNat
      ≤ (hdr.totalLen.toUInt32 - hdr.headerLength).toNat :=
    UInt32.le_iff_toNat_le.mp Std.min_le_left
  omega

theorem onReceive_whole (hofs : pkt.fragOfs = 0) :
    p.onReceive stale data length
      = .ok (p, forwardDatagram pkt.metadata pkt.protocol
          (pkt.payload.first pkt.payloadSize.toNat)) := by
  have hmore : pkt.moreFragments = false := by
    unfold Packet.moreFragments Packet.flags
    rw [hofs]
    rfl
  unfold onReceive
  rw [h, ok_bind]
  exact if_pos ⟨hmore, hofs⟩

theorem onReceive_fragment (hofs : pkt.fragOfs ≠ 0) :
    p.onReceive stale data length = p.reassemble stale pkt := by
  unfold onReceive
  rw [h, ok_bind]
  exact if_neg fun hc => hofs hc.2

end

end Protocol

end Peos2.Ipv4
