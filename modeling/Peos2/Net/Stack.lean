/-
  Net.Stack — `net::protocol_stack_impl` (`libraries/net/protocol_stack.h`)
  with `net::ethernet::protocol::on_receive` (`libraries/net/ethernet/protocol.cc`).

  Frames go from ethernet to ARP or IPv4, and from there to TCP, UDP and ICMP. `tick`
  passes the time on to ARP, and to nobody else: the reassembly buffers of IPv4 have a
  time to live, but no clock.

  What the other layers do is a parameter; to IPv4 they can only send datagrams.

  Main result: `onReceive_sound`.
-/
import Peos2.Ipv4.Table

namespace Peos2.Net

open Peos2.Lib Peos2.Support
open Peos2.Tcp (Address)
open Peos2.Ipv4 (Proto Datagram Protocol Buffers)

/-! ## The stack -/

/-- `net::ethernet::ether_type`, as far as `on_receive` knows it. -/
inductive EtherType where
  | IPV4
  | ARP
  deriving Repr, DecidableEq

def EtherType.value : EtherType → UInt16
  | .IPV4 => 0x0800
  | .ARP => 0x0806

/-- `net::ethernet::frame_metadata` -/
structure FrameMetadata where
  macDest : List UInt8
  macSrc : List UInt8
  deriving Repr, DecidableEq

/-- A datagram on its way to `send_single_datagram`. -/
structure Outgoing where
  protocol : Proto
  destAddr : Address
  data : Bytes
  length : UInt32

/-- The layers around IPv4 with a state of type `σ`: what they do, and what they
have sent when they return. -/
structure Layers (σ : Type) where
  /-- `arp().on_receive(metadata, pdu, pdu_size)` -/
  arpReceive : Protocol → FrameMetadata → Bytes → UInt32 → σ → Checked (σ × List Outgoing)
  /-- `arp().tick(delta_ms)` -/
  arpTick : Protocol → UInt32 → σ → Checked (σ × List Outgoing)
  /-- `on_receive` of the protocol the datagram is for. -/
  deliver : Protocol → Datagram → σ → Checked (σ × List Outgoing)

/-- `net::protocol_stack_impl` -/
structure Stack (σ : Type) where
  ipv4 : Protocol
  others : σ

variable {σ : Type}

namespace Stack

def sendAll : Stack σ → List Outgoing → Checked (Stack σ)
  | s, [] => .ok s
  | s, d :: rest => do
      let (ipv4, _) ← s.ipv4.sendSingleDatagram d.protocol s.ipv4.localAddr d.destAddr d.data
        d.length
      sendAll { s with ipv4 } rest

/-- The datagrams go to the upper layers, one after the other. -/
def deliverAll (layers : Layers σ) : Stack σ → List Datagram → Checked (Stack σ)
  | s, [] => .ok s
  | s, d :: rest => do
      let (others, sent) ← layers.deliver s.ipv4 d s.others
      let s ← sendAll { s with others } sent
      deliverAll layers s rest

/-- `void ethernet::protocol::on_receive(const char *data, size_t length)`; `stale`
is what the storage for a new reassembly buffer held. -/
def onReceive (layers : Layers σ) (s : Stack σ) (stale data : Bytes) (length : UInt32) :
    Checked (Stack σ) :=
  if length < 14 then .ok s
  else
    let pduSize := (length - 14).toUInt16.toUInt32
    let pdu := advance data 14
    let metadata : FrameMetadata := ⟨data.first 6, (advance data 6).first 6⟩
    let type := field16 data 12
    if type = EtherType.ARP.value then do
      let (others, sent) ← layers.arpReceive s.ipv4 metadata pdu pduSize s.others
      sendAll { s with others } sent
    else if type = EtherType.IPV4.value then do
      let (ipv4, datagrams) ← s.ipv4.onReceive stale pdu pduSize
      deliverAll layers { s with ipv4 } datagrams
    else .ok s

/-- `void tick(uint32_t delta_ms)` -/
def tick (layers : Layers σ) (s : Stack σ) (deltaMs : UInt32) : Checked (Stack σ) := do
  let (others, sent) ← layers.arpTick s.ipv4 deltaMs s.others
  sendAll { s with others } sent

def table (s : Stack σ) : Buffers := s.ipv4.reassemblyBuffers

/-! ## Who changes the reassembly buffers -/

variable {layers : Layers σ} {s s' : Stack σ}

theorem sendAll_table (sent : List Outgoing) : ∀ {s s' : Stack σ}, s.sendAll sent = .ok s' →
    s'.table = s.table := by
  induction sent with
  | nil =>
    intro s s' h
    cases h
    rfl
  | cons d rest ih =>
    intro s s' h
    rw [sendAll, bind_ok] at h
    obtain ⟨⟨ipv4, packet⟩, hsend, h⟩ := h
    have hsame : ipv4.reassemblyBuffers = s.ipv4.reassemblyBuffers :=
      Protocol.sendSingleDatagram_table hsend
    exact (ih h).trans hsame

theorem deliverAll_table (datagrams : List Datagram) : ∀ {s s' : Stack σ},
    s.deliverAll layers datagrams = .ok s' → s'.table = s.table := by
  induction datagrams with
  | nil =>
    intro s s' h
    cases h
    rfl
  | cons d rest ih =>
    intro s s' h
    rw [deliverAll, bind_ok] at h
    obtain ⟨⟨others, sent⟩, _, h⟩ := h
    obtain ⟨s1, hsend, h⟩ := bind_ok.mp h
    have hsame := sendAll_table sent hsend
    exact (ih h).trans hsame

theorem tick_table {deltaMs : UInt32} (h : s.tick layers deltaMs = .ok s') :
    s'.table = s.table := by
  rw [tick, bind_ok] at h
  obtain ⟨⟨others, sent⟩, _, h⟩ := h
  have hsame := sendAll_table sent h
  exact hsame

variable {data stale : Bytes} {length : UInt32}

theorem onReceive_table (h : s.onReceive layers stale data length = .ok s') :
    s'.table = s.table ∨ ∃ pdu size ipv4 datagrams,
      s.ipv4.onReceive stale pdu size = .ok (ipv4, datagrams) ∧
        s'.table = ipv4.reassemblyBuffers := by
  unfold onReceive at h
  split at h
  · cases h
    exact .inl rfl
  simp only at h
  split at h
  · obtain ⟨⟨others, sent⟩, _, h⟩ := bind_ok.mp h
    have hsame := sendAll_table sent h
    exact .inl hsame
  split at h
  · obtain ⟨⟨ipv4, datagrams⟩, hcall, h⟩ := bind_ok.mp h
    have hsame := deliverAll_table datagrams h
    exact .inr ⟨_, _, ipv4, datagrams, hcall, hsame⟩
  · cases h
    exact .inl rfl

theorem onReceive_full (hfull : s.table.full = true)
    (h : s.onReceive layers stale data length = .ok s') : s'.table = s.table := by
  rcases onReceive_table h with hsame | ⟨pdu, size, ipv4, datagrams, hcall, htable⟩
  · exact hsame
  · rw [Protocol.onReceive_full hfull hcall] at htable
    exact htable

theorem onReceive_sound (hs : s.table.Sound) (h : s.onReceive layers stale data length = .ok s') :
    s'.table.Sound ∧ Protocol.Follows s.table s'.table := by
  rcases onReceive_table h with hsame | ⟨pdu, size, ipv4, datagrams, hcall, htable⟩
  · rw [hsame]
    exact ⟨hs, Protocol.Follows.refl _⟩
  · obtain ⟨m, rfl, hm, hfollows⟩ := Protocol.onReceive_ok hs hcall
    rw [htable]
    exact ⟨hm, hfollows⟩

/-! ## IPv4 frames -/

/-- The header of an IPv4 frame, with both addresses 0. -/
def ipv4Header : List UInt8 := List.replicate 12 0 ++ be16 EtherType.IPV4.value

def encapsulate (packet : Bytes) : Bytes :=
  fun i => if i < 14 then ipv4Header.getD i 0 else packet (i - 14)

theorem advance_encapsulate (packet : Bytes) : advance (encapsulate packet) 14 = packet := by
  funext i
  unfold advance encapsulate
  rw [if_neg (by omega), Nat.add_sub_cancel_left]

theorem onReceive_encapsulate (layers : Layers σ) (s : Stack σ) (stale packet : Bytes)
    (hlen : length.toNat ≤ 65535) :
    s.onReceive layers stale (encapsulate packet) (length + 14)
      = s.ipv4.onReceive stale packet length >>= fun r =>
          deliverAll layers { s with ipv4 := r.1 } r.2 := by
  have hsum : (length + 14).toNat = length.toNat + 14 := by
    show (length.toNat + 14) % 4294967296 = _
    omega
  have hlong : ¬ length + 14 < 14 := by
    rw [lt_iff_toNat, hsum]
    show ¬ length.toNat + 14 < 14
    omega
  have hsize : (length + 14 - 14).toUInt16.toUInt32 = length := by
    rw [UInt32.add_sub_cancel, eq_iff_toNat]
    show length.toNat % 65536 = length.toNat
    omega
  have htype : field16 (encapsulate packet) 12 = EtherType.IPV4.value := field16_be16 rfl rfl
  unfold onReceive
  rw [if_neg hlong]
  simp only [hsize, htype, advance_encapsulate]
  rw [if_neg (by decide), if_pos trivial]

end Stack

end Peos2.Net
