/-
  Ipv4.Send — `net::ipv4::protocol_impl::send` and ARP under it
  (`libraries/net/ipv4/protocol.cc`).

  A datagram whose next hop has no cached address waits: its payload goes into the
  flip buffer and a callback that will send it to `fetch_network`. ARP has room for
  32 callbacks for an address and for 32 addresses, and nothing on the way counts: a
  send without room fails an assertion of the pool.

  Main results: `send_returns_iff`, `send_stops`.
-/
import Peos2.Arp.Probes
import Peos2.Support.FlipBuffer

namespace Peos2.Ipv4

open Peos2.Lib Peos2.Support
open Peos2.Tcp (Address)
open Peos2.Net (EtherType FrameMetadata Retryable)
open Peos2.Arp (HwAddr Host Effect)

/-! ## Sending -/

/-- The callbacks that IPv4 passes to `fetch_network`. -/
inductive Continuation where
  | datagram (protocol : Proto) (destination : Address) (dataHandle : UInt64) (length : UInt32)
  /-- `[](auto) {}` -/
  | nothing
  /-- Report that the gateway was located. -/
  | gateway (defaultGateway : Address)
  deriving Repr, DecidableEq

/-- What is given to `ethernet().send`. -/
structure Frame where
  etherType : EtherType
  nextHop : HwAddr
  data : List UInt8
  deriving Repr, DecidableEq

/-- IPv4 with the packets that wait for ARP, and ARP. -/
structure Sender where
  ipv4 : Protocol
  arpWaitBuffer : FlipBuffer 10240
  arp : Arp.Protocol Continuation

namespace Sender

def host (s : Sender) (hwaddr : HwAddr) : Host := ⟨hwaddr, s.ipv4.localAddr⟩

/-- `next_hop_ipaddr` of `send`. -/
def nextHop (s : Sender) (destination : Address) : Address :=
  if s.ipv4.localAddr &&& s.ipv4.netmask = destination &&& s.ipv4.netmask then destination
  else s.ipv4.defaultGateway

/-- `void send(proto protocol, address destination, net::ethernet::address next_hop,
const char *data, size_t length)` -/
def sendTo (s : Sender) (protocol : Proto) (destination : Address) (nextHop : HwAddr)
    (data : Bytes) (length : UInt32) : Checked (Sender × List Frame) := do
  let (ipv4, packet) ← s.ipv4.sendSingleDatagram protocol s.ipv4.localAddr destination data length
  .ok ({ s with ipv4 }, packet.toList.map fun bytes => ⟨.IPV4, nextHop, bytes⟩)

def resume (s : Sender) : Continuation → Option HwAddr → Checked (Sender × List Frame)
  | .datagram _ _ _ _, none => .ok (s, [])
  | .datagram protocol destination dataHandle length, some nextHop =>
    match s.arpWaitBuffer.data dataHandle with
    | none => .ok (s, [])
    | some (i, offset) =>
      s.sendTo protocol destination nextHop
        (Net.advance (s.arpWaitBuffer.buffers i).data offset.toNat) length
  | .nothing, _ => .ok (s, [])
  | .gateway _, none => .ok (s, [])
  | .gateway defaultGateway, some _ => do
      let gwyHwaddr ← s.arp.fetchCached defaultGateway
      check gwyHwaddr.isSome "gwy_hwaddr"
      .ok (s, [])

/-- What ARP does reaches ethernet, or one of the callbacks. -/
def perform (s : Sender) : Effect Continuation → Checked (Sender × List Frame)
  | .sent nextHop frame => .ok (s, [⟨.ARP, nextHop, frame⟩])
  | .invoked callback result => s.resume callback result

def performAll : List (Effect Continuation) → Sender → Checked (Sender × List Frame)
  | [], s => .ok (s, [])
  | effect :: effects, s => do
      let (s, frames) ← s.perform effect
      let (s, frames') ← performAll effects s
      .ok (s, frames ++ frames')

/-- `_protocols.arp().fetch_network(ipaddr, callback)` -/
def fetchNetwork (overflow : Int → Checked Int) (hwaddr : HwAddr) (s : Sender)
    (ipaddr : Address) (callback : Continuation) : Checked (Sender × List Frame) := do
  let (arp, effects) ← s.arp.fetchNetwork overflow (s.host hwaddr) ipaddr callback
  performAll effects { s with arp }

/-- `bool send(proto protocol, address destination, const char *data, size_t length)` -/
def send (overflow : Int → Checked Int) (hwaddr : HwAddr) (s : Sender) (protocol : Proto)
    (destination : Address) (data : Bytes) (length : UInt32) :
    Checked (Bool × Sender × List Frame) := do
  match ← s.arp.fetchCached (s.nextHop destination) with
  | some nextHopHwaddr =>
    let (s, frames) ← s.sendTo protocol destination nextHopHwaddr data length
    .ok (true, s, frames)
  | none =>
    if length > 10240 then
      let (s, frames) ← s.fetchNetwork overflow hwaddr (s.nextHop destination) .nothing
      .ok (false, s, frames)
    else
      let (dataHandle, buffer) := s.arpWaitBuffer.alloc length
      let arpWaitBuffer ← buffer.memcpy (buffer.data dataHandle) data length
      let (s, frames) ← { s with arpWaitBuffer }.fetchNetwork overflow hwaddr
        (s.nextHop destination) (.datagram protocol destination dataHandle length)
      .ok (true, s, frames)

/-- `void configure(address local, address netmask, address default_gateway)` -/
def configure (overflow : Int → Checked Int) (hwaddr : HwAddr) (s : Sender)
    (localAddr netmask defaultGateway : Address) : Checked (Sender × List Frame) :=
  { s with ipv4 := s.ipv4.configure localAddr netmask defaultGateway }.fetchNetwork overflow hwaddr
    defaultGateway (.gateway defaultGateway)

/-- `_protocols.arp().on_receive(metadata, data, length)` -/
def onReceive (hwaddr : HwAddr) (s : Sender) (metadata : FrameMetadata) (data : Bytes)
    (length : UInt32) : Checked (Sender × List Frame) := do
  let (arp, effects) ← s.arp.onReceive (s.host hwaddr) metadata data length
  performAll effects { s with arp }

/-- `tick` of the stack, which is that of ARP. -/
def tick (overflow : Int → Checked Int) (hwaddr : HwAddr) (s : Sender) (deltaMs : UInt32) :
    Checked (Sender × List Frame) := do
  let (arp, effects) ← s.arp.tick overflow (s.host hwaddr) deltaMs
  performAll effects { s with arp }

/-! ## Callbacks -/

/-- The invariant: ARP is sound, and the wait buffer holds no more than it can. -/
structure Sound (s : Sender) : Prop where
  arp : s.arp.Sound
  arpWaitBuffer : s.arpWaitBuffer.WF

variable {overflow : Int → Checked Int} {hwaddr : HwAddr} {s s' : Sender} {frames : List Frame}

/-- Only the number of the next datagram is different. -/
structure SameQueues (s s' : Sender) : Prop where
  arp : s'.arp = s.arp
  arpWaitBuffer : s'.arpWaitBuffer = s.arpWaitBuffer
  nextHop : s'.nextHop = s.nextHop

theorem SameQueues.sound (hsame : SameQueues s s') (h : s.Sound) : s'.Sound :=
  ⟨hsame.arp ▸ h.arp, hsame.arpWaitBuffer ▸ h.arpWaitBuffer⟩

theorem sendTo_spec (s : Sender) (protocol : Proto) (destination : Address) (nextHop : HwAddr)
    (data : Bytes) (length : UInt32) :
    ∃ s' frames, s.sendTo protocol destination nextHop data length = .ok (s', frames) ∧
      SameQueues s s' := by
  unfold sendTo Protocol.sendSingleDatagram
  split
  · exact ⟨_, _, rfl, rfl, rfl, rfl⟩
  · exact ⟨_, _, rfl, rfl, rfl, rfl⟩

variable {data : Bytes} {length : UInt32}

theorem sendTo_ok {protocol : Proto} {destination : Address} {nextHop : HwAddr}
    (h : s.sendTo protocol destination nextHop data length = .ok (s', frames)) :
    SameQueues s s' := by
  obtain ⟨s1, frames1, hcall, hsame⟩ := sendTo_spec s protocol destination nextHop data length
  rw [hcall] at h
  cases h
  exact hsame

theorem resume_ok {callback : Continuation} {result : Option HwAddr}
    (h : s.resume callback result = .ok (s', frames)) : SameQueues s s' := by
  cases callback with
  | datagram protocol destination dataHandle length =>
    cases result with
    | none =>
      cases h
      exact ⟨rfl, rfl, rfl⟩
    | some nextHop =>
      cases hdata : s.arpWaitBuffer.data dataHandle with
      | none =>
        simp only [resume, hdata] at h
        cases h
        exact ⟨rfl, rfl, rfl⟩
      | some place =>
        simp only [resume, hdata] at h
        exact sendTo_ok h
  | nothing =>
    cases h
    exact ⟨rfl, rfl, rfl⟩
  | gateway defaultGateway =>
    cases result with
    | none =>
      cases h
      exact ⟨rfl, rfl, rfl⟩
    | some nextHop =>
      rw [resume, bind_ok] at h
      obtain ⟨_, _, h⟩ := h
      obtain ⟨_, _, h⟩ := bind_ok.mp h
      cases h
      exact ⟨rfl, rfl, rfl⟩

theorem performAll_ok {effects : List (Effect Continuation)} :
    ∀ {s s' : Sender} {frames : List Frame}, performAll effects s = .ok (s', frames) →
      SameQueues s s' := by
  induction effects with
  | nil =>
    intro s s' frames h
    cases h
    exact ⟨rfl, rfl, rfl⟩
  | cons effect effects ih =>
    intro s s' frames h
    rw [performAll, bind_ok] at h
    obtain ⟨⟨s1, frames1⟩, hone, h⟩ := h
    obtain ⟨⟨s2, frames2⟩, hrest, h⟩ := bind_ok.mp h
    cases h
    have hfirst : SameQueues s s1 := by
      cases effect with
      | sent nextHop frame =>
        cases hone
        exact ⟨rfl, rfl, rfl⟩
      | invoked callback result => exact resume_ok hone
    have hlater := ih hrest
    exact ⟨hlater.arp.trans hfirst.arp, hlater.arpWaitBuffer.trans hfirst.arpWaitBuffer,
      hlater.nextHop.trans hfirst.nextHop⟩

/-- Callbacks that are told that there is no address drop what they hold. -/
theorem performAll_none {effects : List (Effect Continuation)} {s : Sender}
    (h : ∀ a ∈ Arp.Protocol.answers effects, a.2 = none) :
    ∃ frames, performAll effects s = .ok (s, frames) := by
  induction effects with
  | nil => exact ⟨[], rfl⟩
  | cons effect effects ih =>
    have hrest : ∀ a ∈ Arp.Protocol.answers effects, a.2 = none := by
      intro a ha
      apply h
      cases effect with
      | sent nextHop frame => exact ha
      | invoked callback result => exact List.mem_cons_of_mem _ ha
    obtain ⟨frames, hframes⟩ := ih hrest
    have hfirst : ∃ frames1, s.perform effect = .ok (s, frames1) := by
      cases effect with
      | sent nextHop frame => exact ⟨_, rfl⟩
      | invoked callback result =>
        have hnone : result = none := h (callback, result) List.mem_cons_self
        rw [hnone]
        cases callback <;> exact ⟨[], rfl⟩
    obtain ⟨frames1, hone⟩ := hfirst
    refine ⟨frames1 ++ frames, ?_⟩
    rw [performAll, hone, ok_bind]
    simp only
    rw [hframes, ok_bind]

/-! ## One call -/

theorem fetchNetwork_iff (h : s.Sound) (overflow : Int → Checked Int) (hwaddr : HwAddr)
    {ipaddr : Address} (hcached : s.arp.cached ipaddr = none) (callback : Continuation) :
    (∃ r, s.fetchNetwork overflow hwaddr ipaddr callback = .ok r) ↔
      s.arp.hasRoom ipaddr = true := by
  unfold fetchNetwork
  rcases Arp.Protocol.fetchNetwork_spec h.arp overflow (s.host hwaddr) ipaddr callback with
    ⟨address, hsome, _⟩ | ⟨_, hroom, arp, effects, hcall, hnone, _⟩ | ⟨_, hroom, hcall⟩
  · rw [hcached] at hsome
    cases hsome
  · obtain ⟨frames, hframes⟩ : ∃ frames, performAll effects { s with arp } = .ok (_, frames) :=
      performAll_none (by rw [hnone]; exact fun a ha => absurd ha List.not_mem_nil)
    rw [hcall, ok_bind]
    exact ⟨fun _ => hroom, fun _ => ⟨_, hframes⟩⟩
  rw [hcall, hroom]
  constructor
  · intro ⟨r, hr⟩
    cases hr
  · intro hf
    cases hf

/-- What asking for `ipaddr` changes: a callback takes a slot if the address is not cached. -/
structure Asks (s s' : Sender) (ipaddr : Address) : Prop where
  sound : s'.Sound
  nextHop : s'.nextHop = s.nextHop
  cached : s'.arp.cached = s.arp.cached
  slots : s.arp.cached ipaddr = none → s'.arp.slots ipaddr + 1 = s.arp.slots ipaddr

theorem SameQueues.asks (hsame : SameQueues s s') (h : s.Sound) {ipaddr : Address}
    {address : HwAddr} (hcached : s.arp.cached ipaddr = some address) : Asks s s' ipaddr := by
  refine ⟨hsame.sound h, hsame.nextHop, by rw [hsame.arp], fun hnone => ?_⟩
  rw [hcached] at hnone
  cases hnone

theorem fetchNetwork_ok (h : s.Sound) {ipaddr : Address} {callback : Continuation}
    (hcall : s.fetchNetwork overflow hwaddr ipaddr callback = .ok (s', frames)) :
    Asks s s' ipaddr := by
  rw [fetchNetwork, bind_ok] at hcall
  obtain ⟨⟨arp, effects⟩, hfetch, hcall⟩ := hcall
  have hsame := performAll_ok hcall
  rcases Arp.Protocol.fetchNetwork_spec h.arp overflow (s.host hwaddr) ipaddr callback with
    ⟨address, hcached, hspec⟩ | ⟨_, hroom, _, _, hspec, _, hjoined⟩ | ⟨_, _, hspec⟩
  · rw [hspec] at hfetch
    cases hfetch
    exact SameQueues.asks ⟨hsame.arp, hsame.arpWaitBuffer, hsame.nextHop⟩ h hcached
  · rw [hspec] at hfetch
    cases hfetch
    have hcached : arp.cached = s.arp.cached := by
      unfold Arp.Protocol.cached
      rw [hjoined.mappings]
    refine ⟨hsame.sound ⟨hjoined.sound, h.arpWaitBuffer⟩, hsame.nextHop, ?_, fun _ => ?_⟩
    · rw [hsame.arp]
      exact hcached
    · rw [hsame.arp]
      exact hjoined.slots h.arp hroom
  · rw [hspec] at hfetch
    cases hfetch

/-- A send returns exactly when its next hop is cached or there is room. -/
theorem send_iff (h : s.Sound) (overflow : Int → Checked Int) (hwaddr : HwAddr)
    (protocol : Proto) (destination : Address) (data : Bytes) (length : UInt32) :
    (∃ r, s.send overflow hwaddr protocol destination data length = .ok r) ↔
      s.arp.cached (s.nextHop destination) ≠ none ∨
      s.arp.hasRoom (s.nextHop destination) = true := by
  have hfetch : s.arp.fetchCached (s.nextHop destination)
      = .ok (s.arp.cached (s.nextHop destination)) := h.arp.fetch _
  unfold send
  rw [hfetch, ok_bind]
  cases hcached : s.arp.cached (s.nextHop destination) with
  | some address =>
    obtain ⟨s', frames, hsend, _⟩ := sendTo_spec s protocol destination address data length
    simp only
    rw [hsend, ok_bind]
    exact ⟨fun _ => .inl (Option.some_ne_none address), fun _ => ⟨_, rfl⟩⟩
  | none =>
    simp only [ne_eq, not_true_eq_false, false_or]
    split
    · -- too large to wait, but the address is asked for all the same
      rw [returns_bind]
      exact fetchNetwork_iff h overflow hwaddr hcached .nothing
    next hlength =>
      obtain ⟨buffer, hcopy, hwf⟩ := FlipBuffer.alloc_spec h.arpWaitBuffer
        (UInt32.not_lt.mp hlength) data
      have hs : Sound { s with arpWaitBuffer := buffer } := ⟨h.arp, hwf⟩
      rw [hcopy, ok_bind, returns_bind]
      exact fetchNetwork_iff hs overflow hwaddr hcached _

theorem send_ok (h : s.Sound) {protocol : Proto} {destination : Address} {sent : Bool}
    (hcall : s.send overflow hwaddr protocol destination data length = .ok (sent, s', frames)) :
    Asks s s' (s.nextHop destination) := by
  have hfetch : s.arp.fetchCached (s.nextHop destination)
      = .ok (s.arp.cached (s.nextHop destination)) := h.arp.fetch _
  rw [send, hfetch, ok_bind] at hcall
  cases hcached : s.arp.cached (s.nextHop destination) with
  | some address =>
    rw [hcached] at hcall
    obtain ⟨⟨s1, frames1⟩, hsend, hcall⟩ := bind_ok.mp hcall
    cases hcall
    exact (sendTo_ok hsend).asks h hcached
  | none =>
    rw [hcached] at hcall
    simp only at hcall
    split at hcall
    · obtain ⟨⟨s1, frames1⟩, hfetch, hcall⟩ := bind_ok.mp hcall
      cases hcall
      exact fetchNetwork_ok h hfetch
    next hlength =>
      obtain ⟨buffer, hcopy, hcall⟩ := bind_ok.mp hcall
      obtain ⟨⟨s1, frames1⟩, hfetch, hcall⟩ := bind_ok.mp hcall
      cases hcall
      obtain ⟨buffer', hspec, hwf⟩ := FlipBuffer.alloc_spec h.arpWaitBuffer
        (UInt32.not_lt.mp hlength) data
      rw [hspec] at hcopy
      cases hcopy
      have hs : Sound { s with arpWaitBuffer := buffer } := ⟨h.arp, hwf⟩
      have hasks := fetchNetwork_ok hs hfetch
      exact ⟨hasks.sound, hasks.nextHop, hasks.cached, hasks.slots⟩

theorem onReceive_ok (h : s.Sound) {metadata : FrameMetadata}
    (hcall : s.onReceive hwaddr metadata data length = .ok (s', frames)) : s'.Sound := by
  rw [onReceive, bind_ok] at hcall
  obtain ⟨⟨arp, effects⟩, hreceive, hcall⟩ := hcall
  apply (performAll_ok hcall).sound
  exact ⟨Arp.Protocol.onReceive_sound h.arp hreceive, h.arpWaitBuffer⟩

theorem tick_spec (h : s.Sound) (overflow : Int → Checked Int) (hwaddr : HwAddr)
    (deltaMs : UInt32) :
    (∃ s' frames, s.tick overflow hwaddr deltaMs = .ok (s', frames) ∧ s'.Sound) ∨
    (∃ x e, overflow x = .error e ∧ s.tick overflow hwaddr deltaMs = .error e) := by
  unfold tick
  rcases Arp.Protocol.tick_spec h.arp overflow (s.host hwaddr) deltaMs with
    ⟨arp, effects, gone, hcall, hended, hanswers⟩ | ⟨x, e, hover, hcall⟩
  · left
    have hnone : ∀ a ∈ Arp.Protocol.answers effects, a.2 = none := by
      rw [hanswers]
      intro a ha
      obtain ⟨ipaddr, _, ha⟩ := List.mem_flatMap.mp ha
      obtain ⟨w, _, rfl⟩ := List.mem_map.mp ha
      rfl
    obtain ⟨frames, hframes⟩ := performAll_none (s := { s with arp }) hnone
    refine ⟨{ s with arp }, frames, ?_, ⟨hended.sound, h.arpWaitBuffer⟩⟩
    rw [hcall, ok_bind]
    exact hframes
  · right
    exact ⟨x, e, hover, by rw [hcall, error_bind]⟩

/-! ## Runs -/

/-- The calls from above, the messages from below, and the clock. -/
inductive Operation where
  | configure (localAddr netmask defaultGateway : Address)
  | send (protocol : Proto) (destination : Address) (data : Bytes) (length : UInt32)
  | receive (metadata : FrameMetadata) (data : Bytes) (length : UInt32)
  | tick (deltaMs : UInt32)

def run (overflow : Int → Checked Int) (hwaddr : HwAddr) (s : Sender) :
    Operation → Checked Sender
  | .configure localAddr netmask defaultGateway => do
      let (s, _) ← s.configure overflow hwaddr localAddr netmask defaultGateway
      .ok s
  | .send protocol destination data length => do
      let (_, s, _) ← s.send overflow hwaddr protocol destination data length
      .ok s
  | .receive metadata data length => do
      let (s, _) ← s.onReceive hwaddr metadata data length
      .ok s
  | .tick deltaMs => do
      let (s, _) ← s.tick overflow hwaddr deltaMs
      .ok s

structure Initial (s : Sender) : Prop where
  arp : s.arp.Constructed
  arpWaitBuffer : ∃ stale, s.arpWaitBuffer = .new stale

def Step (overflow : Int → Checked Int) (hwaddr : HwAddr) (s s' : Sender) : Prop :=
  ∃ op, s.run overflow hwaddr op = .ok s'

theorem run_sound (h : s.Sound) {op : Operation} (hrun : s.run overflow hwaddr op = .ok s') :
    s'.Sound := by
  cases op with
  | configure localAddr netmask defaultGateway =>
    rw [run, bind_ok] at hrun
    obtain ⟨⟨s1, frames⟩, hcall, hrun⟩ := hrun
    cases hrun
    have hs : Sound { s with ipv4 := s.ipv4.configure localAddr netmask defaultGateway } :=
      ⟨h.arp, h.arpWaitBuffer⟩
    exact (fetchNetwork_ok hs hcall).sound
  | send protocol destination data length =>
    rw [run, bind_ok] at hrun
    obtain ⟨⟨sent, s1, frames⟩, hcall, hrun⟩ := hrun
    cases hrun
    exact (send_ok h hcall).sound
  | receive metadata data length =>
    rw [run, bind_ok] at hrun
    obtain ⟨⟨s1, frames⟩, hcall, hrun⟩ := hrun
    cases hrun
    exact onReceive_ok h hcall
  | tick deltaMs =>
    rw [run, bind_ok] at hrun
    obtain ⟨⟨s1, frames⟩, hcall, hrun⟩ := hrun
    cases hrun
    rcases tick_spec h overflow hwaddr deltaMs with ⟨s2, frames2, hspec, hs⟩ | ⟨x, e, _, hspec⟩
    · rw [hspec] at hcall
      cases hcall
      exact hs
    · rw [hspec] at hcall
      cases hcall

theorem reach_sound (h : Reach Initial (Step overflow hwaddr) s) : s.Sound := by
  refine Reach.invariant ?_ ?_ h
  · intro s h0
    obtain ⟨stale, hbuffer⟩ := h0.arpWaitBuffer
    exact ⟨h0.arp.sound, hbuffer ▸ FlipBuffer.new_wf stale⟩
  · intro s s' _ hs ⟨op, hrun⟩
    exact run_sound hs hrun

/-- **When a send returns.** In every state of a run no probe has more than 32 callbacks, there
are at most 32 probes, and a tick fails no assertion; but a send returns exactly when its next
hop is cached, its probe has room for a callback, or there is none and room for one. -/
theorem send_returns_iff (overflow : Int → Checked Int) (hwaddr : HwAddr) {s : Sender}
    (h : Reach Initial (Step overflow hwaddr) s) :
    (s.arp.activeProbes.size ≤ 32 ∧
      ∀ ipaddr r, s.arp.probe ipaddr = some r → r.waiters.size ≤ 32) ∧
    (∀ deltaMs, (∃ r, s.tick overflow hwaddr deltaMs = .ok r) ∨
      ∃ x e, overflow x = .error e ∧ s.tick overflow hwaddr deltaMs = .error e) ∧
    ∀ protocol destination data length,
      (∃ r, s.send overflow hwaddr protocol destination data length = .ok r) ↔
        s.arp.cached (s.nextHop destination) ≠ none ∨
        s.arp.hasRoom (s.nextHop destination) = true := by
  have hs := reach_sound h
  refine ⟨⟨hs.arp.probes.wf.size_le, fun ipaddr r hr => (hs.arp.waiters ipaddr r hr).size_le⟩,
    ?_, fun protocol destination data length =>
      send_iff hs overflow hwaddr protocol destination data length⟩
  intro deltaMs
  rcases tick_spec hs overflow hwaddr deltaMs with ⟨s', frames, hcall, _⟩ | hover
  · exact .inl ⟨_, hcall⟩
  · exact .inr hover

/-- Everything as constructed, with zeros in the storage and the addresses
10.0.0.2, 255.255.255.0 and 10.0.0.1. -/
def start : Sender :=
  ⟨.blank 0x0A000002 0xFFFFFF00 0x0A000001, .new fun _ _ => 0,
    ⟨⟨⟨fun _ => ⟨0, []⟩, 0, 0⟩⟩, .blank⟩⟩

theorem start_reach (overflow : Int → Checked Int) (hwaddr : HwAddr) :
    Reach Initial (Step overflow hwaddr) start := .init ⟨⟨rfl, rfl, rfl⟩, _, rfl⟩

theorem reach_runAll {ops : List Operation} (h : Reach Initial (Step overflow hwaddr) s)
    (hrun : ops.foldlM (run overflow hwaddr) s = .ok s') :
    Reach Initial (Step overflow hwaddr) s' := h.foldlM (fun _ op _ _ hop => ⟨op, hop⟩) hrun

def datagramTo (destination : Address) : Operation := .send .UDP destination (fun _ => 0) 1

/-- While 31 datagrams wait for one address and three for another, a 32nd returns. -/
theorem send_returns_iff_waiting : ∃ s,
    Reach Initial (Step (fun _ => .error .overflow) []) s ∧ s.arp.cached 0x0A000009 = none ∧
      ∃ r, s.send (fun _ => .error .overflow) [] .UDP 0x0A000009 (fun _ => 0) 1 = .ok r := by
  have hrun : (((List.replicate 31 (datagramTo 0x0A000009)
        ++ List.replicate 3 (datagramTo 0x0A000008)).foldlM
      (run (fun _ => .error .overflow) []) start).map fun s =>
        (s.arp.cached 0x0A000009, s.arp.hasRoom (s.nextHop 0x0A000009)))
      = .ok (none, true) := by decide +kernel
  obtain ⟨s, hcalls, hvalues⟩ := map_ok.mp hrun
  obtain ⟨hcached, hroom⟩ := Prod.mk.inj hvalues
  have hreach := reach_runAll (start_reach _ _) hcalls
  exact ⟨s, hreach, hcached, ((send_returns_iff _ _ hreach).2.2 .UDP 0x0A000009 _ 1).mpr
    (.inr hroom)⟩

def outcome (s : Sender) (destination : Address) : Checked Unit :=
  (s.send (fun _ => .error .overflow) [] .UDP destination (fun _ => 0) 1).map fun _ => ()

/-- **Two bursts that stop the stack** while no reply comes in: a 33rd datagram for one address,
and datagrams for 32 addresses beside the gateway. -/
theorem send_stops :
    (∃ s, Reach Initial (Step (fun _ => .error .overflow) []) s ∧
      s.outcome 0x0A000009 = .error (.assertion "_data_begin + idx < _data_end")) ∧
    (∃ s, Reach Initial (Step (fun _ => .error .overflow) []) s ∧
      s.outcome 0x0A000030 = .error (.assertion "_data_begin + idx < _data_end")) := by
  have hone : (((List.replicate 32 (datagramTo 0x0A000009)).foldlM
      (run (fun _ => .error .overflow) []) start).map fun s => s.outcome 0x0A000009)
        = .ok (.error (.assertion "_data_begin + idx < _data_end")) := by decide +kernel
  have hmany : (((.configure 0x0A000002 0xFFFFFF00 0x0A000001
        :: (List.range 31).map fun i => datagramTo (0x0A000010 + UInt32.ofNat i)).foldlM
      (run (fun _ => .error .overflow) []) start).map fun s => s.outcome 0x0A000030)
        = .ok (.error (.assertion "_data_begin + idx < _data_end")) := by decide +kernel
  obtain ⟨s₁, hs₁, hout₁⟩ := map_ok.mp hone
  obtain ⟨s₂, hs₂, hout₂⟩ := map_ok.mp hmany
  exact ⟨⟨s₁, reach_runAll (start_reach _ _) hs₁, hout₁⟩,
    ⟨s₂, reach_runAll (start_reach _ _) hs₂, hout₂⟩⟩

end Sender

end Peos2.Ipv4
