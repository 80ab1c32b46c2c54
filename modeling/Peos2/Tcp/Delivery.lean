/-
  Tcp.Delivery — accepted data on its way to ethernet.

  `step` takes the string that `connection::send` put into the send queue out as one
  segment: nothing splits it. The queue has room for 64 KB and `step` for 20 KB; the
  buffer of the segment has 1500 bytes, of which one stays free, and that of the IPv4
  packet 1500 with its own header. So a string of 1461 to 1479 bytes is dropped without
  a word, and a longer one stops the kernel.

  Main results: `reachesWire_iff`, `accepted_lost`.
-/
import Peos2.Ipv4.Acceptance
import Peos2.Tcp.Transmit

namespace Peos2.Tcp

open Peos2.Lib Peos2.Support List SendQueue
open Peos2.Ipv4 (Frame Sender payloadOf headerOf)
open Peos2.Arp (HwAddr)

/-! ## Segments, packets and frames -/

/-- The payload of the TCP segment in an IPv4 packet. The fields of both headers
say where it begins. -/
def tcpPayload (packet : List UInt8) : List UInt8 :=
  (payloadOf packet).drop (4 * ((payloadOf packet).getD 12 0 >>> 4).toNat)

@[simp] theorem Header.length_bytes (hdr : Header) : hdr.bytes.length = 20 := rfl

theorem Header.getD_bytes (hdr : Header) (payload : List UInt8) :
    (hdr.bytes ++ payload).getD 12 0 = (hdr.flagsHdrsz >>> 8).toUInt8 := rfl

theorem tcpPayload_packet {ip : Ipv4.Header} {hdr : Header} {payload : List UInt8}
    (hihl : ip.ihl = 5) (hversion : ip.version = 4)
    (htotal : ip.totalLen.toNat = 40 + payload.length)
    (hsize : ((hdr.flagsHdrsz >>> 8).toUInt8 >>> 4).toNat = 5) :
    tcpPayload (ip.bytes ++ (hdr.bytes ++ payload)) = payload := by
  have hread : headerOf (ip.bytes ++ (hdr.bytes ++ payload)) = ip := by
    apply Ipv4.Header.ofBytes_bytes
    · rw [hihl]
      decide
    · rw [hversion]
      decide
  have hsegment : payloadOf (ip.bytes ++ (hdr.bytes ++ payload)) = hdr.bytes ++ payload := by
    have hlength : (ip.bytes ++ (hdr.bytes ++ payload)).length = 40 + payload.length := by
      simp
      omega
    unfold payloadOf
    rw [hread, htotal, ← hlength, take_length, hihl]
    rfl
  unfold tcpPayload
  rw [hsegment, hdr.getD_bytes, hsize]
  rfl

theorem passDown_single (overflow : Int → Checked Int) (hwaddr : HwAddr) {s : Sender}
    {destination : Address} {nextHop : HwAddr}
    (hcached : s.arp.fetchCached (s.nextHop destination) = .ok (some nextHop)) (header : Header)
    {payload : List UInt8} (hsmall : payload.length < 65536) :
    ∃ s', passDown overflow hwaddr [.output destination header payload] s
      = .ok (s', if payload.length ≤ 1460 then
          [⟨.IPV4, nextHop, (s.ipv4.outgoingHeader .TCP s.ipv4.localAddr destination
            (UInt32.ofNat (20 + payload.length))).seal.bytes ++ (header.bytes ++ payload)⟩]
        else []) := by
  have hlength : (header.bytes ++ payload).length = 20 + payload.length := by simp
  have hword : (UInt32.ofNat (20 + payload.length)).toNat = 20 + payload.length :=
    toNat_ofNat_lt (by omega)
  have hsum : Ipv4.checksum (s.ipv4.outgoingHeader .TCP s.ipv4.localAddr destination
      (UInt32.ofNat (20 + payload.length))) [] = .ok _ := Ipv4.checksum_eq [] rfl
  unfold passDown Sender.send
  rw [hcached, ok_bind, hlength]
  simp only
  unfold Sender.sendTo
  by_cases hfits : payload.length ≤ 1460
  · have hle : UInt32.ofNat (20 + payload.length) ≤ 1480 := by
      rw [UInt32.le_iff_toNat_le, hword]
      show _ ≤ 1480
      omega
    have hbytes : (Bytes.ofList (header.bytes ++ payload)).first
        (UInt32.ofNat (20 + payload.length)).toNat = header.bytes ++ payload := by
      rw [hword, ← hlength]
      exact Net.first_ofList _
    rw [Ipv4.Protocol.sendSingleDatagram_small _ _ _ _ _ hle, ok_bind, hbytes, if_pos hfits]
    exact ⟨_, rfl⟩
  have hlarge : 20 + UInt32.ofNat (20 + payload.length) > 1500 := by
    rw [gt_iff_lt, lt_iff_toNat, toNat_add_eq, hword]
    show 1500 < (20 + (20 + payload.length)) % 4294967296
    omega
  unfold Ipv4.Protocol.sendSingleDatagram
  simp only [hsum, ok_bind]
  rw [if_pos hlarge, if_neg hfits]
  exact ⟨_, rfl⟩

namespace World

variable (env : Environment) {w w' : World}

/-! ## The step of a connection -/

variable {data : List UInt8} {w₁ : World}

theorem step_quiet (hrx : w.conn.rxQueue.hasReadable = .ok false) (fuel : Nat) :
    w.step env fuel = transmitLoop env fuel w := by
  have hreceive : receiveLoop env (w.conn.rxQueue.segments.size + 1) w = .ok w := by
    rw [receiveLoop, hrx, ok_bind]
    rfl
  unfold step
  rw [hrx, ok_bind, hreceive, ok_bind, Bool.false_and]
  rfl

theorem transmitLoop_single (h : w.conn.txQueue.Laid) {s : SendSegment}
    (hu : w.conn.txQueue.unread = [s]) (fuel : Nat) :
    (transmitLoop env fuel w = .ok w' → Sendable s ∧ ¬ w.conn.txQueue.Caught s ∧
      w'.trace = w.trace ++ [.output w.conn.remote.ipaddr
        ((w.withTx { w.conn.txQueue with readPos := w.conn.txQueue.readPos + 1 }).sentHeader env
          s.flags s.seqnbr (w.conn.txQueue.slice s))
        (payload s.flags (w.conn.txQueue.slice s))]) := by
  intro hloop
  have hclear := clear_of_transmitLoop env fuel h hloop
  have hsend : Sendable s := hclear.sendable s (by rw [hu]; simp)
  have hfree : ¬ w.conn.txQueue.Caught s := hclear.first s [] hu
  refine ⟨hsend, hfree, ?_⟩
  cases fuel with
  | zero => cases hloop
  | succ fuel =>
    obtain ⟨_, hturn⟩ := transmitLoop_turn env h hu hsend hfree fuel
    rw [hturn] at hloop
    -- no record is left for the next turn
    obtain ⟨_, hlt, hrest⟩ := unread_read h hu
    have hno : hasReadable { w.conn.txQueue with readPos := w.conn.txQueue.readPos + 1 }
        = false := by
      rw [(h.read hlt).hasReadable_eq, hrest]
      rfl
    cases fuel with
    | zero => cases hloop
    | succ fuel =>
      change (if hasReadable
        { w.conn.txQueue with readPos := w.conn.txQueue.readPos + 1 } then _ else _) = _ at hloop
      rw [if_neg (by simp [hno])] at hloop
      cases hloop
      rfl

/-! ## From the application to ethernet -/

/-- The string that `send` accepts is passed to ethernet by the next `step`, in the
payloads of IPv4 packets, without a fault. -/
def ReachesWire (overflow : Int → Checked Int) (hwaddr : HwAddr) (w : World) (s : Sender)
    (data : List UInt8) : Prop :=
  ∃ w₁ fuel w' outs s' frames, w.sendData data = .ok w₁ ∧ w₁.step env fuel = .ok w' ∧
    w'.trace = w₁.trace ++ outs ∧ passDown overflow hwaddr outs s = .ok (s', frames) ∧
    (∀ frame ∈ frames, frame.etherType = .IPV4) ∧
    (frames.map fun frame => tcpPayload frame.data).flatten = data

/-- `write_back` accepts the string. -/
def Accepts (w : World) (data : List UInt8) (txQueue : SendQueue) : Prop :=
  w.conn.txQueue.writeBack ⟨0, w.conn.txQueue.writePos, 0, 0⟩ (some (Bytes.ofList data))
    (UInt32.ofNat data.length) (UInt32.ofNat data.length) = .ok (true, txQueue)

def recordOf (w : World) (data : List UInt8) : SendSegment :=
  ⟨0, w.conn.txQueue.writePos, UInt32.ofNat data.length, UInt32.ofNat data.length⟩

/-- The string of at most 65535 bytes waits in the send queue of `w₁`, as its only
record, and was put there by the application in `w`. -/
structure Waits (w w₁ : World) (data : List UInt8) : Prop where
  length_le : data.length ≤ 65535
  sent : w.sendData data = .ok w₁
  remote : w₁.conn.remote = w.conn.remote
  rxQueue : w₁.conn.rxQueue = w.conn.rxQueue
  laid : w₁.conn.txQueue.Laid
  unread : w₁.conn.txQueue.unread = [w.recordOf data]
  slice : w₁.conn.txQueue.slice (w.recordOf data) = data
  caught : w₁.conn.txQueue.Caught (w.recordOf data) ↔
    w.conn.txQueue.ackPos.toNat + data.length < 4294967296 ∧
      4294967296 ≤ w.conn.txQueue.ackPos.toNat + 0xFFFF

theorem Accepts.waits {txQueue : SendQueue} (hl : w.conn.txQueue.Laid)
    (hqueued : w.conn.txQueue.queued = []) (hbytes : w.conn.txQueue.bytes = [])
    (hsmall : data.length < 4294967296) (h : w.Accepts data txQueue) :
    w.Waits ((w.withTx txQueue).log (.transmit w.conn.state 0)) data := by
  have hword : (UInt32.ofNat data.length).toNat = data.length := toNat_ofNat_lt hsmall
  have hspan : serialDist w.conn.txQueue.writePos w.conn.txQueue.ackPos = 0 := by
    have hcovered := hl.covered
    rw [hbytes] at hcovered
    exact Nat.le_zero.mp hcovered
  have hread : w.conn.txQueue.readPos.toNat = 0 := by
    have hle := hl.read_le
    rw [hqueued] at hle
    exact Nat.le_zero.mp hle
  obtain ⟨hrefuse, haccept⟩ := writeBack_spec hl.wf
    ⟨0, w.conn.txQueue.writePos, 0, 0⟩ (Bytes.ofList data) (UInt32.ofNat data.length)
    (UInt32.ofNat data.length)
  unfold Accepts at h
  by_cases hroom : w.conn.txQueue.bytes.length + (UInt32.ofNat data.length).toNat ≤ 65535
  · have hlaid : txQueue.Laid := hl.writeBack (Nat.le_refl _) h
    obtain ⟨q, hcall, _, hq, hrecords, _, hack, hpos, _⟩ := haccept hroom rfl
    have hsame : q = txQueue := by
      rw [hcall] at h
      exact congrArg Prod.snd (Except.ok.inj h)
    rw [hsame] at hq hrecords hack hpos
    rw [hbytes, nil_append, hword] at hq
    rw [hqueued] at hrecords
    rw [hbytes, length_nil, Nat.zero_add, hword] at hroom
    refine ⟨hroom, ?_, rfl, rfl, hlaid, ?_, ?_, ?_⟩
    · unfold sendData transmit
      rw [h, ok_bind]
    · show txQueue.queued.drop txQueue.readPos.toNat = _
      rw [hrecords, hpos, hread]
      rfl
    · show (txQueue.bytes.drop (serialDist w.conn.txQueue.writePos txQueue.ackPos)).take
        (UInt32.ofNat data.length).toNat = data
      rw [hq, hack, hspan, hword, Net.first_ofList, drop_zero, take_length]
    · show txQueue.ackPos.toNat + (serialDist w.conn.txQueue.writePos txQueue.ackPos
          + (UInt32.ofNat data.length).toNat) < 4294967296 ∧
        4294967296 ≤ txQueue.ackPos.toNat + 0xFFFF ↔ _
      rw [hack, hspan, hword, Nat.zero_add]
  · rw [hrefuse (Or.inl (by omega))] at h
    cases h

theorem payload_plain (hpos : 1 ≤ data.length) :
    bare 0 data.length = false ∧ payload 0 data = data := by
  have hbare : bare 0 data.length = false := by
    unfold bare
    have hne : (data.length == 0) = false := beq_eq_false_iff_ne.mpr (by omega)
    rw [hne]
    rfl
  refine ⟨hbare, ?_⟩
  unfold payload
  rw [hbare]
  rfl

section

variable (h : w.Waits w₁ data)

include h

theorem Waits.sendable_iff (hpos : 1 ≤ data.length) :
    Sendable (w.recordOf data) ↔ data.length + 20 < 1500 := by
  have hmax := h.length_le
  have hword : (UInt32.ofNat data.length).toNat = data.length := toNat_ofNat_lt (by omega)
  show bare 0 (UInt32.ofNat data.length).toNat = true ∨
    (UInt32.ofNat data.length).toNat + 20 < 1500 ↔ _
  rw [hword, (payload_plain hpos).1]
  simp

theorem Waits.segment (hpos : 1 ≤ data.length) {fuel : Nat}
    (hloop : transmitLoop env fuel w₁ = .ok w') :
    data.length + 20 < 1500 ∧ ¬ w₁.conn.txQueue.Caught (w.recordOf data) ∧
      ∃ header : Header, ((header.flagsHdrsz >>> 8).toUInt8 >>> 4).toNat = 5 ∧
        w'.trace = w₁.trace ++ [.output w.conn.remote.ipaddr header data] := by
  obtain ⟨hfits, hfree, htrace⟩ := transmitLoop_single env h.laid h.unread fuel hloop
  rw [h.remote, h.slice, show payload (w.recordOf data).flags data = data from
    (payload_plain hpos).2] at htrace
  refine ⟨(h.sendable_iff hpos).mp hfits, hfree, _, ?_, htrace⟩
  show (((((0 : UInt16) ||| ACK) &&& (0x1FF : UInt16) ||| ((5 : UInt16) <<< (12 : UInt16))) >>> 8
    ).toUInt8 >>> 4).toNat = 5
  decide

theorem Waits.returns (hpos : 1 ≤ data.length)
    (hfits : data.length + 20 < 1500) (hfree : ¬ w₁.conn.txQueue.Caught (w.recordOf data)) :
    ∃ w', transmitLoop env 2 w₁ = .ok w' := by
  have hclear : Clear w₁.conn.txQueue := by
    refine ⟨?_, ?_⟩
    · intro t ht
      rw [h.unread, mem_singleton] at ht
      rw [ht]
      exact (h.sendable_iff hpos).mpr hfits
    · intro t rest ht
      rw [h.unread] at ht
      cases ht
      exact hfree
  obtain ⟨w', _, hloop, _⟩ := transmitLoop_sends env [w.recordOf data] h.laid h.unread hclear
  exact ⟨w', hloop⟩

theorem Waits.stops (hlarge : 1480 ≤ data.length)
    (hbuffer : data.length ≤ 20480) (hfree : ¬ w₁.conn.txQueue.Caught (w.recordOf data))
    (fuel : Nat) :
    transmitLoop env (fuel + 1) w₁
      = .error (.assertion "length + sizeof(hdr) < sizeof(buffer)") := by
  have hword : (w.recordOf data).dataLength.toNat = data.length := toNat_ofNat_lt (by omega)
  obtain ⟨hact, hlt, _⟩ := SendQueue.unread_read h.laid h.unread
  have hmem : w.recordOf data ∈ w₁.conn.txQueue.queued := mem_of_getElem? hact
  have hread := SendQueue.readOneSegment_inside h.laid.wf hact
    (fun hc => hfree ((h.laid.outside_iff hmem).mp hc)) (h.laid.fits hmem)
    (show (w.recordOf data).dataLength.toNat ≤ stepBufferSize.toNat by rw [hword]; exact hbuffer)
  have hslice := h.slice
  unfold SendQueue.slice at hslice
  rw [hslice] at hread
  rw [transmitLoop, if_pos ((SendQueue.hasReadable_iff h.laid.wf).mpr hlt), hread, ok_bind]
  simp only
  rw [send_eq, if_neg, error_bind]
  rw [show (w.recordOf data).flags = 0 from rfl, (payload_plain (by omega)).1]
  simp only [Bool.false_eq_true, false_or]
  omega

theorem Waits.step_eq (hrx : w.conn.rxQueue.hasReadable = .ok false)
    (fuel : Nat) : w₁.step env fuel = transmitLoop env fuel w₁ := by
  apply step_quiet
  rw [h.rxQueue]
  exact hrx

end

section

variable {env} {overflow : Int → Checked Int} {hwaddr : HwAddr} {s : Sender} {data : List UInt8}
  {nextHop : HwAddr} {w₁ : World}

theorem Waits.of_reachesWire (h : w.Waits w₁ data) (hpos : 1 ≤ data.length)
    (hrx : w.conn.rxQueue.hasReadable = .ok false)
    (hcached : s.arp.fetchCached (s.nextHop w.conn.remote.ipaddr) = .ok (some nextHop))
    (hwire : ReachesWire env overflow hwaddr w s data) :
    data.length ≤ 1460 ∧ ¬ w₁.conn.txQueue.Caught (w.recordOf data) := by
  obtain ⟨w2, fuel, w', outs, s', frames, hsend, hreturns, htrace, hpass, _, hall⟩ := hwire
  rw [h.sent] at hsend
  cases hsend
  rw [h.step_eq env hrx] at hreturns
  obtain ⟨_, hfree, header, _, htrace'⟩ := h.segment env hpos hreturns
  refine ⟨?_, hfree⟩
  by_contra hlarge
  rw [htrace] at htrace'
  rw [append_cancel_left htrace'] at hpass
  obtain ⟨s1, hdropped⟩ := passDown_single overflow hwaddr hcached header
    (show data.length < 65536 by omega)
  rw [hdropped, if_neg hlarge] at hpass
  cases hpass
  -- nothing was passed on, so the string is empty
  rw [← hall] at hpos
  exact absurd hpos (by decide)

theorem Waits.reachesWire (h : w.Waits w₁ data) (hpos : 1 ≤ data.length)
    (hrx : w.conn.rxQueue.hasReadable = .ok false)
    (hcached : s.arp.fetchCached (s.nextHop w.conn.remote.ipaddr) = .ok (some nextHop))
    (hfits : data.length ≤ 1460) (hfree : ¬ w₁.conn.txQueue.Caught (w.recordOf data)) :
    ReachesWire env overflow hwaddr w s data := by
  obtain ⟨w', hloop⟩ := h.returns env hpos (by omega) hfree
  obtain ⟨_, _, header, hsize, htrace⟩ := h.segment env hpos hloop
  obtain ⟨s', hpass⟩ := passDown_single overflow hwaddr hcached header
    (show data.length < 65536 by omega)
  rw [if_pos hfits] at hpass
  refine ⟨w₁, 2, w', _, s', _, h.sent, (h.step_eq env hrx 2).trans hloop, htrace, hpass, ?_, ?_⟩
  · intro frame hframe
    rw [mem_singleton.mp hframe]
  · have htotal : ((s.ipv4.outgoingHeader .TCP s.ipv4.localAddr w.conn.remote.ipaddr
        (UInt32.ofNat (20 + data.length))).seal).totalLen.toNat = 40 + data.length := by
      show (20 + UInt32.ofNat (20 + data.length)).toNat % 65536 = _
      rw [toNat_add_eq, toNat_ofNat_lt (by omega)]
      show (20 + (20 + data.length)) % 4294967296 % 65536 = _
      omega
    show ([tcpPayload _]).flatten = data
    rw [tcpPayload_packet rfl rfl htotal hsize]
    exact append_nil data

end

/-- **Which strings reach the wire.** With an empty send queue, nothing to receive and a known
next hop, a string that `send` accepts is passed to ethernet exactly if it has at most 1460
bytes and the numbers do not lie around the 2^32 border. -/
theorem reachesWire_iff (overflow : Int → Checked Int) (hwaddr : HwAddr) {s : Sender}
    {data : List UInt8} {txQueue : SendQueue} {nextHop : HwAddr}
    (hreach : SendQueue.Reachable w.conn.txQueue) (hqueued : w.conn.txQueue.queued = [])
    (hbytes : w.conn.txQueue.bytes = []) (hrx : w.conn.rxQueue.hasReadable = .ok false)
    (hpos : 1 ≤ data.length) (hsmall : data.length < 4294967296) (haccept : w.Accepts data txQueue)
    (hcached : s.arp.fetchCached (s.nextHop w.conn.remote.ipaddr) = .ok (some nextHop)) :
    ReachesWire env overflow hwaddr w s data ↔
      data.length ≤ 1460 ∧
        ¬ (w.conn.txQueue.ackPos.toNat + data.length < 4294967296 ∧
          4294967296 ≤ w.conn.txQueue.ackPos.toNat + 0xFFFF) := by
  have hwaits := haccept.waits hreach.laid hqueued hbytes hsmall
  rw [← hwaits.caught]
  constructor
  · exact hwaits.of_reachesWire hpos hrx hcached
  · rintro ⟨hfits, hfree⟩
    exact hwaits.reachesWire hpos hrx hcached hfits hfree

/-! ## Strings of one length -/

/-- An established connection to port 80 of 10.0.0.9, whose next byte has number
0xDEADBEF0. -/
def established : World where
  conn := { Connection.new ⟨0x0A000009, 80⟩ ⟨0x0A000002, 9000⟩ .ESTABLISHED with
    txQueue := (Connection.new .wildcard .wildcard .ESTABLISHED).txQueue.reset 0xDEADBEF0 }
  table := .blank
  trace := []

theorem established_accepts (data : List UInt8) (h : data.length ≤ 65535) :
    ∃ txQueue, established.Accepts data txQueue := by
  have hword : (UInt32.ofNat data.length).toNat = data.length := toNat_ofNat_lt (by omega)
  have hwf : established.conn.txQueue.WF := reset_wf _ _
  obtain ⟨q, hcall, _⟩ := (writeBack_spec hwf
    ⟨0, established.conn.txQueue.writePos, 0, 0⟩ (Bytes.ofList data) (UInt32.ofNat data.length)
    (UInt32.ofNat data.length)).2 (by
      rw [hword]
      show (bytes (reset _ _)).length + _ ≤ _
      simpa using h) rfl
  exact ⟨q, hcall⟩

theorem exists_resolved : ∃ s : Sender, s.arp.fetchCached (s.nextHop 0x0A000009)
    = .ok (some [1, 2, 3, 4, 5, 6]) := by
  have hrun : (Sender.start.arp.mappings.insert 0x0A000009 [1, 2, 3, 4, 5, 6]).map
      (fun mappings => mappings.fetch 0x0A000009) = .ok (.ok (some [1, 2, 3, 4, 5, 6])) := by
    decide +kernel
  obtain ⟨mappings, _, hfetch⟩ := map_ok.mp hrun
  have hhop : Sender.nextHop { Sender.start with arp := { Sender.start.arp with mappings } }
      0x0A000009 = 0x0A000009 := by
    apply if_pos
    show (0x0A000002 &&& 0xFFFFFF00 : Address) = 0x0A000009 &&& 0xFFFFFF00
    decide
  refine ⟨{ Sender.start with arp := { Sender.start.arp with mappings } }, ?_⟩
  rw [hhop]
  exact hfetch

theorem reachesWire_iff_largest : ∃ (s : Sender) (txQueue : SendQueue),
    established.Accepts (List.replicate 1460 7) txQueue ∧
    ReachesWire quiet (fun _ => .error .overflow) [] established s (List.replicate 1460 7) := by
  obtain ⟨s, hcached⟩ := exists_resolved
  have hlength : (replicate 1460 (7 : UInt8)).length = 1460 := length_replicate
  obtain ⟨txQueue, haccept⟩ := established_accepts (replicate 1460 7) (by omega)
  refine ⟨s, txQueue, haccept, (reachesWire_iff quiet _ _ (.init ⟨_, _, rfl⟩)
    (queued_reset _ _) (bytes_reset _ _) rfl (by omega) (by omega) haccept
    hcached).mpr ⟨by omega, ?_⟩⟩
  rw [hlength]
  decide

/-- **Accepted data that does not reach the wire**: 1461 bytes are dropped by IPv4
without a word, and 1480 bytes stop on the assertion of the segment's buffer. -/
theorem accepted_lost : ∃ (s : Sender) (txQueue txQueue' : SendQueue),
    established.conn.state = .ESTABLISHED ∧ established.conn.txQueue.queued = [] ∧
    s.arp.fetchCached (s.nextHop established.conn.remote.ipaddr)
      = .ok (some [1, 2, 3, 4, 5, 6]) ∧
    established.Accepts (List.replicate 1461 7) txQueue ∧
    ¬ ReachesWire quiet (fun _ => .error .overflow) [] established s (List.replicate 1461 7) ∧
    established.Accepts (List.replicate 1480 7) txQueue' ∧
    ¬ ReachesWire quiet (fun _ => .error .overflow) [] established s (List.replicate 1480 7) ∧
    ∃ w, established.sendData (List.replicate 1480 7) = .ok w ∧ ∀ fuel,
      w.step quiet (fuel + 1) = .error (.assertion "length + sizeof(hdr) < sizeof(buffer)") := by
  obtain ⟨s, hcached⟩ := exists_resolved
  have hlaid : established.conn.txQueue.Laid := reset_laid _ _
  have hlost : ∀ {n : Nat} {txQueue : SendQueue}, 1460 < n → n ≤ 65535 →
      established.Accepts (replicate n 7) txQueue →
      ¬ ReachesWire quiet (fun _ => .error .overflow) [] established s (replicate n 7) := by
    intro n txQueue hlarge hmax haccept hwire
    have hlength : (replicate n (7 : UInt8)).length = n := length_replicate
    have hwaits := haccept.waits hlaid (queued_reset _ _) (bytes_reset _ _) (by omega)
    have hfits := (hwaits.of_reachesWire (by omega) rfl hcached hwire).1
    omega
  obtain ⟨txQueue, haccept⟩ := established_accepts (replicate 1461 7) (by
    rw [length_replicate]; decide)
  obtain ⟨txQueue', haccept'⟩ := established_accepts (replicate 1480 7) (by
    rw [length_replicate]; decide)
  refine ⟨s, txQueue, txQueue', rfl, queued_reset _ _, hcached, haccept,
    hlost (by decide) (by decide) haccept, haccept', hlost (by decide) (by decide) haccept', ?_⟩
  have hlength : (replicate 1480 (7 : UInt8)).length = 1480 := length_replicate
  have hwaits := haccept'.waits hlaid (queued_reset _ _) (bytes_reset _ _) (by omega)
  refine ⟨_, hwaits.sent, fun fuel => ?_⟩
  refine hwaits.stops quiet (by omega) (by omega) ?_ fuel
  rw [hwaits.caught, hlength]
  decide

end World

end Peos2.Tcp
