/-
  Ipv4.Independence — a datagram that came in one packet, and the reassembly buffers.

  `on_receive` takes its short cut only if the whole flags and offset field is 0. A
  packet with the Don't-Fragment bit goes through the table of reassembly buffers,
  where it can be dropped, mixed with the fragments of another datagram, or written
  past the end of a buffer. The buffer made for it writes its one hole over the first
  hole of all others.

  Main results: exactly when such a packet passes and leaves the buffers alone
  (`unfragmented_iff`), and two states in which it does not (`unfragmented_lost`).
-/
import Peos2.Ipv4.Reassembly
import Peos2.Ipv4.Shared

namespace Peos2.Ipv4

open Peos2.Lib Peos2.Support Bytes FragBuffer
open Peos2.Tcp (DatagramMetadata)

/-! ## What has to happen to a whole datagram -/

/-- The node of a slot that holds all from byte `n` on. -/
def firstNode (n : Int) : Node Hole := ⟨0xFFFF, 0xFFFF, some ⟨n, intMax⟩⟩

/-- What `on_receive` hands to an upper protocol for the packet. -/
def Packet.datagram (pkt : Packet) (proto : Proto) : Datagram :=
  ⟨pkt.metadata, proto, pkt.payload.first pkt.payloadSize.toNat⟩

namespace Shared

/-- The payload goes to one upper protocol, every buffer stays what it was, and so do the
nodes in which it has its holes. -/
def Passes (tcp : DatagramMetadata → List UInt8 → Checked Unit) (s : Shared) (stale data : Bytes)
    (length : UInt32) (pkt : Packet) : Prop :=
  ∃ s' proto, Proto.value proto = pkt.protocol ∧
    s.onReceive tcp stale data length = .ok (s', [pkt.datagram proto]) ∧
    (∀ it, s'.buffers.entry it = s.buffers.entry it) ∧
    ∀ it e, s.buffers.entry it = some e → ∀ i < e.value.data.holes.watermark,
      s'.nodes i = s.nodes i

/-- There is an upper protocol, which accepts the payload, and the packet takes the short cut
or finds a free slot, no buffer for its identifier, room for its payload in a new one, and
no buffer whose first node is another than that of the new one. -/
def Unhindered (tcp : DatagramMetadata → List UInt8 → Checked Unit) (s : Shared) (pkt : Packet) :
    Prop :=
  (∃ proto, Proto.value proto = pkt.protocol ∧ (pkt.datagram proto).deliver tcp = .ok ()) ∧
    (pkt.fragOfs = 0 ∨
      (s.buffers.full = false ∧ ¬ s.buffers.Contains pkt.ident ∧
        1 ≤ pkt.payloadSize.toNat ∧ pkt.payloadSize.toNat ≤ 10000 ∧
        ∀ it e, s.buffers.entry it = some e → 0 < e.value.data.holes.watermark →
          s.nodes 0 = firstNode pkt.payloadSize.toNat))

end Shared

theorem forwardDatagram_value (metadata : DatagramMetadata) (proto : Proto) (payload : List UInt8) :
    forwardDatagram metadata proto.value payload = [⟨metadata, proto, payload⟩] := by
  cases proto <;> rfl

theorem payload_of_forwarded {metadata : DatagramMetadata} {protocol : UInt8} {payload : List UInt8}
    {d : Datagram} (h : d ∈ forwardDatagram metadata protocol payload) : d.payload = payload := by
  unfold forwardDatagram at h
  split at h
  · rw [List.mem_singleton.mp h]
  split at h
  · rw [List.mem_singleton.mp h]
  split at h
  · rw [List.mem_singleton.mp h]
  · cases h

/-! ## A whole datagram in a fresh buffer -/

/-- A pool whose first slot holds all from byte `n` on. -/
def holed (nodes : Nat → Node Hole) (n : Int) : Pool Hole (10000 / 40) 0xFFFF :=
  ⟨storeAt nodes 0 (firstNode n), 1, 0xFFFF, 0xFFFF, 1⟩

theorem emplaceAnywhere_first (nodes : Nat → Node Hole) (n : Int) :
    (⟨nodes, 0, 0xFFFF, 0xFFFF, 0⟩ : Pool Hole (10000 / 40) 0xFFFF).emplaceAnywhere ⟨n, intMax⟩
      = .ok (0, holed nodes n) := by
  simp [Pool.emplaceAnywhere, Pool.emplace, Pool.increaseSize, Pool.grow, Pool.valid, Pool.setNode,
    holed, firstNode]

theorem valid_holed (nodes : Nat → Node Hole) (n : Int) : (holed nodes n).valid 0 = true := by
  simp [Pool.valid, holed, firstNode]

theorem get_holed (nodes : Nat → Node Hole) (n : Int) :
    (holed nodes n).get 0 = .ok ⟨n, intMax⟩ := by
  rw [Pool.get, valid_holed, check_true, ok_bind]
  rfl

theorem punch_holed (nodes : Nat → Node Hole) {n : Int} (hpos : 1 ≤ n) (hsmall : n < intMax) :
    punch ⟨0, n⟩ (10000 / 40 + 1) 0 (holed nodes 0) false = .ok (holed nodes n, true) := by
  have hover : (⟨0, n⟩ : Hole).overlaps ⟨0, intMax⟩ = true :=
    Span.overlaps_iff.mpr ⟨hpos, show (0 : Int) < 2147483647 by decide⟩
  have hcut : (⟨0, n⟩ : Hole).cut ⟨0, intMax⟩ = [⟨n, intMax⟩] := by
    unfold Span.cut
    rw [if_neg (Int.lt_irrefl 0), if_pos hsmall]
    rfl
  have herase : (holed nodes 0).erase 0
      = .ok ⟨storeAt nodes 0 (firstNode 0), 0, 0xFFFF, 0xFFFF, 0⟩ := by
    rw [Pool.erase, valid_holed, check_true, ok_bind]
    rfl
  have hreplace : replaceHole ⟨0, n⟩ 0 ⟨0, intMax⟩ (holed nodes 0) = .ok (holed nodes n) := by
    rw [replaceHole_eq, hcut, herase, ok_bind, place, emplaceAnywhere_first, ok_bind, holed,
      storeAt_storeAt]
    rfl
  rw [punch, if_pos (show 0 < (holed nodes 0).watermark from Nat.one_pos), if_pos (valid_holed _ _),
    get_holed, ok_bind, if_pos hover, hreplace, ok_bind]
  rfl

theorem continuousSize_holed (storage : Bytes) (nodes : Nat → Node Hole) (n : Int) :
    continuousSize ⟨storage, holed nodes n⟩ = .ok n := by
  have hindices : (holed nodes n).indices = [0] := by
    have hmark : (holed nodes n).watermark = 1 := rfl
    simp [Pool.indices, Pool.indicesFrom, Pool.jumpToValid, valid_holed, hmark]
  rw [continuousSize, if_neg (by simp [Pool.size, holed])]
  simp only [hindices, get_holed, ok_bind]

theorem first_written (stale data : Bytes) (n : Nat) :
    Bytes.first (written stale 0 data n) n = data.first n := by
  refine List.ext_getElem? fun i => ?_
  by_cases hi : i < n
  · rw [getElem?_first _ hi, getElem?_first _ hi, written_inside (by omega)]
    simp
  · rw [List.getElem?_eq_none (by simpa using hi), List.getElem?_eq_none (by simpa using hi)]

namespace Shared

variable {s s' : Shared} {tcp : DatagramMetadata → List UInt8 → Checked Unit}
  {stale data : Bytes} {length : UInt32} {pkt : Packet} {out : List Datagram}

theorem fresh_eq (s : Shared) (stale : Bytes) :
    s.fresh stale = .ok ⟨20000, false, ⟨stale, holed s.nodes 0⟩⟩ := by
  rw [fresh, reset, Pool.clear, emplaceAnywhere_first]
  rfl

/-- Without a buffer of its identifier a fragment meets a fresh one. -/
theorem Meets.of_absent {it : Nat} {w : ReassemblyBuffer} (h : s.Meets stale pkt.ident it w)
    (habsent : ¬ s.buffers.Contains pkt.ident) :
    s.buffers.entry it = none ∧ w = ⟨20000, false, ⟨stale, holed s.nodes 0⟩⟩ := by
  cases h with
  | held he => exact absurd ⟨_, _, he⟩ habsent
  | fresh hfree _ hnew =>
    rw [fresh_eq] at hnew
    cases hnew
    exact ⟨hfree, rfl⟩

theorem store_first (nodes : Nat → Node Hole) (hoffset : pkt.fragOffset = 0)
    (hpos : 1 ≤ pkt.payloadSize.toNat) (hsize : pkt.payloadSize.toNat ≤ 65535) (stale : Bytes) :
    Protocol.store ⟨20000, false, ⟨stale, holed nodes 0⟩⟩ pkt
      = copy stale 10000 0 pkt.payload pkt.payloadSize.toNat >>= fun data =>
          .ok ⟨data, holed nodes (min pkt.payloadSize.toNat 10000 : Nat)⟩ := by
  unfold Protocol.store
  rw [hoffset, signed_of_lt (by omega)]
  show insert _ 0 _ _ = _
  rw [insert_eq _ (by omega) (by omega)]
  have hclamp : clamped 10000 0 pkt.payloadSize.toNat
      = ⟨0, (min pkt.payloadSize.toNat 10000 : Nat)⟩ := by
    unfold clamped
    congr 1
    omega
  rw [hclamp, punch_holed nodes (by omega) (by unfold intMax; omega), ok_bind]
  rfl

theorem outcome_whole (nodes : Nat → Node Hole) (hmore : pkt.moreFragments = false)
    (hoffset : pkt.fragOffset = 0) (hpos : 1 ≤ pkt.payloadSize.toNat)
    (hshort : pkt.payloadSize.toNat ≤ 10000) (stale : Bytes) :
    ∃ d, Protocol.store ⟨20000, false, ⟨stale, holed nodes 0⟩⟩ pkt = .ok d ∧
      d.holes.nodes = storeAt nodes 0 (firstNode pkt.payloadSize.toNat) ∧
      Protocol.outcome ⟨20000, false, ⟨stale, holed nodes 0⟩⟩ pkt
        = .ok (none, forwardDatagram pkt.metadata pkt.protocol
            (pkt.payload.first pkt.payloadSize.toNat)) := by
  have hstore := store_first nodes hoffset hpos (by omega) stale
  rw [copy_inside (by decide) (by omega) (by omega) (by omega), ok_bind,
    Nat.min_eq_left hshort] at hstore
  refine ⟨_, hstore, rfl, ?_⟩
  have hlast : ((⟨20000, false, ⟨stale, holed nodes 0⟩⟩ : ReassemblyBuffer).taking pkt
      ⟨written stale 0 pkt.payload pkt.payloadSize.toNat,
        holed nodes pkt.payloadSize.toNat⟩).receivedLast = true := by
    show (false || !pkt.moreFragments) = true
    rw [hmore]
    rfl
  rw [Protocol.outcome_completes hstore hlast (continuousSize_holed _ _ _) (by omega)]
  show Except.ok (_, forwardDatagram _ _ (first _ (Int.toNat _))) = _
  rw [Int.toNat_natCast, first_written]

theorem outcome_large (nodes : Nat → Node Hole) (hoffset : pkt.fragOffset = 0)
    (hlarge : 10000 < pkt.payloadSize.toNat) (hsize : pkt.payloadSize.toNat ≤ 65535)
    (stale : Bytes) : Protocol.outcome ⟨20000, false, ⟨stale, holed nodes 0⟩⟩ pkt
      = .error .outOfBounds := by
  have hstore := store_first nodes hoffset (by omega) hsize stale
  rw [copy_outside (by omega) (by omega) (by omega), error_bind] at hstore
  unfold Protocol.outcome
  rw [hstore]
  rfl

/-! ## Whole datagrams -/

theorem passes_iff (hs : s.buffers.Sound)
    (hexamine : s.proto.examine data length = .ok (some pkt)) (hmore : pkt.moreFragments = false)
    (hoffset : pkt.fragOffset = 0) : s.Passes tcp stale data length pkt ↔ s.Unhindered tcp pkt := by
  have hdeliver : ∀ proto, [pkt.datagram proto].forM (Datagram.deliver tcp) = .ok () ↔
      (pkt.datagram proto).deliver tcp = .ok () := by
    intro proto
    rw [deliver_singleton]
  have hforward : ∀ proto, Proto.value proto = pkt.protocol →
      forwardDatagram pkt.metadata pkt.protocol (pkt.payload.first pkt.payloadSize.toNat)
        = [pkt.datagram proto] := by
    intro proto hproto
    rw [← hproto, forwardDatagram_value]
    rfl
  have hsize := Protocol.examine_payloadSize hexamine
  constructor
  · rintro ⟨s', proto, hproto, hcall, hentries, hnodes⟩
    by_cases hofs : pkt.fragOfs = 0
    · obtain ⟨_, _, hd⟩ := (onReceive_whole hexamine hofs).mp hcall
      exact ⟨⟨proto, hproto, (hdeliver proto).mp hd⟩, .inl hofs⟩
    obtain ⟨hcall, hd⟩ := (onReceive_fragment hexamine hofs).mp hcall
    refine ⟨⟨proto, hproto, (hdeliver proto).mp hd⟩, .inr ?_⟩
    cases hfull : s.buffers.full with
    | true =>
      rw [reassemble_full stale hfull] at hcall
      cases hcall
    | false =>
      obtain ⟨it, w, hmeets, ⟨e, _, herror⟩ | ⟨slot, out, d, s1, hout, hstore, hok, hd, _, hl, _⟩⟩ :=
        reassemble_outcome hs hfull stale pkt
      · rw [herror] at hcall
        cases hcall
      rw [hok] at hcall
      cases hcall
      obtain hnil | ⟨rfl, payload, hne, hforwarded⟩ := Protocol.outcome_out hout
      · cases hnil
      have hpos : 1 ≤ pkt.payloadSize.toNat := by
        by_contra hempty
        have hzero : pkt.payloadSize.toNat = 0 := by omega
        apply hne
        have hmem : pkt.datagram proto ∈ forwardDatagram pkt.metadata pkt.protocol payload :=
          hforwarded ▸ List.mem_singleton.mpr rfl
        rw [← payload_of_forwarded hmem, Packet.datagram, hzero]
        rfl
      cases hmeets with
      | held he =>
        -- the buffer of the other datagram would be gone
        have hnone := hentries it
        rw [hl, if_pos rfl, he] at hnone
        cases hnone
      | fresh _ habsent hnew =>
        rw [fresh_eq] at hnew
        cases hnew
        have hshort : pkt.payloadSize.toNat ≤ 10000 := by
          by_contra hlarge
          rw [outcome_large s.nodes hoffset (by omega) hsize stale] at hout
          cases hout
        obtain ⟨d', hstore', hfirst, _⟩ := outcome_whole s.nodes hmore hoffset hpos hshort stale
        rw [hstore] at hstore'
        cases hstore'
        refine ⟨rfl, habsent, hpos, hshort, fun j e he hmark => ?_⟩
        rw [← hnodes j e he 0 hmark, hd, hfirst]
        exact storeAt_self _ _ _
  · rintro ⟨⟨proto, hproto, hd⟩, hway⟩
    by_cases hofs : pkt.fragOfs = 0
    · refine ⟨s, proto, hproto, (onReceive_whole hexamine hofs).mpr ⟨rfl, ?_, ?_⟩, fun _ => rfl,
        fun _ _ _ _ _ => rfl⟩
      · rw [hforward proto hproto]
      · exact (hdeliver proto).mpr hd
    obtain ⟨hroom, habsent, hpos, hshort, hfirst⟩ := hway.resolve_left hofs
    obtain ⟨d, hstore, hd', hwhole⟩ := outcome_whole s.nodes hmore hoffset hpos hshort stale
    obtain ⟨it, w, hmeets, hcases⟩ := reassemble_outcome hs hroom stale pkt
    obtain ⟨hfree, rfl⟩ := hmeets.of_absent habsent
    rw [hwhole, hstore] at hcases
    rcases hcases with ⟨e, herror, _⟩ | ⟨slot, out, d', s', hout, hsame, hok, hnodes, _, hl, _⟩
    · cases herror
    cases hout
    cases hsame
    rw [hforward proto hproto] at hok
    refine ⟨s', proto, hproto, (onReceive_fragment hexamine hofs).mpr
      ⟨hok, (hdeliver proto).mpr hd⟩, ?_, ?_⟩
    · intro j
      rw [hl]
      split
      · next hj => rw [hj, hfree]; rfl
      · rfl
    · intro j e he i hi
      rw [hnodes, hd']
      by_cases hzero : i = 0
      · rw [hzero, hfirst j e he (by omega)]
        exact storeAt_self _ _ _
      · exact storeAt_ne _ _ hzero

theorem Passes.forwards {q : Shared} {stale' : Bytes} (hs : s.Passes tcp stale data length pkt)
    (hq : q.Passes tcp stale' data length pkt) :
    (s.onReceive tcp stale data length).map Prod.snd
      = (q.onReceive tcp stale' data length).map Prod.snd := by
  obtain ⟨_, proto, hproto, hcall, _⟩ := hs
  obtain ⟨_, proto', hproto', hcall', _⟩ := hq
  have hsame : proto = proto' := by
    rw [← hproto'] at hproto
    revert hproto
    cases proto <;> cases proto' <;> decide
  rw [hcall, hcall', hsame]
  rfl

/-- **Whole datagrams and reassembly.** In two states that differ in their reassembly buffers
only, a packet that passes the checks with MF clear and offset 0 is forwarded once, unchanged
and the same way, and leaves the buffers alone, if and only if nothing is in its way in either.
-/
theorem unfragmented_iff (stale stale' : Bytes) {q : Shared} (hs : Reachable s)
    (hq : Reachable q) (hsame : q.proto = { s.proto with reassemblyBuffers := q.buffers })
    (hexamine : s.proto.examine data length = .ok (some pkt)) (hmore : pkt.moreFragments = false)
    (hoffset : pkt.fragOffset = 0) :
    (s.Passes tcp stale data length pkt ∧ q.Passes tcp stale' data length pkt ∧
      (s.onReceive tcp stale data length).map Prod.snd
        = (q.onReceive tcp stale' data length).map Prod.snd) ↔
    s.Unhindered tcp pkt ∧ q.Unhindered tcp pkt := by
  have hexamine' : q.proto.examine data length = .ok (some pkt) := by
    rw [hsame]
    exact hexamine
  rw [← passes_iff hs.sound hexamine hmore hoffset, ← passes_iff hq.sound hexamine' hmore hoffset]
  constructor
  · rintro ⟨hpass, hpass', _⟩
    exact ⟨hpass, hpass'⟩
  · rintro ⟨hpass, hpass'⟩
    exact ⟨hpass, hpass', hpass.forwards hpass'⟩

/-- A packet of eight bytes from 10.0.2.2 to 10.0.2.15, with this flags and offset field. -/
def eightBytes (protocol : Proto) (id fragOfs : UInt16) : List UInt8 :=
  (plainHeader id fragOfs protocol.value 0x0A000202 0x0A00020F 8).seal.bytes
    ++ [1, 2, 3, 4, 5, 6, 7, 8]

/-- What `on_receive` knows of it. -/
def eightPkt (protocol : Proto) (id fragOfs : UInt16) : Packet :=
  ⟨id, fragOfs, protocol.value, 0x0A000202, 0x0A00020F,
    Net.advance (ofList (eightBytes protocol id fragOfs)) 20, 8⟩

theorem eightBytes_examine (protocol : Proto) (id fragOfs : UInt16) {p : Protocol}
    (hp : p.localAddr = 0x0A00020F) : p.examine (ofList (eightBytes protocol id fragOfs)) 28
      = .ok (some (eightPkt protocol id fragOfs)) := by
  have hrecipient : p.isRecipient 0x0A00020F = true := by
    unfold Protocol.isRecipient
    rw [hp]
    rfl
  exact (plainHeader_plain (by decide) :
    (plainHeader id fragOfs protocol.value 0x0A000202 0x0A00020F 8).Plain
      [1, 2, 3, 4, 5, 6, 7, 8].length).examine hrecipient

theorem host_unhindered : host.Unhindered tcp (eightPkt .UDP 7 0x4000) := by
  refine ⟨⟨.UDP, rfl, rfl⟩, .inr ⟨rfl, ?_, by decide, by decide, ?_⟩⟩
  · rintro ⟨it, v, he⟩
    cases (Pool.lookup_blank it).symm.trans he
  · intro it e he
    cases (Pool.lookup_blank it).symm.trans he

/-- It also passes beside a datagram of which the first eight bytes have come in. -/
theorem unfragmented_iff_beside : ∃ q, Reachable q ∧ q.buffers.size = 1 ∧
    host.Passes quiet zeros (ofList (eightBytes .UDP 7 0x4000)) 28 (eightPkt .UDP 7 0x4000) ∧
    q.Passes quiet zeros (ofList (eightBytes .UDP 7 0x4000)) 28 (eightPkt .UDP 7 0x4000) := by
  have hrun : (host.onReceive quiet zeros (ofList (eightBytes .UDP 9 0x2000))
      28).map (fun r => (r.1.buffers.size, r.1.buffers.full,
        (r.1.buffers.find (eightPkt .UDP 7 0x4000).ident).toOption, r.1.nodes 0))
      = .ok (1, false, some none, firstNode 8) := by
    decide +kernel
  obtain ⟨⟨q, out⟩, hcall, hvalues⟩ := map_ok.mp hrun
  simp only [Prod.mk.injEq] at hvalues
  obtain ⟨hsize, hfull, hfind, hnode⟩ := hvalues
  have hreach : Reachable q := host_reachable.step (.receive hcall)
  obtain ⟨_, hproto⟩ := onReceive_ok host_reachable.sound hcall
  have hclear : q.Unhindered quiet (eightPkt .UDP 7 0x4000) := by
    refine ⟨⟨.UDP, rfl, rfl⟩, .inr ⟨hfull, ?_, by decide, by decide, fun _ _ _ _ => hnode⟩⟩
    rintro ⟨it, v, he⟩
    rw [UnorderedMap.find_of_lookup hreach.sound.wf hreach.sound.distinct he] at hfind
    cases hfind
  obtain ⟨hpass, hpass', _⟩ := (unfragmented_iff zeros zeros host_reachable hreach
    hproto (eightBytes_examine _ _ _ rfl) (by decide) (by decide)).mpr ⟨host_unhindered, hclear⟩
  exact ⟨q, hreach, hsize, hpass, hpass'⟩

/-- After a fragment of the same identifier the datagram is not forwarded. After the second
fragment of another datagram it is, and that datagram has lost what it knew of its holes. -/
theorem unfragmented_lost : ∃ q q', Reachable q ∧ Reachable q' ∧
    q.proto = { host.proto with reassemblyBuffers := q.buffers } ∧
    q'.proto = { host.proto with reassemblyBuffers := q'.buffers } ∧
    host.proto.examine (ofList (eightBytes .UDP 7 0x4000)) 28
      = .ok (some (eightPkt .UDP 7 0x4000)) ∧
    (eightPkt .UDP 7 0x4000).moreFragments = false ∧ (eightPkt .UDP 7 0x4000).fragOffset = 0 ∧
    (host.onReceive quiet zeros (ofList (eightBytes .UDP 7 0x4000)) 28).map Prod.snd
      = .ok [(eightPkt .UDP 7 0x4000).datagram .UDP] ∧
    (q.onReceive quiet zeros (ofList (eightBytes .UDP 7 0x4000)) 28).map Prod.snd = .ok [] ∧
    ¬ q.Passes quiet zeros (ofList (eightBytes .UDP 7 0x4000)) 28 (eightPkt .UDP 7 0x4000) ∧
    (q'.onReceive quiet zeros (ofList (eightBytes .UDP 7 0x4000)) 28).map Prod.snd
      = .ok [(eightPkt .UDP 7 0x4000).datagram .UDP] ∧
    ¬ q'.Passes quiet zeros (ofList (eightBytes .UDP 7 0x4000)) 28 (eightPkt .UDP 7 0x4000) := by
  have hsame : (host.onReceive quiet zeros (ofList (eightBytes .UDP 7 5)) 28
      >>= fun r => r.1.onReceive quiet zeros (ofList (eightBytes .UDP 7 0x4000)) 28).map
        Prod.snd = .ok [] := by
    decide +kernel
  have hother : (host.onReceive quiet zeros (ofList (eightBytes .UDP 9 5)) 28
      >>= fun r => (r.1.onReceive quiet zeros (ofList (eightBytes .UDP 7 0x4000)) 28).map
        fun r' => (r'.2, (r.1.buffers.entry 0).map (·.value.data.holes.watermark),
          (r.1.nodes 0).value, (r'.1.nodes 0).value))
      = .ok ([(eightPkt .UDP 7 0x4000).datagram .UDP], some 2, some ⟨0, 40⟩, some ⟨8, intMax⟩) := by
    decide +kernel
  obtain ⟨⟨q1, out1⟩, hsame, hnil⟩ := map_ok.mp hsame
  obtain ⟨⟨q, out⟩, hcall, hlost⟩ := bind_ok.mp hsame
  obtain ⟨⟨q', out'⟩, hcall', hother⟩ := bind_ok.mp hother
  obtain ⟨⟨q2, out2⟩, hpassed, hvalues⟩ := map_ok.mp hother
  simp only [Prod.mk.injEq] at hnil hvalues hlost hpassed
  obtain ⟨rfl, hmark, hbefore, hafter⟩ := hvalues
  obtain ⟨e, he, hmark⟩ := Option.map_eq_some_iff.mp hmark
  refine ⟨q, q', host_reachable.step (.receive hcall), host_reachable.step (.receive hcall'),
    (onReceive_ok host_reachable.sound hcall).2, (onReceive_ok host_reachable.sound hcall').2,
    eightBytes_examine _ _ _ rfl, by decide, by decide, by decide +kernel, ?_, ?_, ?_, ?_⟩
  · rw [hlost, ← hnil]
    rfl
  · rintro ⟨_, _, _, hpasses, _⟩
    rw [hlost] at hpasses
    cases hpasses
    cases hnil
  · rw [hpassed]
    rfl
  · rintro ⟨s', proto, _, hpasses, _, hnodes⟩
    rw [hpassed] at hpasses
    cases hpasses
    have hkept := hnodes 0 e he 0 (by rw [hmark]; decide)
    rw [hkept, hbefore] at hafter
    cases hafter

end Shared

end Peos2.Ipv4
