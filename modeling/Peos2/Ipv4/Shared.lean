/-
  Ipv4.Shared — the reassembly buffers over the storage they share.

  `_reassembly_buffers.insert(ident, {})` copies a temporary of `on_receive` into the
  table, and the copy of a `fixed_pool` keeps the pointers of the original (see
  `Support.PoolCopy`). So the `_holes` of every buffer lie where that temporary lay, which
  is one place of the stack for all calls: constructing a buffer and adding a fragment
  write over the holes of all others, and whatever uses the stack between two calls may too.

  The table is that of `Ipv4.Protocol`, but the nodes in its entries are not read: a buffer
  is used `over` the shared nodes. The upper protocols run inside `on_receive`.

  Main results:
    * `reassemble_outcome` — a fragment does to the buffer it `Meets` what `outcome` says,
      and leaves the nodes of that buffer in the shared storage.
    * `Reachable.sound` — along every run no two buffers have the same identifier.
-/
import Peos2.Ipv4.Table

namespace Peos2.Ipv4

open Peos2.Lib Peos2.Support UnorderedMap
open Peos2.Tcp (Address DatagramMetadata)

/-! ## The model -/

/-- The buffer with the holes it finds in the storage `nodes`. -/
def ReassemblyBuffer.over (v : ReassemblyBuffer) (nodes : Nat → Node Hole) : ReassemblyBuffer :=
  { v with data := { v.data with holes := { v.data.holes with nodes } } }

/-- The buffer after a fragment, as it was if the fragment cannot be stored. -/
def ReassemblyBuffer.given (v : ReassemblyBuffer) (pkt : Packet) : ReassemblyBuffer :=
  match Protocol.store v pkt with
  | .ok data => v.taking pkt data
  | .error _ => v

/-- `on_receive` of the upper protocol: UDP asserts that its header is there, ICMP does
nothing, and TCP is a parameter. -/
def Datagram.deliver (tcp : DatagramMetadata → List UInt8 → Checked Unit) (d : Datagram) :
    Checked Unit :=
  match d.protocol with
  | .TCP => tcp d.metadata d.payload
  | .UDP => check (d.payload.length ≥ 8) "length >= sizeof(header)"
  | .ICMP => .ok ()

/-- `protocol_impl` with the storage that the holes of all buffers refer to. No function
reads `own`: for each slot it is the buffer as its fragments would have left it in
storage of its own. -/
structure Shared where
  proto : Protocol
  nodes : Nat → Node Hole
  own : Nat → ReassemblyBuffer

namespace Shared

/-- `_reassembly_buffers` -/
abbrev buffers (s : Shared) : Buffers := s.proto.reassemblyBuffers

/-- `reassembly_buffer{}`, the temporary: its holes lie in the shared storage. -/
def fresh (s : Shared) (stale : Bytes) : Checked ReassemblyBuffer := do
  let data ← (⟨stale, ⟨s.nodes, 0, 0xFFFF, 0xFFFF, 0⟩⟩ : FragBuffer 10000).reset
  .ok ⟨20000, false, data⟩

/-- The slot of the identifier's buffer, which is created if there is none. -/
def locate (s : Shared) (stale : Bytes) (ident : Identifier) : Checked (Shared × Nat) := do
  match ← s.buffers.find ident with
  | some it => .ok (s, it)
  | none =>
    let buffer ← s.fresh stale
    let (buffers, it) ← Protocol.locate s.buffers (.ok buffer) ident
    .ok (⟨{ s.proto with reassemblyBuffers := buffers }, buffer.data.holes.nodes,
      storeAt s.own it buffer⟩, it)

/-- The fragment is added to the buffer in slot `it`, taken over the shared nodes, and the
datagram is forwarded if that completes it. -/
def addFragment (s : Shared) (it : Nat) (pkt : Packet) : Checked (Shared × List Datagram) := do
  let buffer ← s.buffers.value it
  let data ← Protocol.store (buffer.over s.nodes) pkt
  let buffers ← s.buffers.setValue it (buffer.over s.nodes)
  let (buffers, out) ← Protocol.addFragment buffers it pkt
  .ok (⟨{ s.proto with reassemblyBuffers := buffers }, data.holes.nodes,
    storeAt s.own it ((s.own it).given pkt)⟩, out)

/-- The branch of `on_receive` for fragments. -/
def reassemble (s : Shared) (stale : Bytes) (pkt : Packet) : Checked (Shared × List Datagram) :=
  if s.buffers.full then .ok (s, [])
  else do
    let (s, it) ← s.locate stale pkt.ident
    s.addFragment it pkt

/-- The part of `on_receive` behind the checks, up to the upper protocols. -/
def handle (s : Shared) (stale : Bytes) (pkt : Packet) : Checked (Shared × List Datagram) :=
  if pkt.moreFragments = false ∧ pkt.fragOfs = 0 then
    .ok (s, forwardDatagram pkt.metadata pkt.protocol (pkt.payload.first pkt.payloadSize.toNat))
  else s.reassemble stale pkt

/-- `void on_receive(const frame_metadata &, const char *data, size_t length)`, with the
upper protocols. -/
def onReceive (tcp : DatagramMetadata → List UInt8 → Checked Unit) (s : Shared)
    (stale data : Bytes) (length : UInt32) : Checked (Shared × List Datagram) := do
  match ← s.proto.examine data length with
  | none => .ok (s, [])
  | some pkt =>
    let (s, out) ← s.handle stale pkt
    out.forM (Datagram.deliver tcp)
    .ok (s, out)

/-- A call, or a use of the stack between two calls. -/
inductive Step (s : Shared) : Shared → Prop
  | receive {tcp : DatagramMetadata → List UInt8 → Checked Unit} {stale data : Bytes}
      {length : UInt32} {s' : Shared} {out : List Datagram} :
      s.onReceive tcp stale data length = .ok (s', out) → Step s s'
  | tick {fuel : Nat} {deltaMs : UInt32} {p' : Protocol} :
      s.proto.tick fuel deltaMs = .ok p' → Step s { s with proto := p' }
  | configure (localAddr netmask defaultGateway : Address) :
      Step s { s with proto := s.proto.configure localAddr netmask defaultGateway }
  | send {protocol : Proto} {srcAddr destAddr : Address} {data : Bytes} {length : UInt32}
      {p' : Protocol} {packet : Option (List UInt8)} :
      s.proto.sendSingleDatagram protocol srcAddr destAddr data length = .ok (p', packet) →
      Step s { s with proto := p' }
  | reuse (nodes : Nat → Node Hole) : Step s { s with nodes }

def Reachable : Shared → Prop :=
  Reach (fun s => ∃ localAddr netmask gateway nodes own,
    s = ⟨.blank localAddr netmask gateway, nodes, own⟩) Step

/-- `w` is the buffer that a fragment with this identifier is added to, in slot `it`: the
one there is, with the holes it finds, or a fresh one. -/
inductive Meets (s : Shared) (stale : Bytes) (ident : Identifier) : Nat → ReassemblyBuffer → Prop
  | held {it : Nat} {v : ReassemblyBuffer} :
      s.buffers.entry it = some ⟨ident, v⟩ → Meets s stale ident it (v.over s.nodes)
  | fresh {it : Nat} {w : ReassemblyBuffer} : s.buffers.entry it = none →
      ¬ s.buffers.Contains ident → s.fresh stale = .ok w → Meets s stale ident it w

/-! ## The ways of a packet -/

variable {s s' : Shared} {tcp : DatagramMetadata → List UInt8 → Checked Unit}
  {stale data : Bytes} {length : UInt32} {pkt : Packet} {ident : Identifier} {it : Nat}
  {out : List Datagram}

theorem deliver_singleton (d : Datagram) : [d].forM (Datagram.deliver tcp) = d.deliver tcp := by
  show (d.deliver tcp >>= fun _ => .ok ()) = _
  cases d.deliver tcp <;> rfl

theorem onReceive_whole (h : s.proto.examine data length = .ok (some pkt)) (hofs : pkt.fragOfs = 0) :
    s.onReceive tcp stale data length = .ok (s', out) ↔ s' = s ∧
      out = forwardDatagram pkt.metadata pkt.protocol (pkt.payload.first pkt.payloadSize.toNat) ∧
      out.forM (Datagram.deliver tcp) = .ok () := by
  have hmore : pkt.moreFragments = false := by
    unfold Packet.moreFragments Packet.flags
    rw [hofs]
    rfl
  unfold onReceive handle
  rw [h, ok_bind]
  simp only
  rw [if_pos ⟨hmore, hofs⟩, ok_bind, bind_ok]
  constructor
  · rintro ⟨_, hdeliver, hcall⟩
    cases hcall
    exact ⟨rfl, rfl, hdeliver⟩
  · rintro ⟨rfl, rfl, hdeliver⟩
    exact ⟨(), hdeliver, rfl⟩

theorem onReceive_fragment (h : s.proto.examine data length = .ok (some pkt))
    (hofs : pkt.fragOfs ≠ 0) :
    s.onReceive tcp stale data length = .ok (s', out) ↔
      s.reassemble stale pkt = .ok (s', out) ∧ out.forM (Datagram.deliver tcp) = .ok () := by
  unfold onReceive handle
  rw [h, ok_bind]
  simp only
  rw [if_neg fun hc => hofs hc.2, bind_ok]
  constructor
  · rintro ⟨r, hcall, hrest⟩
    obtain ⟨_, hdeliver, hrest⟩ := bind_ok.mp hrest
    cases hrest
    exact ⟨hcall, hdeliver⟩
  · rintro ⟨hcall, hdeliver⟩
    refine ⟨_, hcall, ?_⟩
    rw [hdeliver]
    rfl

theorem reassemble_full (stale : Bytes) (hfull : s.buffers.full = true) :
    s.reassemble stale pkt = .ok (s, []) := if_pos hfull

/-! ## Fragments -/

theorem fresh_orderly (s : Shared) (stale : Bytes) :
    ∃ w, s.fresh stale = .ok w ∧ w.receivedLast = false ∧ w.data.Tidy := by
  obtain ⟨b, hreset⟩ := FragBuffer.reset_returns ⟨stale, ⟨s.nodes, 0, 0xFFFF, 0xFFFF, 0⟩⟩
    (show 10000 / 40 ≤ 0xFFFF by decide) (by decide)
  refine ⟨⟨20000, false, b⟩, ?_, rfl, FragBuffer.Tidy.of_reset (by decide) hreset⟩
  rw [fresh, hreset]
  rfl

section

variable (hs : s.buffers.Sound)

include hs

theorem Meets.unique {it' : Nat} {w w' : ReassemblyBuffer} (h : s.Meets stale ident it w)
    (h' : s.Meets stale ident it' w') : w = w' := by
  cases h with
  | held he =>
    cases h' with
    | held he' =>
      have hslot : it = it' := hs.distinct _ _ _ _ he he' rfl
      rw [hslot, he'] at he
      cases he
      rfl
    | fresh _ habsent _ => exact absurd ⟨_, _, he⟩ habsent
  | fresh _ habsent hnew =>
    cases h' with
    | held he' => exact absurd ⟨_, _, he'⟩ habsent
    | fresh _ _ hnew' =>
      rw [hnew] at hnew'
      cases hnew'
      rfl

theorem locate_meets (hroom : s.buffers.full = false) (stale : Bytes) (ident : Identifier) :
    ∃ s1 it v, s.locate stale ident = .ok (s1, it) ∧ s.Meets stale ident it (v.over s1.nodes) ∧
      s1.buffers.Sound ∧ s1.buffers.entry it = some ⟨ident, v⟩ ∧
      (∀ j, j ≠ it → s1.buffers.entry j = s.buffers.entry j) ∧
      s1.proto = { s.proto with reassemblyBuffers := s1.buffers } ∧
      (∀ j, j ≠ it → s1.own j = s.own j) ∧
      (¬ s.buffers.Contains ident → s1.own it = v.over s1.nodes) := by
  unfold locate
  rcases find_spec hs.wf ident with ⟨it, v, he, hfind⟩ | ⟨habsent, hfind⟩
  · exact ⟨s, it, v, by rw [hfind]; rfl, .held he, hs, he, fun _ _ => rfl, rfl, fun _ _ => rfl,
      fun habsent => absurd ⟨it, v, he⟩ habsent⟩
  · obtain ⟨w, hnew, _⟩ := s.fresh_orderly stale
    obtain ⟨m, it, hlocate, hwf, hfree, hl⟩ :=
      Protocol.locate_absent hs.wf hroom habsent (rfl : Except.ok w = _)
    refine ⟨⟨{ s.proto with reassemblyBuffers := m }, w.data.holes.nodes, storeAt s.own it w⟩, it,
      w, ?_, .fresh hfree habsent hnew, hs.fill hwf habsent hl, ?_, ?_, rfl,
      fun j hj => storeAt_ne _ _ hj, fun _ => storeAt_self _ _ _⟩
    · rw [hfind, ok_bind]
      simp only
      rw [hnew, ok_bind, hlocate]
      rfl
    · exact (hl it).trans (if_pos rfl)
    · intro j hj
      exact (hl j).trans (if_neg hj)

/-- A fragment, when there is a free slot. -/
theorem reassemble_outcome (hroom : s.buffers.full = false) (stale : Bytes) (pkt : Packet) :
    ∃ it w, s.Meets stale pkt.ident it w ∧
      ((∃ e, Protocol.outcome w pkt = .error e ∧ s.reassemble stale pkt = .error e) ∨
        ∃ slot out d s', Protocol.outcome w pkt = .ok (slot, out) ∧
          Protocol.store w pkt = .ok d ∧ s.reassemble stale pkt = .ok (s', out) ∧
          s'.nodes = d.holes.nodes ∧ s'.buffers.Sound ∧
          (∀ j, s'.buffers.entry j
            = if j = it then slot.map (Entry.mk pkt.ident) else s.buffers.entry j) ∧
          s'.proto = { s.proto with reassemblyBuffers := s'.buffers } ∧
          (∀ j, j ≠ it → s'.own j = s.own j) ∧
          (¬ s.buffers.Contains pkt.ident → s'.own it = w.given pkt)) := by
  obtain ⟨s1, it, v, hlocate, hmeets, hs1, he, hothers, hproto, hown, hnew⟩ :=
    locate_meets hs hroom stale pkt.ident
  refine ⟨it, _, hmeets, ?_⟩
  have hcall : s.reassemble stale pkt = s1.addFragment it pkt := by
    unfold reassemble
    rw [if_neg (by simp [hroom]), hlocate]
    rfl
  obtain ⟨m1, hset, hwf1, hl1⟩ := setValue_spec hs1.wf he (v.over s1.nodes)
  have he1 : m1.entry it = some ⟨pkt.ident, v.over s1.nodes⟩ := by rw [hl1, if_pos rfl]
  have hm1 := hs1.assign hwf1 he hl1
  unfold addFragment at hcall
  rw [value_of_entry he, ok_bind] at hcall
  rw [hcall]
  cases hstore : Protocol.store (v.over s1.nodes) pkt with
  | error e =>
    left
    refine ⟨e, ?_, rfl⟩
    unfold Protocol.outcome
    rw [hstore]
    rfl
  | ok d =>
    rw [ok_bind, hset, ok_bind]
    cases hadd : Protocol.addFragment m1 it pkt with
    | error e =>
      left
      cases hout : Protocol.outcome (v.over s1.nodes) pkt with
      | error e' =>
        rw [Protocol.addFragment_fails hwf1 he1 hout] at hadd
        cases hadd
        exact ⟨e, rfl, rfl⟩
      | ok r =>
        obtain ⟨m', hadd', _⟩ := Protocol.addFragment_spec hwf1 he1 hout
        rw [hadd'] at hadd
        cases hadd
    | ok r =>
      obtain ⟨slot, hout, hm', hl⟩ := Protocol.addFragment_ok hm1 he1 hadd
      refine .inr ⟨slot, r.2, d, _, hout, rfl, rfl, rfl, hm', ?_, ?_, ?_, ?_⟩
      · intro j
        show r.1.entry j = _
        rw [hl]
        by_cases hj : j = it
        · rw [if_pos hj, if_pos hj]
        · rw [if_neg hj, if_neg hj, hl1, if_neg hj, hothers j hj]
      · show { s1.proto with reassemblyBuffers := r.1 } = _
        rw [hproto]
      · intro j hj
        exact (storeAt_ne _ _ hj).trans (hown j hj)
      · intro habsent
        show storeAt _ _ _ it = _
        rw [storeAt_self, hnew habsent]

/-! ## Runs -/

theorem onReceive_ok (h : s.onReceive tcp stale data length = .ok (s', out)) :
    s'.buffers.Sound ∧ s'.proto = { s.proto with reassemblyBuffers := s'.buffers } := by
  rw [onReceive, bind_ok] at h
  obtain ⟨examined, _, h⟩ := h
  cases examined with
  | none =>
    cases h
    exact ⟨hs, rfl⟩
  | some pkt =>
    obtain ⟨r, hway, h⟩ := bind_ok.mp h
    obtain ⟨_, _, h⟩ := bind_ok.mp h
    cases h
    unfold handle at hway
    split at hway
    · cases hway
      exact ⟨hs, rfl⟩
    cases hfull : s.buffers.full with
    | true =>
      rw [reassemble_full _ hfull] at hway
      cases hway
      exact ⟨hs, rfl⟩
    | false =>
      obtain ⟨it, w, _, ⟨e, _, herror⟩ | ⟨slot, out', d, s1, _, _, hok, _, hs1, _, hproto, _⟩⟩ :=
        reassemble_outcome hs hfull _ pkt
      · rw [herror] at hway
        cases hway
      · rw [hok] at hway
        cases hway
        exact ⟨hs1, hproto⟩

theorem Step.sound (h : Step s s') : s'.buffers.Sound := by
  cases h with
  | receive hcall => exact (onReceive_ok hs hcall).1
  | tick hcall => exact Protocol.Step.sound hs (.tick hcall)
  | configure => exact hs
  | send hcall => exact Protocol.Step.sound hs (.send hcall)
  | reuse => exact hs

end

theorem Reachable.sound (h : Reachable s) : s.buffers.Sound := by
  induction h with
  | init hinit =>
    obtain ⟨localAddr, netmask, gateway, nodes, own, rfl⟩ := hinit
    exact UnorderedMap.Sound.blank (by decide)
  | step _ hstep ih => exact hstep.sound ih

/-- A TCP that accepts everything. -/
def quiet : DatagramMetadata → List UInt8 → Checked Unit := fun _ _ => .ok ()

def zeros : Bytes := fun _ => 0

/-- The protocol with the address 10.0.2.15/24, before its first packet. -/
def host : Shared :=
  ⟨.blank 0x0A00020F 0xFFFFFF00 0x0A000202, fun _ => ⟨0xFFFF, 0xFFFF, none⟩,
    fun _ => ⟨20000, false, ⟨zeros, .blank⟩⟩⟩

theorem host_reachable : Reachable host := .init ⟨_, _, _, _, _, rfl⟩

end Shared

end Peos2.Ipv4
