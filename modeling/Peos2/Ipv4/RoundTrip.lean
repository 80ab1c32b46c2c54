/-
  Ipv4.RoundTrip — what `send_single_datagram` builds, `on_receive`
  takes apart.

  Both sides compute the checksum over the header as it lies in memory, with
  the checksum field 0, so they agree on it whatever it comes to.

  Main result: `onReceive_sent`.
-/
import Peos2.Ipv4.Protocol

namespace Peos2.Ipv4

open Peos2.Lib Peos2.Support
open Peos2.Tcp (Address DatagramMetadata)

/-! ## The header -/

@[simp] theorem Header.length_bytes (hdr : Header) : hdr.bytes.length = 20 := rfl

theorem nibbles (low high : Fin 16) :
    (UInt8.ofNat low ||| (UInt8.ofNat high <<< 4)) &&& 0x0F = UInt8.ofNat low ∧
      (UInt8.ofNat low ||| (UInt8.ofNat high <<< 4)) >>> 4 = UInt8.ofNat high := by
  revert low high
  decide

theorem Header.ofBytes_bytes (hdr : Header) (hihl : hdr.ihl.toNat < 16)
    (hversion : hdr.version.toNat < 16) (rest : List UInt8) :
    Header.ofBytes (Bytes.ofList (hdr.bytes ++ rest)) = hdr := by
  have hhalves := nibbles ⟨hdr.ihl.toNat, hihl⟩ ⟨hdr.version.toNat, hversion⟩
  simp only [UInt8.ofNat_toNat] at hhalves
  apply Header.ext
  · exact hhalves.1
  · exact hhalves.2
  · rfl
  · exact Net.field16_be16 rfl rfl
  · exact Net.field16_be16 rfl rfl
  · exact Net.field16_be16 rfl rfl
  · rfl
  · rfl
  · exact Net.field16_be16 rfl rfl
  · exact Net.field32_be32 rfl rfl rfl rfl
  · exact Net.field32_be32 rfl rfl rfl rfl

theorem Header.payload_bytes (hdr : Header) (payload : List UInt8) :
    (Net.advance (Bytes.ofList (hdr.bytes ++ payload)) 20).first payload.length = payload :=
  Net.first_advance_ofList hdr.bytes payload

/-! ## A packet without options -/

def Header.seal (hdr : Header) : Header := hdr.withChecksum (Net.swap16 (hdr.sum []))

/-- A header of five words whose length field covers it and the payload. -/
structure Header.Plain (hdr : Header) (size : Nat) : Prop where
  ihl : hdr.ihl = 5
  version : hdr.version = 4
  ttl : hdr.ttl ≠ 0
  checksum : hdr.checksum = 0
  small : 1 ≤ size ∧ size ≤ 65515
  totalLen : hdr.totalLen.toNat = 20 + size

/-- A header with these fields, and nothing special in the others. -/
def plainHeader (id fragOfs : UInt16) (protocol : UInt8) (srcAddr destAddr : Address)
    (size : Nat) : Header where
  ihl := 5
  version := 4
  ecnDscp := 0
  totalLen := UInt16.ofNat (20 + size)
  id := id
  fragOfs := fragOfs
  ttl := 64
  protocol := protocol
  checksum := 0
  srcAddr := srcAddr
  destAddr := destAddr

theorem plainHeader_plain {id fragOfs : UInt16} {protocol : UInt8} {srcAddr destAddr : Address}
    {size : Nat} (hsmall : 1 ≤ size ∧ size ≤ 65515) :
    (plainHeader id fragOfs protocol srcAddr destAddr size).Plain size := by
  refine ⟨rfl, rfl, ?_, rfl, hsmall, ?_⟩
  · show (64 : UInt8) ≠ 0
    decide
  · show (20 + size) % 65536 = 20 + size
    omega

theorem Header.Plain.examine {hdr : Header} {payload : List UInt8}
    (h : hdr.Plain payload.length) {q : Protocol} (hrecipient : q.isRecipient hdr.destAddr = true) :
    q.examine (Bytes.ofList (hdr.seal.bytes ++ payload))
        (UInt32.ofNat (hdr.seal.bytes ++ payload).length)
      = .ok (some ⟨hdr.id, hdr.fragOfs, hdr.protocol, hdr.srcAddr, hdr.destAddr,
          Net.advance (Bytes.ofList (hdr.seal.bytes ++ payload)) 20,
          UInt32.ofNat payload.length⟩) := by
  obtain ⟨_, _⟩ := h.small
  have hlength : (hdr.seal.bytes ++ payload).length = 20 + payload.length := List.length_append
  have htotal : (UInt32.ofNat (20 + payload.length)).toNat = 20 + payload.length :=
    toNat_ofNat_lt (by omega)
  have hread : Header.ofBytes (Bytes.ofList (hdr.seal.bytes ++ payload)) = hdr.seal := by
    apply Header.ofBytes_bytes
    · show hdr.ihl.toNat < 16
      rw [h.ihl]
      decide
    · show hdr.version.toNat < 16
      rw [h.version]
      decide
  have hwords : hdr.seal.headerLength = 20 := by
    show hdr.ihl.toUInt32 * 4 = 20
    rw [h.ihl]
    decide
  have hfield : hdr.seal.totalLen.toUInt32 = UInt32.ofNat (20 + payload.length) := by
    rw [eq_iff_toNat, htotal]
    exact h.totalLen
  have hoptions : hdr.seal.options (Bytes.ofList (hdr.seal.bytes ++ payload)) = [] := by
    unfold Header.options
    rw [hwords]
    rfl
  have hzero : hdr.seal.withChecksum 0 = hdr := by
    apply Header.ext
    all_goals first
      | rfl
      | exact h.checksum.symm
  have hpayload : UInt32.ofNat (20 + payload.length) - 20 = UInt32.ofNat payload.length := by
    rw [UInt32.ofNat_add, UInt32.add_comm]
    exact UInt32.add_sub_cancel _ _
  have hlong : UInt32.ofNat (20 + payload.length) > 20 := by
    rw [gt_iff_lt, lt_iff_toNat, htotal]
    show 20 < 20 + payload.length
    omega
  have hcovers : ¬ hdr.seal.totalLen.toUInt32 < hdr.seal.headerLength := by
    rw [hwords, hfield, lt_iff_toNat, htotal]
    show ¬ 20 + payload.length < 20
    omega
  have hwithin : ¬ hdr.seal.totalLen.toUInt32 > UInt32.ofNat (20 + payload.length) := by
    rw [hfield, gt_iff_lt, lt_iff_toNat]
    exact Nat.lt_irrefl _
  rw [hlength, Protocol.examine_accepts hread hlong h.version (by rw [hwords]; decide) hcovers
    hwithin h.ttl (by rw [hzero, hoptions]; exact checksum_eq [] h.checksum) rfl hrecipient]
  unfold Header.packet
  rw [hfield, hwords, hpayload, Std.min_self]
  rfl

/-! ## Sending and receiving -/

namespace Protocol

variable (p q : Protocol) (protocol : Proto) (srcAddr destAddr : Address) (data : Bytes)
  {length : UInt32}

theorem sendSingleDatagram_small (hlen : length ≤ 1480) :
    p.sendSingleDatagram protocol srcAddr destAddr data length
      = .ok ({ p with nextDatagramId := p.nextDatagramId + 1 },
          some ((p.outgoingHeader protocol srcAddr destAddr length).seal.bytes
            ++ data.first length.toNat)) := by
  have hlen' : length.toNat ≤ 1480 := hlen
  have hfits : ¬ 20 + length > 1500 := by
    show ¬ 1500 < (20 + length.toNat) % 4294967296
    omega
  have hsum : checksum (p.outgoingHeader protocol srcAddr destAddr length) [] = .ok _ :=
    checksum_eq [] rfl
  unfold sendSingleDatagram
  simp only [hsum, ok_bind]
  rw [if_neg hfits]
  rfl

theorem outgoingHeader_plain (hpos : 1 ≤ length) (hlen : length ≤ 1480) :
    (p.outgoingHeader protocol srcAddr destAddr length).Plain
      (data.first length.toNat).length := by
  have hpos' : 1 ≤ length.toNat := hpos
  have hlen' : length.toNat ≤ 1480 := hlen
  rw [Bytes.length_first]
  refine ⟨rfl, rfl, by show (65 : UInt8) ≠ 0; decide, rfl, by omega, ?_⟩
  show (20 + length).toNat % 65536 = _
  show (20 + length.toNat) % 4294967296 % 65536 = _
  omega

/-- **A datagram that fits a packet arrives as it was sent**: whatever its receiver is doing,
the packet passes the checks and its payload goes to its protocol. -/
theorem onReceive_sent (hpos : 1 ≤ length) (hlen : length ≤ 1480) (hq : q.localAddr = destAddr)
    (stale : Bytes) :
    ∃ p' packet, p.sendSingleDatagram protocol p.localAddr destAddr data length
        = .ok (p', some packet) ∧
      (∃ pkt, q.examine (Bytes.ofList packet) (UInt32.ofNat packet.length) = .ok (some pkt)) ∧
      q.onReceive stale (Bytes.ofList packet) (UInt32.ofNat packet.length)
        = .ok (q, [⟨⟨p.localAddr, destAddr⟩, protocol, data.first length.toNat⟩]) := by
  have hrecipient : q.isRecipient destAddr = true := by
    unfold isRecipient
    rw [hq, beq_self_eq_true, Bool.true_or]
  have hexamine := (p.outgoingHeader_plain protocol p.localAddr destAddr data hpos hlen).examine
    hrecipient
  refine ⟨_, _, p.sendSingleDatagram_small protocol p.localAddr destAddr data hlen,
    ⟨_, hexamine⟩, ?_⟩
  rw [onReceive_whole hexamine rfl]
  have hpayload := Header.payload_bytes
    (p.outgoingHeader protocol p.localAddr destAddr length).seal (data.first length.toNat)
  have hsize : (UInt32.ofNat (data.first length.toNat).length).toNat
      = (data.first length.toNat).length := by
    rw [Bytes.length_first]
    exact toNat_ofNat_lt length.toNat_lt
  simp only [hsize, hpayload]
  cases protocol <;> rfl

theorem onReceive_sent_query : ∃ p' packet,
    (blank 0x0A00020F 0xFFFFFF00 0x0A000202).sendSingleDatagram .UDP 0x0A00020F 0x0A000203
        (fun i => UInt8.ofNat i) 8 = .ok (p', some packet) ∧
      (∃ pkt, (blank 0x0A000203 0xFFFFFF00 0x0A000202).examine (Bytes.ofList packet)
        (UInt32.ofNat packet.length) = .ok (some pkt)) ∧
      (blank 0x0A000203 0xFFFFFF00 0x0A000202).onReceive (fun _ => 0) (Bytes.ofList packet)
          (UInt32.ofNat packet.length)
        = .ok (blank 0x0A000203 0xFFFFFF00 0x0A000202,
            [⟨⟨0x0A00020F, 0x0A000203⟩, .UDP, Bytes.first (fun i => UInt8.ofNat i) 8⟩]) :=
  onReceive_sent (blank 0x0A00020F 0xFFFFFF00 0x0A000202) (blank 0x0A000203 0xFFFFFF00 0x0A000202)
    .UDP 0x0A000203 (fun i => UInt8.ofNat i) (by decide) (by decide) rfl (fun _ => 0)

end Protocol

end Peos2.Ipv4
