/-
  Tcp.Definitions — flags, sequence numbers, headers and endpoints
  (`libraries/net/tcp/definitions.h`, `libraries/net/ipv4/definitions.h`).

  Header fields are kept in host byte order: `protocol::on_receive` converts
  a header when it arrives and `connection::send` when it leaves.
-/
import Mathlib.Tactic.Common

namespace Peos2.Tcp

/-- `net::tcp::sequence_number` -/
abbrev SequenceNumber := UInt32

/-- `net::ipv4::address` -/
abbrev Address := UInt32

/-! ## Flags -/

def FIN : UInt16 := 0x0001
def SYN : UInt16 := 0x0002
def ACK : UInt16 := 0x0010

/-- `flags & bit`, read as a condition. -/
def hasFlag (flags bit : UInt16) : Bool := flags &&& bit != 0

/-! ## Headers and metadata -/

/-- `net::tcp::header` -/
structure Header where
  srcPort : UInt16
  destPort : UInt16
  seqNbr : SequenceNumber
  ackNbr : SequenceNumber
  flagsHdrsz : UInt16
  wndsz : UInt16
  checksum : UInt16
  urgptr : UInt16
  deriving Repr, DecidableEq

/-- `net::ipv4::datagram_metadata` -/
structure DatagramMetadata where
  srcAddr : Address
  destAddr : Address
  deriving Repr, DecidableEq

/-- `net::tcp::segment_metadata` -/
structure SegmentMetadata where
  tcpHeader : Header
  datagram : DatagramMetadata
  flags : UInt16
  deriving Repr, DecidableEq

/-- `net::tcp::endpoint` -/
structure Endpoint where
  ipaddr : Address
  port : UInt16
  deriving Repr, DecidableEq

/-- `endpoint::wildcard` -/
def Endpoint.wildcard : Endpoint := ⟨0, 0⟩

end Peos2.Tcp
