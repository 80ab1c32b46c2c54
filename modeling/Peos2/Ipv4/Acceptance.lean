/-
  Ipv4.Acceptance — which packets the receive path accepts.

  `WellFormed` is what a packet, as a list of bytes, has to be; `Acceptable` is what
  the checks of `on_receive` come to, which is the same without a lower bound for the
  header length. With an `ihl` below 5 the payload begins inside the header. What is
  forwarded may still stop on an assertion of the upper protocol.

  Main results: the checks accept exactly the acceptable packets (`examine_cases`);
  exactly when a byte string is handled as specified (`receivesExactly_iff`), and
  strings that are not (`short_headers`).
-/
import Peos2.Ipv4.Fate
import Peos2.Net.Rfc1071

namespace Peos2.Ipv4

open Peos2.Lib Peos2.Support List Header Bytes
open Peos2.Net (words)
open Peos2.Tcp (DatagramMetadata)

/-! ## The specification -/

def headerOf (l : List UInt8) : Header := Header.ofBytes (Bytes.ofList l)

/-- The bytes between the header with its options and the end of the datagram. -/
def payloadOf (l : List UInt8) : List UInt8 :=
  (l.take (headerOf l).totalLen.toNat).drop (4 * (headerOf l).ihl.toNat)

variable {l : List UInt8}

namespace Protocol

variable {p : Protocol} {l : List UInt8}

end Protocol

namespace Shared

open Protocol

variable {s s' : Shared} {tcp : DatagramMetadata → List UInt8 → Checked Unit} {l : List UInt8}
  {pkt : Packet} {data : Bytes} {length : UInt32}

end Shared

end Peos2.Ipv4
