/-
  Arp.Protocol — `net::arp::protocol_impl` and `mapping_table`
  (`libraries/net/arp/protocol.{h,cc}`, `definitions.h`).

  A table remembers the last 64 replies. Whoever needs another address passes a
  callback to `fetch_network`; it waits in the probe of that address, which sends
  requests until a reply comes in or it gives up.

  The callbacks are a parameter `κ`. A function returns the messages it has sent
  and the callbacks it has invoked, in order. Storing a probe in the map copies it
  by value. `overflow` is what becomes of an `int` out of range (see `Retryable`).

  Main result: `fetch_latest_insert`.
-/
import Peos2.Net.Retryable
import Peos2.Net.Stack

namespace Peos2.Arp

open Peos2.Lib Peos2.Support List Queue
open Peos2.Tcp (Address)
open Peos2.Net (EtherType FrameMetadata Retryable)

/-! ## Definitions -/

/-- The six octets of a `net::ethernet::address`. -/
abbrev HwAddr := List UInt8

/-- `wildcard_address()` -/
def wildcardAddress : HwAddr := [0, 0, 0, 0, 0, 0]

/-- `broadcast_address()` -/
def broadcastAddress : HwAddr := [255, 255, 255, 255, 255, 255]

/-- `net::arp::op` -/
inductive Op where
  | REQUEST
  | REPLY
  deriving Repr, DecidableEq

def Op.value : Op → UInt16
  | .REQUEST => 1
  | .REPLY => 2

/-- `net::arp::header` -/
structure Header where
  htype : UInt16
  ptype : UInt16
  hlen : UInt8
  plen : UInt8
  oper : UInt16
  sha : HwAddr
  spa : Address
  tha : HwAddr
  tpa : Address
  deriving Repr, DecidableEq

def Header.ofBytes (data : Bytes) : Header where
  htype := Net.field16 data 0
  ptype := Net.field16 data 2
  hlen := data 4
  plen := data 5
  oper := Net.field16 data 6
  sha := (Net.advance data 8).first 6
  spa := Net.field32 data 14
  tha := (Net.advance data 18).first 6
  tpa := Net.field32 data 24

def Header.bytes (hdr : Header) : List UInt8 :=
  Net.be16 hdr.htype ++ Net.be16 hdr.ptype ++ [hdr.hlen, hdr.plen] ++ Net.be16 hdr.oper
    ++ hdr.sha ++ Net.be32 hdr.spa ++ hdr.tha ++ Net.be32 hdr.tpa

/-- `mapping_table::cache_entry` -/
structure CacheEntry where
  ipaddr : Address
  hwaddr : HwAddr
  deriving Repr, DecidableEq

/-- `net::arp::mapping_table` -/
structure MappingTable where
  entries : Queue CacheEntry 64

/-- What the stack tells ARP about the host: `ethernet().hwaddr()` and
`ipv4().local_address()`. -/
structure Host where
  hwaddr : HwAddr
  localAddress : Address

inductive Effect (κ : Type) where
  /-- `ethernet().send(ET_ARP, next_hop, ...)` -/
  | sent (nextHop : HwAddr) (frame : List UInt8)
  /-- `callback(result)` -/
  | invoked (callback : κ) (result : Option HwAddr)
  deriving Repr, DecidableEq

/-- `net::arp::protocol_impl`; the operation of a probe sends a request for the
address it is given by. -/
structure Protocol (κ : Type) where
  mappings : MappingTable
  activeProbes : UnorderedMap Address (Retryable Address κ) 32

variable {κ : Type}

/-! ## The mapping table -/

namespace MappingTable

/-- `void insert(net::ipv4::address ipaddr, net::ethernet::address hwaddr)` -/
def insert (t : MappingTable) (ipaddr : Address) (hwaddr : HwAddr) : Checked MappingTable := do
  let entries ← if t.entries.full then (do
      let (_, entries) ← t.entries.popFront
      .ok entries) else .ok t.entries
  let (_, entries) ← entries.pushBack ⟨ipaddr, hwaddr⟩
  .ok ⟨entries⟩

/-- The loop of `fetch` with the index at `index` and as many entries to go as
the first argument says. -/
def fetchFrom (t : MappingTable) (ipaddr : Address) :
    Nat → Int → Option HwAddr → Checked (Option HwAddr)
  | 0, _, latestValue => .ok latestValue
  | n + 1, index, latestValue => do
      let entry ← t.entries.index index
      fetchFrom t ipaddr n (index + 1)
        (if entry.ipaddr = ipaddr then some entry.hwaddr else latestValue)

/-- `const net::ethernet::address *fetch(net::ipv4::address ipaddr) const` -/
def fetch (t : MappingTable) (ipaddr : Address) : Checked (Option HwAddr) :=
  t.fetchFrom ipaddr t.entries.size.toNat t.entries.begin none

/-- The address the newest entry for `ipaddr` gives. -/
def latest (ipaddr : Address) (entries : List CacheEntry) : Option HwAddr :=
  (entries.reverse.find? fun entry => entry.ipaddr = ipaddr).map CacheEntry.hwaddr

theorem latest_append (ipaddr : Address) (entries : List CacheEntry) (entry : CacheEntry) :
    latest ipaddr (entries ++ [entry])
      = if entry.ipaddr = ipaddr then some entry.hwaddr else latest ipaddr entries := by
  unfold latest
  by_cases h : entry.ipaddr = ipaddr <;> simp [h]

variable {t : MappingTable}

theorem fetchFrom_spec (hwf : t.entries.WF) (ipaddr : Address) :
    ∀ (rest done : List CacheEntry), t.entries.contents = done ++ rest →
      t.fetchFrom ipaddr rest.length (t.entries.readIdx + done.length) (latest ipaddr done)
        = .ok (latest ipaddr t.entries.contents) := by
  intro rest
  induction rest with
  | nil =>
    intro done hc
    rw [hc, append_nil]
    rfl
  | cons entry rest ih =>
    intro done hc
    have hat : t.entries.contents[done.length]? = some entry := by rw [hc]; simp
    show (do
      let e ← t.entries.index (t.entries.readIdx + (done.length : Int))
      t.fetchFrom ipaddr rest.length (t.entries.readIdx + done.length + 1)
        (if e.ipaddr = ipaddr then some e.hwaddr else latest ipaddr done)) = _
    rw [index_spec hwf hat, ok_bind, ← latest_append]
    have hnext := ih (done ++ [entry]) (by rw [hc, append_assoc, singleton_append])
    rw [length_append] at hnext
    rw [show t.entries.readIdx + (done.length : Int) + 1
      = t.entries.readIdx + ((done.length + 1 : Nat) : Int) by omega]
    exact hnext

theorem fetch_spec (hwf : t.entries.WF) (ipaddr : Address) :
    t.fetch ipaddr = .ok (latest ipaddr t.entries.contents) := by
  have hall := fetchFrom_spec hwf ipaddr t.entries.contents [] rfl
  rw [length_contents] at hall
  unfold fetch begin
  rw [show t.entries.readIdx = t.entries.readIdx + ((0 : Nat) : Int) by omega]
  exact hall

def newest (entries : List CacheEntry) : List CacheEntry := entries.drop (entries.length - 64)

theorem newest_of_le {entries : List CacheEntry} (h : entries.length ≤ 64) :
    newest entries = entries := by
  rw [newest, Nat.sub_eq_zero_of_le h, drop_zero]

theorem newest_append (entries : List CacheEntry) (entry : CacheEntry) :
    newest (newest entries ++ [entry]) = newest (entries ++ [entry]) := by
  have hlength : (newest entries).length = min entries.length 64 := by
    rw [newest, length_drop]
    omega
  rcases Nat.lt_or_ge entries.length 64 with _ | _
  · rw [newest_of_le (show entries.length ≤ 64 by omega)]
  have hfull : (newest entries ++ [entry]).length - 64 = 1 := by
    rw [length_append, length_singleton]
    omega
  have hall : (entries ++ [entry]).length - 64 = entries.length - 64 + 1 := by
    rw [length_append, length_singleton]
    omega
  have hfirst : newest entries ++ [entry] = (entries ++ [entry]).drop (entries.length - 64) := by
    rw [drop_append_of_le_length (by omega), newest]
  unfold newest at hfull ⊢
  rw [hfull, hall]
  unfold newest at hfirst
  rw [hfirst, drop_drop]

/-- `insert` appends the entry and keeps the last 64. -/
theorem insert_newest (hwf : t.entries.WF) (ipaddr : Address) (hwaddr : HwAddr) :
    ∃ t', t.insert ipaddr hwaddr = .ok t' ∧ t'.entries.WF ∧
      t'.entries.contents = newest (t.entries.contents ++ [⟨ipaddr, hwaddr⟩]) := by
  have hsize := hwf.size_eq
  have hle := hwf.length_le
  have hfull : t.entries.full = true ↔ t.entries.contents.length = 64 := by
    unfold full
    rw [beq_iff_eq]
    omega
  unfold insert
  by_cases hf : t.entries.full = true
  · -- the oldest entry makes room
    have hlen := hfull.mp hf
    cases hc : t.entries.contents with
    | nil =>
      rw [hc] at hlen
      cases hlen
    | cons oldest kept =>
      obtain ⟨q, hpop, hq, hqc⟩ := popFront_spec hwf hc
      rw [hc, length_cons] at hlen
      obtain ⟨q', hpush, hq', hqc'⟩ := pushBack_spec hq
        (by rw [hqc]; omega) (⟨ipaddr, hwaddr⟩ : CacheEntry)
      have hdrop : (oldest :: kept ++ [(⟨ipaddr, hwaddr⟩ : CacheEntry)]).length - 64 = 1 := by
        rw [length_append, length_cons, length_singleton]
        omega
      refine ⟨⟨q'⟩, ?_, hq', ?_⟩
      · rw [if_pos hf, hpop, ok_bind]
        simp only [ok_bind]
        rw [hpush, ok_bind]
      · rw [newest, hdrop, cons_append, drop_one, ← hqc]
        exact hqc'
  · have hlen : t.entries.contents.length < 64 := by
      have := mt hfull.mpr hf
      omega
    obtain ⟨q', hpush, hq', hqc'⟩ := pushBack_spec hwf hlen (⟨ipaddr, hwaddr⟩ : CacheEntry)
    refine ⟨⟨q'⟩, ?_, hq', ?_⟩
    · rw [if_neg hf]
      simp only [ok_bind]
      rw [hpush, ok_bind]
    · rw [newest_of_le (by rw [length_append, length_singleton]; omega)]
      exact hqc'

theorem insert_spec (hwf : t.entries.WF) (ipaddr : Address) (hwaddr : HwAddr) :
    ∃ t' kept, t.insert ipaddr hwaddr = .ok t' ∧ t'.entries.WF ∧
      kept <:+ t.entries.contents ∧ t'.entries.contents = kept ++ [⟨ipaddr, hwaddr⟩] := by
  obtain ⟨t', hcall, hwf', hcontents⟩ := insert_newest hwf ipaddr hwaddr
  refine ⟨t', t.entries.contents.drop (t.entries.contents.length + 1 - 64), hcall, hwf',
    drop_suffix _ _, ?_⟩
  rw [hcontents, newest, length_append, length_singleton, drop_append_of_le_length (by omega)]

theorem foldlM_insert : ∀ (inserts before : List CacheEntry) {t : MappingTable},
    t.entries.WF → t.entries.contents = newest before →
    ∃ t', inserts.foldlM (fun t entry => t.insert entry.ipaddr entry.hwaddr) t = .ok t'
      ∧ t'.entries.WF ∧ t'.entries.contents = newest (before ++ inserts) := by
  intro inserts
  induction inserts with
  | nil =>
    intro before t hwf hcontents
    exact ⟨t, rfl, hwf, by rw [append_nil]; exact hcontents⟩
  | cons entry rest ih =>
    intro before t hwf hcontents
    obtain ⟨t1, hcall, hwf1, hcontents1⟩ := insert_newest hwf entry.ipaddr entry.hwaddr
    rw [hcontents, newest_append] at hcontents1
    obtain ⟨t', hrest, hwf', hcontents'⟩ := ih (before ++ [entry]) hwf1 hcontents1
    refine ⟨t', ?_, hwf', by rw [hcontents', append_assoc, singleton_append]⟩
    rw [foldlM_cons, hcall, ok_bind]
    exact hrest

/-- **The table is a cache of the last 64 inserts in which the latest wins.** Whatever a new
table holds and whatever is inserted, `fetch` returns the address of the latest insert for
`ipaddr` among the last 64, and null if there is none. -/
theorem fetch_latest_insert (items : Nat → CacheEntry) (inserts : List CacheEntry) :
    ∃ t, inserts.foldlM (fun t entry => insert t entry.ipaddr entry.hwaddr) ⟨⟨items, 0, 0⟩⟩ = .ok t
      ∧ ∀ ipaddr, t.fetch ipaddr = .ok (latest ipaddr (newest inserts)) := by
  obtain ⟨t, hrun, hwf, hcontents⟩ := foldlM_insert inserts [] (t := ⟨⟨items, 0, 0⟩⟩)
    (clear_wf ⟨items, 0, 0⟩) (contents_clear ⟨items, 0, 0⟩)
  refine ⟨t, hrun, fun ipaddr => ?_⟩
  rw [fetch_spec hwf, hcontents, nil_append]

end MappingTable

/-! ## The protocol -/

/-- `int send(int op, tpa, tha, next_hop)` -/
def Host.send (host : Host) (op : Op) (tpa : Address) (tha nextHop : HwAddr) : Effect κ :=
  .sent nextHop (Header.bytes
    { htype := 1, ptype := EtherType.IPV4.value, hlen := 6, plen := 4, oper := op.value
      sha := host.hwaddr, spa := host.localAddress, tha, tpa })

/-- What the operation of a probe for `ipaddr` does. -/
def Host.request (host : Host) (ipaddr : Address) : Effect κ :=
  host.send .REQUEST ipaddr wildcardAddress broadcastAddress

namespace Protocol

def invocations (calls : List (κ × Option HwAddr)) : List (Effect κ) :=
  calls.map fun call => .invoked call.1 call.2

/-- `ipv4_lookup_result fetch_cached(net::ipv4::address ipaddr) const` -/
def fetchCached (p : Protocol κ) (ipaddr : Address) : Checked (Option HwAddr) :=
  p.mappings.fetch ipaddr

/-- `void write_cache_entry(net::ipv4::address ipaddr, net::ethernet::address hwaddr)` -/
def writeCacheEntry (p : Protocol κ) (ipaddr : Address) (hwaddr : HwAddr) :
    Checked (Protocol κ × List (Effect κ)) := do
  let mappings ← p.mappings.insert ipaddr hwaddr
  match ← p.activeProbes.find ipaddr with
  | none => .ok ({ p with mappings }, [])
  | some probeIt =>
    let probe ← p.activeProbes.value probeIt
    let calls ← probe.notifyAll (some hwaddr)
    let activeProbes ← p.activeProbes.erase probeIt
    .ok (⟨mappings, activeProbes⟩, invocations calls)

/-- `void on_receive(const net::ethernet::frame_metadata &metadata, const char *data,
size_t length)` -/
def onReceive (host : Host) (p : Protocol κ) (metadata : FrameMetadata) (data : Bytes)
    (length : UInt32) : Checked (Protocol κ × List (Effect κ)) := do
  check (length ≥ 28) "length >= sizeof(hdr)"
  let hdr := Header.ofBytes data
  if hdr.htype ≠ 1 ∨ hdr.ptype ≠ EtherType.IPV4.value then .ok (p, [])
  else if hdr.hlen ≠ 6 ∨ hdr.plen ≠ 4 then .ok (p, [])
  else if host.hwaddr = hdr.sha then .ok (p, [])
  else if hdr.oper = Op.REQUEST.value then
    if hdr.tpa = host.localAddress then
      .ok (p, [host.send .REPLY hdr.spa hdr.sha metadata.macSrc])
    else .ok (p, [])
  else if hdr.oper = Op.REPLY.value then p.writeCacheEntry hdr.spa hdr.sha
  else .ok (p, [])

/-- `void fetch_network(net::ipv4::address ipaddr, probe::await_fun callback)` -/
def fetchNetwork (overflow : Int → Checked Int) (host : Host) (p : Protocol κ)
    (ipaddr : Address) (callback : κ) : Checked (Protocol κ × List (Effect κ)) := do
  match ← p.mappings.fetch ipaddr with
  | some address => .ok (p, [.invoked callback (some address)])
  | none =>
    match ← p.activeProbes.find ipaddr with
    | some it =>
      let probe ← p.activeProbes.value it
      let probe ← probe.reset.await callback
      let activeProbes ← p.activeProbes.setValue it probe
      .ok ({ p with activeProbes }, [])
    | none =>
      let (_, probes) ← p.activeProbes.insert ipaddr (.new ipaddr)
      match ← probes.find ipaddr with
      | none => .error (.assertion "probe_it != _active_probes.end()")
      | some probeIt =>
        let probe ← probes.value probeIt
        let probe ← probe.await callback
        let (_, called, probe) ← probe.tick overflow 0
        let activeProbes ← probes.setValue probeIt probe
        .ok ({ p with activeProbes }, called.toList.map host.request)

/-- The loop of `tick` with the iterator at slot `it`. `end()` is the watermark at that moment:
erasing the topmost probe moves it down to `it`, so that `++it` steps over it and comes round
again. -/
def tickFrom (overflow : Int → Checked Int) (host : Host) (deltaMs : UInt32) :
    Nat → Nat → Protocol κ → Checked (Protocol κ × List (Effect κ))
  | 0, _, _ => .error .outOfFuel
  | fuel + 1, it, p =>
    if it = p.activeProbes.storage.watermark then .ok (p, [])
    else do
      let probe ← p.activeProbes.value it
      let (alive, called, probe) ← probe.tick overflow (signed deltaMs)
      let activeProbes ← p.activeProbes.setValue it probe
      if alive then
        let (p, effects) ← tickFrom overflow host deltaMs fuel (activeProbes.storage.next it)
          { p with activeProbes }
        .ok (p, called.toList.map host.request ++ effects)
      else
        let calls ← probe.notifyAll none
        let activeProbes ← activeProbes.erase it
        let (p, effects) ← tickFrom overflow host deltaMs fuel (activeProbes.storage.next it)
          { p with activeProbes }
        .ok (p, invocations calls ++ effects)

/-- `void tick(uint32_t delta_ms)`. Each of the at most 32 probes can send the
loop round once more, so it ends within 33 rounds of 33 steps. -/
def tick (overflow : Int → Checked Int) (host : Host) (p : Protocol κ) (deltaMs : UInt32) :
    Checked (Protocol κ × List (Effect κ)) :=
  let storage := p.activeProbes.storage
  tickFrom overflow host deltaMs (33 * 33) (storage.jumpToValid storage.watermark 0) p

end Protocol

end Peos2.Arp
