/-
  Arp.Probes — what the functions of ARP do to the cache and the probes.

  The cache is the list of the last replies, and the probes are a function from
  addresses. Each function is described by what it changes of the two.
-/
import Peos2.Arp.Protocol

namespace Peos2.Arp.Protocol

open Peos2.Lib Peos2.Support List Pool UnorderedMap Header
open Peos2.Tcp (Address)
open Peos2.Net (EtherType FrameMetadata Retryable)

variable {κ : Type}

/-! ## The cache and the probes -/

def cached (p : Protocol κ) (ipaddr : Address) : Option HwAddr :=
  MappingTable.latest ipaddr p.mappings.entries.contents

def probe (p : Protocol κ) (ipaddr : Address) : Option (Retryable Address κ) :=
  p.activeProbes.lookup ipaddr

def waiters (p : Protocol κ) (ipaddr : Address) : List κ :=
  match p.probe ipaddr with
  | some r => r.waiters.values
  | none => []

def answers (effects : List (Effect κ)) : List (κ × Option HwAddr) :=
  effects.filterMap fun
    | .invoked callback result => some (callback, result)
    | .sent _ _ => none

/-- There is room for one more callback that waits for `ipaddr`: in its probe, or
for a new probe. -/
def hasRoom (p : Protocol κ) (ipaddr : Address) : Bool :=
  match p.probe ipaddr with
  | some r => !r.waiters.full
  | none => !p.activeProbes.full

/-- How many more callbacks can wait for `ipaddr`. -/
def slots (p : Protocol κ) (ipaddr : Address) : Nat :=
  match p.probe ipaddr with
  | some r => 32 - r.waiters.size
  | none => if p.activeProbes.full then 0 else 32

theorem hasRoom_iff_slots (p : Protocol κ) (ipaddr : Address) :
    p.hasRoom ipaddr = true ↔ 0 < p.slots ipaddr := by
  unfold hasRoom slots
  cases p.probe ipaddr with
  | some r =>
    simp only [Pool.full, Pool.size, Bool.not_eq_true', decide_eq_false_iff_not]
    omega
  | none => cases p.activeProbes.full <;> simp

structure Sound (p : Protocol κ) : Prop where
  entries : p.mappings.entries.WF
  probes : p.activeProbes.Sound
  waiters : ∀ ipaddr r, p.probe ipaddr = some r → r.waiters.WF

structure Constructed (p : Protocol κ) : Prop where
  readIdx : p.mappings.entries.readIdx = 0
  writeIdx : p.mappings.entries.writeIdx = 0
  activeProbes : p.activeProbes = .blank

variable {p p' : Protocol κ} {overflow : Int → Checked Int} {host : Host}

theorem Constructed.probe (h : p.Constructed) (ipaddr : Address) : p.probe ipaddr = none := by
  unfold Protocol.probe
  rw [h.activeProbes]
  exact lookup_blank (by decide) ipaddr

theorem Constructed.sound (h : p.Constructed) : p.Sound := by
  refine ⟨?_, ?_, ?_⟩
  · have hr := h.readIdx
    have hw := h.writeIdx
    constructor <;> omega
  · rw [h.activeProbes]
    exact UnorderedMap.Sound.blank (by decide)
  · intro ipaddr r hr
    rw [h.probe] at hr
    cases hr

theorem answers_append (e e' : List (Effect κ)) : answers (e ++ e') = answers e ++ answers e' :=
  filterMap_append ..

theorem answers_invocations (calls : List (κ × Option HwAddr)) :
    answers (invocations calls) = calls := by
  unfold answers invocations
  rw [filterMap_map]
  exact filterMap_some ..

theorem answers_requests (called : Option Address) :
    answers (called.toList.map (host.request : Address → Effect κ)) = [] := by
  cases called <;> rfl

theorem waiters_of_probe {ipaddr : Address} {r : Retryable Address κ}
    (h : p.probe ipaddr = some r) : p.waiters ipaddr = r.waiters.values := by
  unfold waiters
  rw [h]

theorem waiters_of_none {ipaddr : Address} (h : p.probe ipaddr = none) : p.waiters ipaddr = [] := by
  unfold waiters
  rw [h]

theorem waiters_congr {ipaddr : Address} (h : p'.probe ipaddr = p.probe ipaddr) :
    p'.waiters ipaddr = p.waiters ipaddr := by
  unfold waiters
  rw [h]

theorem Sound.withProbes (h : p.Sound)
    {activeProbes : UnorderedMap Address (Retryable Address κ) 32} (hsound : activeProbes.Sound)
    (hwaiters : ∀ ipaddr r, activeProbes.lookup ipaddr = some r → r.waiters.WF) :
    Sound { p with activeProbes } := ⟨h.entries, hsound, hwaiters⟩

/-! ## `fetch_network` -/

theorem Sound.fetch (h : p.Sound) (ipaddr : Address) :
    p.mappings.fetch ipaddr = .ok (p.cached ipaddr) := MappingTable.fetch_spec h.entries ipaddr

/-- `callback` waits for `ipaddr` in `p'`, and that is the difference to `p`. -/
structure Joined (p : Protocol κ) (ipaddr : Address) (callback : κ) (p' : Protocol κ) : Prop where
  sound : p'.Sound
  mappings : p'.mappings = p.mappings
  probing : (p'.probe ipaddr).isSome
  waiters : (p'.waiters ipaddr).Perm (callback :: p.waiters ipaddr)
  others : ∀ other, other ≠ ipaddr → p'.probe other = p.probe other

/-- A callback that joins takes one of the slots. -/
theorem Joined.slots {ipaddr : Address} {callback : κ} (hj : Joined p ipaddr callback p')
    (h : p.Sound) (hroom : p.hasRoom ipaddr = true) : p'.slots ipaddr + 1 = p.slots ipaddr := by
  obtain ⟨r', hr'⟩ := Option.isSome_iff_exists.mp hj.probing
  have hlength := hj.waiters.length_eq
  rw [waiters_of_probe hr', (hj.sound.waiters ipaddr r' hr').length_values, length_cons] at hlength
  have hslots := (p.hasRoom_iff_slots ipaddr).mp hroom
  unfold Protocol.slots at hslots ⊢
  unfold Protocol.waiters at hlength
  simp only [hr']
  cases hr : p.probe ipaddr with
  | some r =>
    simp only [hr] at hlength hslots ⊢
    rw [(h.waiters ipaddr r hr).length_values] at hlength
    omega
  | none =>
    simp only [hr, length_nil] at hlength hslots ⊢
    have hfull : ¬ p.activeProbes.full = true := by
      intro hc
      rw [if_pos hc] at hslots
      omega
    rw [if_neg hfull]
    omega

theorem Sound.joined (h : p.Sound) {ipaddr : Address} {callback : κ} {r : Retryable Address κ}
    {activeProbes : UnorderedMap Address (Retryable Address κ) 32} (hsound : activeProbes.Sound)
    (hwf : r.waiters.WF) (hperm : r.waiters.values.Perm (callback :: p.waiters ipaddr))
    (hl : ∀ k, activeProbes.lookup k = if k = ipaddr then some r else p.probe k) :
    Joined p ipaddr callback { p with activeProbes } := by
  have hself : ({ p with activeProbes } : Protocol κ).probe ipaddr = some r := by
    show activeProbes.lookup ipaddr = some r
    rw [hl, if_pos rfl]
  refine ⟨h.withProbes hsound ?_, rfl, ?_, ?_, ?_⟩
  · intro k r' hk
    rw [hl] at hk
    split at hk
    · cases hk
      exact hwf
    · exact h.waiters k r' hk
  · rw [hself]
    rfl
  · rw [waiters_of_probe hself]
    exact hperm
  · intro other hne
    show activeProbes.lookup other = _
    rw [hl, if_neg hne]

theorem fetchNetwork_joins (h : p.Sound) (overflow : Int → Checked Int) (host : Host)
    {ipaddr : Address} {r : Retryable Address κ} (hcached : p.cached ipaddr = none) (hprobe : p.probe ipaddr = some r)
    (hroom : r.waiters.full = false) (callback : κ) :
    ∃ p', p.fetchNetwork overflow host ipaddr callback = .ok (p', []) ∧
      Joined p ipaddr callback p' := by
  have hr := h.waiters ipaddr r hprobe
  rcases h.probes.find_cases ipaddr with ⟨it, v, hfind, he, hv⟩ | ⟨_, hnone⟩
  · have hvr : v = r := Option.some.inj (hv.symm.trans hprobe)
    rw [hvr] at he
    have hreset : r.reset.waiters = r.waiters := rfl
    obtain ⟨r', hawait⟩ := Retryable.await_spec (r := r.reset) hr hroom callback
    obtain ⟨hwf, hperm, _⟩ := Retryable.await_ok (r := r.reset) hr hawait
    obtain ⟨probes, hset, hsound, _, hl⟩ := h.probes.setValue_spec he r'
    refine ⟨{ p with activeProbes := probes }, ?_, ?_⟩
    · rw [fetchNetwork, h.fetch, hcached, ok_bind]
      rw [hfind, ok_bind]
      simp only
      rw [value_of_entry he, ok_bind, hawait, ok_bind, hset, ok_bind]
    · apply h.joined hsound hwf _ hl
      rw [waiters_of_probe hprobe]
      exact hperm
  · rw [show p.probe ipaddr = none from hnone] at hprobe
    cases hprobe

theorem fetchNetwork_starts (h : p.Sound) (overflow : Int → Checked Int) (host : Host)
    {ipaddr : Address} (hcached : p.cached ipaddr = none) (hprobe : p.probe ipaddr = none)
    (hroom : p.activeProbes.full = false) (callback : κ) :
    ∃ p', p.fetchNetwork overflow host ipaddr callback = .ok (p', [host.request ipaddr]) ∧
      Joined p ipaddr callback p' := by
  have hblank : (Retryable.new ipaddr : Retryable Address κ).waiters.WF := blank_wf (by decide)
  obtain ⟨probes, hput, hsound, hl⟩ := h.probes.insert_spec hroom hprobe (Retryable.new ipaddr)
  have hself : probes.lookup ipaddr = some (.new ipaddr) := by rw [hl, if_pos rfl]
  have habsent : p.activeProbes.find ipaddr = .ok none :=
    find_of_absent h.probes.wf (h.probes.lookup_eq_none.mp hprobe)
  obtain ⟨it, he⟩ := hsound.lookup_eq_some.mp hself
  have hfind := find_of_lookup hsound.wf hsound.distinct he
  obtain ⟨r, hawait⟩ := Retryable.await_spec (r := Retryable.new ipaddr) hblank
    (full_blank (by decide)) callback
  obtain ⟨hwf, hperm, hr⟩ := Retryable.await_ok (r := Retryable.new ipaddr) hblank hawait
  obtain ⟨probes', hset, hsound', _, hl'⟩ :=
    hsound.setValue_spec he ⟨ipaddr, r.waiters, 400, 400, 1⟩
  refine ⟨{ p with activeProbes := probes' }, ?_, ?_⟩
  · rw [fetchNetwork, h.fetch, hcached, ok_bind]
    simp only
    rw [habsent, ok_bind]
    rw [hput, ok_bind]
    rw [hfind, ok_bind]
    simp only
    rw [value_of_entry he, ok_bind, hawait, ok_bind, hr, Retryable.tick_new, ok_bind]
    rw [hset, ok_bind]
    rfl
  · refine h.joined (r := ⟨ipaddr, r.waiters, 400, 400, 1⟩) hsound' hwf ?_ ?_
    · have hnil : (Retryable.new ipaddr : Retryable Address κ).waiters.values = [] := values_blank
      rw [waiters_of_none hprobe]
      exact hperm
    · intro k
      rw [hl', hl]
      split <;> rfl

theorem fetchNetwork_cached (h : p.Sound) {ipaddr : Address} {address : HwAddr}
    (hcached : p.cached ipaddr = some address) (callback : κ) :
    p.fetchNetwork overflow host ipaddr callback
      = .ok (p, [.invoked callback (some address)]) := by
  rw [fetchNetwork, h.fetch, hcached, ok_bind]

theorem fetchNetwork_full (h : p.Sound) {ipaddr : Address} (hcached : p.cached ipaddr = none)
    (hroom : p.hasRoom ipaddr = false) (callback : κ) :
    p.fetchNetwork overflow host ipaddr callback
      = .error (.assertion "_data_begin + idx < _data_end") := by
  unfold hasRoom at hroom
  rw [fetchNetwork, h.fetch, hcached, ok_bind]
  rcases h.probes.find_cases ipaddr with ⟨it, r, hfind, he, hr⟩ | ⟨hfind, hnone⟩
  · have hprobe : p.probe ipaddr = some r := hr
    rw [hprobe] at hroom
    simp only [Bool.not_eq_false'] at hroom
    rw [hfind, ok_bind]
    simp only
    rw [value_of_entry he, ok_bind,
      Retryable.await_full (r := r.reset) (h.waiters ipaddr r hprobe) hroom, error_bind]
  · have hprobe : p.probe ipaddr = none := hnone
    rw [hprobe] at hroom
    simp only [Bool.not_eq_false'] at hroom
    rw [hfind, ok_bind]
    rw [insert_full h.probes.wf hroom (h.probes.lookup_eq_none.mp hnone), error_bind]

theorem fetchNetwork_spec (h : p.Sound) (overflow : Int → Checked Int) (host : Host)
    (ipaddr : Address) (callback : κ) :
    (∃ address, p.cached ipaddr = some address ∧
      p.fetchNetwork overflow host ipaddr callback
        = .ok (p, [.invoked callback (some address)])) ∨
    (p.cached ipaddr = none ∧ p.hasRoom ipaddr = true ∧ ∃ p' effects,
      p.fetchNetwork overflow host ipaddr callback = .ok (p', effects) ∧
      answers effects = [] ∧ Joined p ipaddr callback p') ∨
    (p.cached ipaddr = none ∧ p.hasRoom ipaddr = false ∧
      p.fetchNetwork overflow host ipaddr callback
        = .error (.assertion "_data_begin + idx < _data_end")) := by
  cases hcached : p.cached ipaddr with
  | some address => exact .inl ⟨address, rfl, fetchNetwork_cached h hcached callback⟩
  | none =>
    right
    cases hroom : p.hasRoom ipaddr with
    | false => exact .inr ⟨rfl, rfl, fetchNetwork_full h hcached hroom callback⟩
    | true =>
      left
      unfold hasRoom at hroom
      cases hprobe : p.probe ipaddr with
      | some r =>
        rw [hprobe] at hroom
        obtain ⟨p', hcall, hjoined⟩ := fetchNetwork_joins h overflow host hcached hprobe
          (by simpa using hroom) callback
        exact ⟨rfl, rfl, p', _, hcall, rfl, hjoined⟩
      | none =>
        rw [hprobe] at hroom
        obtain ⟨p', hcall, hjoined⟩ := fetchNetwork_starts h overflow host hcached hprobe
          (by simpa using hroom) callback
        exact ⟨rfl, rfl, p', _, hcall, rfl, hjoined⟩

/-! ## Replies -/

/-- A reply ends the probe of its address. -/
theorem writeCacheEntry_spec (h : p.Sound) (ipaddr : Address) (hwaddr : HwAddr) :
    ∃ p', p.writeCacheEntry ipaddr hwaddr
        = .ok (p', invocations ((p.waiters ipaddr).map fun w => (w, some hwaddr))) ∧
      p'.Sound ∧ p'.cached ipaddr = some hwaddr ∧
      ∀ k, p'.probe k = if k = ipaddr then none else p.probe k := by
  obtain ⟨mappings, kept, hput, hentries, _, hcontents⟩ :=
    MappingTable.insert_spec h.entries ipaddr hwaddr
  have hlatest : MappingTable.latest ipaddr mappings.entries.contents = some hwaddr := by
    rw [hcontents, MappingTable.latest_append, if_pos rfl]
  rw [writeCacheEntry, hput, ok_bind]
  rcases h.probes.find_cases ipaddr with ⟨it, r, hfind, he, hr⟩ | ⟨hfind, hnone⟩
  · have hprobe : p.probe ipaddr = some r := hr
    obtain ⟨probes, herase, hsound, hl⟩ := h.probes.erase_spec he
    refine ⟨⟨mappings, probes⟩, ?_, ⟨hentries, hsound, ?_⟩, hlatest, hl⟩
    · rw [hfind, ok_bind]
      simp only
      rw [value_of_entry he, ok_bind,
        Retryable.notifyAll_spec (h.waiters ipaddr r hprobe), ok_bind, herase, ok_bind,
        waiters_of_probe hprobe]
    · intro k r' hk
      rw [show probe ⟨mappings, probes⟩ k = _ from hl k] at hk
      split at hk
      · cases hk
      · exact h.waiters k r' hk
  · have hprobe : p.probe ipaddr = none := hnone
    refine ⟨{ p with mappings }, ?_, ⟨hentries, h.probes, h.waiters⟩, hlatest, ?_⟩
    · rw [hfind, ok_bind, waiters_of_none hprobe]
      rfl
    · intro k
      split
      next hk =>
        rw [hk]
        exact hprobe
      · rfl

/-- The reply in a message that ARP takes for one. -/
def replyIn (host : Host) (data : Bytes) : Option (Address × HwAddr) :=
  let hdr := Header.ofBytes data
  if hdr.htype = 1 ∧ hdr.ptype = EtherType.IPV4.value ∧ hdr.hlen = 6 ∧ hdr.plen = 4 ∧
      host.hwaddr ≠ hdr.sha ∧ hdr.oper = Op.REPLY.value then some (hdr.spa, hdr.sha)
  else none

variable {length : UInt32}

/-- A message is a reply or it changes nothing and invokes nobody. -/
theorem onReceive_spec (host : Host) (p : Protocol κ) (metadata : FrameMetadata) (data : Bytes)
    (hlength : length ≥ 28) :
    (∃ spa sha, replyIn host data = some (spa, sha) ∧
      p.onReceive host metadata data length = p.writeCacheEntry spa sha) ∨
    (replyIn host data = none ∧ ∃ effects,
      p.onReceive host metadata data length = .ok (p, effects) ∧ answers effects = []) := by
  unfold onReceive
  rw [decide_eq_true hlength, check_true, ok_bind]
  dsimp only
  unfold replyIn
  by_cases h1 : (ofBytes data).htype ≠ 1 ∨ (ofBytes data).ptype ≠ EtherType.IPV4.value
  · rw [if_pos h1, if_neg (fun hall => h1.elim (· hall.1) (· hall.2.1))]
    exact .inr ⟨rfl, [], rfl, rfl⟩
  rw [if_neg h1]
  by_cases h2 : (ofBytes data).hlen ≠ 6 ∨ (ofBytes data).plen ≠ 4
  · rw [if_pos h2, if_neg (fun hall => h2.elim (· hall.2.2.1) (· hall.2.2.2.1))]
    exact .inr ⟨rfl, [], rfl, rfl⟩
  rw [if_neg h2]
  by_cases h3 : host.hwaddr = (ofBytes data).sha
  · rw [if_pos h3, if_neg (fun hall => hall.2.2.2.2.1 h3)]
    exact .inr ⟨rfl, [], rfl, rfl⟩
  rw [if_neg h3]
  by_cases h4 : (ofBytes data).oper = Op.REQUEST.value
  · -- a request is answered, and nobody waits for it
    rw [if_pos h4, if_neg (by rw [h4]; simp [Op.value])]
    right
    refine ⟨rfl, ?_⟩
    split
    · exact ⟨_, rfl, rfl⟩
    · exact ⟨[], rfl, rfl⟩
  rw [if_neg h4]
  by_cases h5 : (ofBytes data).oper = Op.REPLY.value
  · obtain ⟨hhtype, hptype⟩ := not_or.mp h1
    obtain ⟨hhlen, hplen⟩ := not_or.mp h2
    rw [if_pos h5, if_pos ⟨not_not.mp hhtype, not_not.mp hptype, not_not.mp hhlen,
      not_not.mp hplen, h3, h5⟩]
    exact .inl ⟨_, _, rfl, rfl⟩
  · rw [if_neg h5, if_neg (fun hall => h5 hall.2.2.2.2.2)]
    exact .inr ⟨rfl, [], rfl, rfl⟩

theorem onReceive_length {metadata : FrameMetadata} {data : Bytes} {effects : List (Effect κ)}
    (hcall : p.onReceive host metadata data length = .ok (p', effects)) : length ≥ 28 := by
  rw [onReceive, bind_ok] at hcall
  obtain ⟨_, hcheck, _⟩ := hcall
  exact of_decide_eq_true (check_ok.mp hcheck)

theorem onReceive_sound (h : p.Sound) {metadata : FrameMetadata} {data : Bytes}
    {effects : List (Effect κ)}
    (hcall : p.onReceive host metadata data length = .ok (p', effects)) : p'.Sound := by
  rcases onReceive_spec host p metadata data (onReceive_length hcall) with
    ⟨spa, sha, _, hspec⟩ | ⟨_, effects', hspec, _⟩
  · obtain ⟨p1, hwrite, hsound, _⟩ := writeCacheEntry_spec h spa sha
    rw [hspec, hwrite] at hcall
    cases hcall
    exact hsound
  · rw [hspec] at hcall
    cases hcall
    exact h

/-! ## `tick` -/

/-- Between `p` and `p'` the probes for `gone` have given up, and nothing else
has happened to what waits. -/
structure Ended (overflow : Int → Checked Int) (dt : Int) (p : Protocol κ) (gone : List Address)
    (p' : Protocol κ) : Prop where
  sound : p'.Sound
  mappings : p'.mappings = p.mappings
  nodup : gone.Nodup
  gaveUp : ∀ ipaddr ∈ gone, ∃ r, p.probe ipaddr = some r ∧ r.GivesUp overflow dt
  ended : ∀ ipaddr ∈ gone, p'.probe ipaddr = none
  others : ∀ ipaddr, ipaddr ∉ gone →
    p'.waiters ipaddr = p.waiters ipaddr ∧ (p'.probe ipaddr).isSome = (p.probe ipaddr).isSome

/-- The callbacks of the probes for `gone`, told that there is no address. -/
def dismissed (p : Protocol κ) (gone : List Address) : List (κ × Option HwAddr) :=
  gone.flatMap fun ipaddr => (p.waiters ipaddr).map fun w => (w, none)

theorem dismissed_congr {gone : List Address}
    (h : ∀ ipaddr ∈ gone, p'.waiters ipaddr = p.waiters ipaddr) :
    p'.dismissed gone = p.dismissed gone := by
  apply flatMap_congr
  intro ipaddr hip
  rw [h ipaddr hip]

theorem Ended.refl (h : p.Sound) (overflow : Int → Checked Int) (dt : Int) :
    Ended overflow dt p [] p :=
  ⟨h, rfl, nodup_nil, fun _ hip => absurd hip not_mem_nil,
    fun _ hip => absurd hip not_mem_nil, fun _ _ => ⟨rfl, rfl⟩⟩

variable {dt : Int} {gone : List Address} {ipaddr : Address} {r r' : Retryable Address κ}
  {called : Option Address} {p₁ : Protocol κ}

theorem Ended.afterAlive (h : Ended overflow dt p1 gone p') (hprobe : p.probe ipaddr = some r)
    (htick : r.tick overflow dt = .ok (true, called, r')) (hwaiters : r'.waiters = r.waiters)
    (hmap : p1.mappings = p.mappings)
    (hl : ∀ k, p1.probe k = if k = ipaddr then some r' else p.probe k) :
    Ended overflow dt p gone p' ∧ p1.dismissed gone = p.dismissed gone := by
  have hself : p1.probe ipaddr = some r' := by rw [hl, if_pos rfl]
  have hsame : ∀ k, p1.waiters k = p.waiters k ∧ (p1.probe k).isSome = (p.probe k).isSome := by
    intro k
    by_cases hk : k = ipaddr
    · rw [hk, waiters_of_probe hself, waiters_of_probe hprobe, hwaiters, hself, hprobe]
      exact ⟨rfl, rfl⟩
    · have hother : p1.probe k = p.probe k := by rw [hl, if_neg hk]
      exact ⟨waiters_congr hother, by rw [hother]⟩
  refine ⟨⟨h.sound, h.mappings.trans hmap, h.nodup, ?_, h.ended, ?_⟩,
    dismissed_congr fun k _ => (hsame k).1⟩
  · intro k hk
    obtain ⟨r1, hr1, hgives⟩ := h.gaveUp k hk
    by_cases heq : k = ipaddr
    · rw [heq, hself] at hr1
      cases hr1
      exact ⟨r, by rw [heq, hprobe], .later htick hgives⟩
    · rw [hl, if_neg heq] at hr1
      exact ⟨r1, hr1, hgives⟩
  · intro k hk
    obtain ⟨hw, hs⟩ := h.others k hk
    exact ⟨hw.trans (hsame k).1, hs.trans (hsame k).2⟩

theorem Ended.afterDead (h : Ended overflow dt p1 gone p') (hprobe : p.probe ipaddr = some r)
    (htick : r.tick overflow dt = .ok (false, called, r')) (hmap : p1.mappings = p.mappings)
    (hl : ∀ k, p1.probe k = if k = ipaddr then none else p.probe k) :
    Ended overflow dt p (ipaddr :: gone) p' ∧
      (r.waiters.values.map fun w => (w, none)) ++ p1.dismissed gone
        = p.dismissed (ipaddr :: gone) := by
  have hself : p1.probe ipaddr = none := by rw [hl, if_pos rfl]
  have hother : ∀ k, k ≠ ipaddr → p1.probe k = p.probe k := by
    intro k hk
    rw [hl, if_neg hk]
  -- the rest of the loop does not see the probe any more
  have hfresh : ipaddr ∉ gone := by
    intro hin
    obtain ⟨r1, hr1, _⟩ := h.gaveUp ipaddr hin
    rw [hself] at hr1
    cases hr1
  have hne : ∀ k ∈ gone, k ≠ ipaddr := by
    intro k hk heq
    exact hfresh (heq ▸ hk)
  have hgone : p'.probe ipaddr = none := by
    have hsome := (h.others ipaddr hfresh).2
    rw [hself] at hsome
    simpa using hsome
  refine ⟨⟨h.sound, h.mappings.trans hmap, nodup_cons.mpr ⟨hfresh, h.nodup⟩, ?_, ?_, ?_⟩, ?_⟩
  · intro k hk
    rcases mem_cons.mp hk with rfl | hk
    · exact ⟨r, hprobe, .now htick⟩
    · obtain ⟨r1, hr1, hgives⟩ := h.gaveUp k hk
      rw [hother k (hne k hk)] at hr1
      exact ⟨r1, hr1, hgives⟩
  · intro k hk
    rcases mem_cons.mp hk with rfl | hk
    · exact hgone
    · exact h.ended k hk
  · intro k hk
    rw [mem_cons, not_or] at hk
    obtain ⟨hw, hs⟩ := h.others k hk.2
    rw [waiters_congr (hother k hk.1)] at hw
    rw [hother k hk.1] at hs
    exact ⟨hw, hs⟩
  · rw [dismissed_congr fun k hk => waiters_congr (hother k (hne k hk)), ← waiters_of_probe hprobe]
    rfl

/-- An iterator is at a probe or at `end()`. -/
def AtProbe (p : Protocol κ) (it : Nat) : Prop :=
  it = p.activeProbes.storage.watermark ∨ p.activeProbes.storage.valid it = true

theorem Sound.watermark_le (h : p.Sound) : p.activeProbes.storage.watermark ≤ 32 :=
  h.probes.wf.room

theorem Sound.at_probe (h : p.Sound) {it : Nat} (hat : p.AtProbe it)
    (hne : it ≠ p.activeProbes.storage.watermark) :
    it < p.activeProbes.storage.watermark ∧
      ∃ ipaddr r, p.activeProbes.entry it = some ⟨ipaddr, r⟩ ∧ p.probe ipaddr = some r := by
  have hvalid := hat.resolve_left hne
  obtain ⟨e, he⟩ := (h.probes.wf.valid_iff_lookup it).mp hvalid
  exact ⟨lookup_lt_watermark he, e.key, e.value, he, h.probes.lookup_eq_some.mpr ⟨it, he⟩⟩

/-- What the loop returns from an iterator at `it`. -/
def LoopDone (overflow : Int → Checked Int) (dt : Int) (p : Protocol κ)
    (result : Checked (Protocol κ × List (Effect κ))) : Prop :=
  (∃ p' effects gone, result = .ok (p', effects) ∧ Ended overflow dt p gone p' ∧
    answers effects = p.dismissed gone) ∨
  (∃ x e, overflow x = .error e ∧ result = .error e)

/-- The loop of `tick` comes to its end. The induction is on the steps that remain: a probe
that goes on moves the iterator up, and one that gives up leaves one less for another round. -/
theorem tickFrom_spec (deltaMs : UInt32) (fuel : Nat) : ∀ {p : Protocol κ} {it : Nat}, p.Sound →
    p.AtProbe it → p.activeProbes.size * 33 + (32 - it) < fuel →
    LoopDone overflow (signed deltaMs) p (tickFrom overflow host deltaMs fuel it p) := by
  induction fuel with
  | zero =>
    intro p it _ _ hfuel
    exact absurd hfuel (Nat.not_lt_zero _)
  | succ fuel ih =>
    intro p it hp hat hfuel
    rw [tickFrom]
    by_cases hend : it = p.activeProbes.storage.watermark
    · rw [if_pos hend]
      exact .inl ⟨p, [], [], rfl, Ended.refl hp _ _, rfl⟩
    rw [if_neg hend]
    obtain ⟨_, ipaddr, r, he, hprobe⟩ := hp.at_probe hat hend
    have htop := hp.watermark_le
    rw [value_of_entry he, ok_bind]
    rcases Retryable.tick_spec overflow r (signed deltaMs) with
      ⟨alive, called, r', htick, hsame⟩ | ⟨x, e, hover, htick⟩
    · rw [htick, ok_bind]
      simp only
      obtain ⟨probes, hset, hsound, hentry, hl⟩ := hp.probes.setValue_spec he r'
      have hself : probes.entry it = some ⟨ipaddr, r'⟩ := by rw [hentry, if_pos rfl]
      have hsize : probes.size = p.activeProbes.size := size_setValue hset
      have hr' : r'.waiters.WF := hsame ▸ hp.waiters ipaddr r hprobe
      rw [hset, ok_bind]
      have hp1 : Sound { p with activeProbes := probes } := by
        refine hp.withProbes hsound fun k r1 hk => ?_
        rw [hl] at hk
        split at hk
        · cases hk
          exact hr'
        · exact hp.waiters k r1 hk
      cases alive with
      | true =>
        obtain ⟨hat1, hnext⟩ := next_spec hsound.wf it
        have hup := hnext (lookup_lt_watermark hself)
        rcases ih hp1 hat1 (by show probes.size * 33 + _ < _; omega) with
          ⟨p', effects, gone, hloop, hended, heffects⟩ | ⟨x, e, hover, hloop⟩
        · left
          obtain ⟨hended', hdismissed⟩ := hended.afterAlive hprobe htick hsame rfl hl
          refine ⟨p', called.toList.map host.request ++ effects, gone, ?_, hended', ?_⟩
          · rw [if_pos rfl, hloop, ok_bind]
          · rw [answers_append, answers_requests, heffects, hdismissed]
            rfl
        · right
          refine ⟨x, e, hover, ?_⟩
          rw [if_pos rfl, hloop, error_bind]
      | false =>
        obtain ⟨probes', herase, hsound', hl'⟩ := hsound.erase_spec hself
        obtain ⟨hat2, _⟩ := next_spec hsound'.wf it
        have hsize' : probes'.size + 1 = probes.size := size_erase hsound hself herase
        have hgone : ∀ k, probes'.lookup k = if k = ipaddr then none else p.probe k := by
          intro k
          rw [hl', hl]
          split <;> rfl
        have hp2 : Sound { p with activeProbes := probes' } := by
          refine hp.withProbes hsound' fun k r1 hk => ?_
          rw [hgone] at hk
          split at hk
          · cases hk
          · exact hp.waiters k r1 hk
        rcases ih hp2 hat2 (by show probes'.size * 33 + _ < _; omega) with
          ⟨p', effects, gone, hloop, hended, heffects⟩ | ⟨x, e, hover, hloop⟩
        · left
          obtain ⟨hended', hdismissed⟩ := hended.afterDead hprobe htick rfl hgone
          refine ⟨p', invocations (r'.waiters.values.map fun w => (w, none)) ++ effects,
            ipaddr :: gone, ?_, hended', ?_⟩
          · rw [if_neg Bool.false_ne_true, Retryable.notifyAll_spec hr', ok_bind, herase,
              ok_bind, hloop, ok_bind]
          · rw [answers_append, answers_invocations, heffects, ← hdismissed, hsame]
        · right
          refine ⟨x, e, hover, ?_⟩
          rw [if_neg Bool.false_ne_true, Retryable.notifyAll_spec hr', ok_bind, herase,
            ok_bind, hloop, error_bind]
    · right
      rw [htick, error_bind]
      exact ⟨x, e, hover, rfl⟩

/-- A tick returns, unless an overflow keeps it from it. -/
theorem tick_spec (h : p.Sound) (overflow : Int → Checked Int) (host : Host) (deltaMs : UInt32) :
    LoopDone overflow (signed deltaMs) p (p.tick overflow host deltaMs) := by
  obtain ⟨_, _, hat, _⟩ := jumpToValid_spec p.activeProbes.storage
    p.activeProbes.storage.watermark 0 (Nat.zero_le _) (Nat.le_add_left _ _)
  have hsize : p.activeProbes.size ≤ 32 := h.probes.wf.size_le
  exact tickFrom_spec deltaMs (33 * 33) h hat (by omega)

end Peos2.Arp.Protocol
