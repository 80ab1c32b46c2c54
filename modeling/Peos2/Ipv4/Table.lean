/-
  Ipv4.Table — what `protocol_impl` does with its table of reassembly
  buffers.
-/
import Peos2.Ipv4.Protocol
import Peos2.Lib.Run

namespace Peos2.Ipv4

open Peos2.Lib Peos2.Support UnorderedMap
open Peos2.Tcp (Address)

/-- The type of `_reassembly_buffers`. -/
abbrev Buffers := UnorderedMap Identifier ReassemblyBuffer 10

/-- The buffer after a fragment was added to it, with the storage `data`. -/
def ReassemblyBuffer.taking (v : ReassemblyBuffer) (pkt : Packet) (data : FragBuffer 10000) :
    ReassemblyBuffer :=
  { v with receivedLast := v.receivedLast || !pkt.moreFragments, data }

namespace Protocol

variable {m m' : Buffers} {ident : Identifier} {v : ReassemblyBuffer} {it : Nat} {pkt : Packet}
  {out : List Datagram}

/-! ## The slot of an identifier -/

theorem locate_present (fresh : Checked ReassemblyBuffer) (h : m.find ident = .ok (some it)) :
    locate m fresh ident = .ok (m, it) := by
  unfold locate
  rw [h]
  rfl

variable {stale data : Bytes} {length : UInt32} {fresh : Checked ReassemblyBuffer}

theorem locate_absent (hwf : m.storage.WF) (hroom : m.full = false) (habsent : ¬ m.Contains ident)
    (hnew : fresh = .ok v) :
    ∃ m' it, locate m fresh ident = .ok (m', it) ∧ m'.storage.WF ∧ m.entry it = none ∧
      ∀ j, m'.entry j = if j = it then some ⟨ident, v⟩ else m.entry j := by
  obtain ⟨m', it, hinsert, hwf', hfree, hl⟩ := insert_spec hwf hroom habsent v
  have hfound : m'.find ident = .ok (some it) := by
    have hit : m'.entry it = some ⟨ident, v⟩ := by rw [hl, if_pos rfl]
    rcases find_spec hwf' ident with ⟨i, w, hi, h⟩ | ⟨hnone, _⟩
    · rw [hl] at hi
      split at hi
      · next heq => rw [h, heq]
      · exact absurd ⟨i, w, hi⟩ habsent
    · exact absurd ⟨it, v, hit⟩ hnone
  refine ⟨m', it, ?_, hwf', hfree, hl⟩
  unfold locate
  rw [find_of_absent hwf habsent, ok_bind]
  simp only
  rw [hnew, ok_bind, hinsert, ok_bind]
  rw [hfound]
  rfl

theorem locate_ok (hm : m.Sound) (h : locate m fresh ident = .ok (m', it)) :
    m'.Sound ∧ (∃ v, m'.entry it = some ⟨ident, v⟩) ∧ (∀ j, j ≠ it → m'.entry j = m.entry j) ∧
      ∀ e, m.entry it = some e → e.key = ident := by
  rcases find_spec hm.wf ident with ⟨i, v, hi, hfind⟩ | ⟨habsent, hfind⟩
  · rw [locate_present fresh hfind] at h
    cases h
    refine ⟨hm, ⟨v, hi⟩, fun _ _ => rfl, ?_⟩
    intro e he
    rw [hi] at he
    cases he
    rfl
  cases hnew : fresh with
  | error e =>
    unfold locate at h
    rw [hfind, ok_bind] at h
    rw [hnew] at h
    cases h
  | ok v =>
    cases hfull : m.full with
    | true =>
      unfold locate at h
      rw [hfind, ok_bind] at h
      rw [hnew, ok_bind, insert_full hm.wf hfull habsent] at h
      cases h
    | false =>
      obtain ⟨m1, i, hcall, hwf, hfree, hl⟩ := locate_absent hm.wf hfull habsent hnew
      rw [hcall] at h
      cases h
      refine ⟨hm.fill hwf habsent hl, ⟨v, by rw [hl, if_pos rfl]⟩, ?_, ?_⟩
      · intro j hj
        rw [hl, if_neg hj]
      · intro e he
        rw [hfree] at he
        cases he

/-! ## Adding a fragment -/

/-- The insertion of `add_fragment`. -/
def store (v : ReassemblyBuffer) (pkt : Packet) : Checked (FragBuffer 10000) :=
  v.data.insert pkt.fragOffset.toNat pkt.payload (signed pkt.payloadSize)

/-- What a fragment does to a buffer: what is left of it, nothing if the datagram is complete,
and what is forwarded. -/
def outcome (v : ReassemblyBuffer) (pkt : Packet) :
    Checked (Option ReassemblyBuffer × List Datagram) := do
  let data ← store v pkt
  if (v.taking pkt data).receivedLast then do
    let size ← data.continuousSize
    if size > 0 then
      .ok (none, forwardDatagram pkt.metadata pkt.protocol (data.data.first size.toNat))
    else .ok (some (v.taking pkt data), [])
  else .ok (some (v.taking pkt data), [])

variable {slot : Option ReassemblyBuffer}

theorem outcome_completes {data : FragBuffer 10000} {size : Int} (hstore : store v pkt = .ok data)
    (hlast : (v.taking pkt data).receivedLast = true) (hsize : data.continuousSize = .ok size)
    (hpos : size > 0) : outcome v pkt
      = .ok (none, forwardDatagram pkt.metadata pkt.protocol (data.data.first size.toNat)) := by
  unfold outcome
  rw [hstore, ok_bind, if_pos hlast, hsize, ok_bind, if_pos hpos]

theorem outcome_waits {data : FragBuffer 10000} (hstore : store v pkt = .ok data)
    (hwait : (v.taking pkt data).receivedLast = true →
      ∃ size, data.continuousSize = .ok size ∧ ¬ size > 0) :
    outcome v pkt = .ok (some (v.taking pkt data), []) := by
  unfold outcome
  rw [hstore, ok_bind]
  by_cases hlast : (v.taking pkt data).receivedLast = true
  · obtain ⟨size, hsize, hnot⟩ := hwait hlast
    rw [if_pos hlast, hsize, ok_bind, if_neg hnot]
  · rw [if_neg hlast]

theorem outcome_out (h : outcome v pkt = .ok (slot, out)) : out = [] ∨ (slot = none ∧
    ∃ payload, payload ≠ [] ∧ out = forwardDatagram pkt.metadata pkt.protocol payload) := by
  obtain ⟨data, _, h⟩ := bind_ok.mp h
  split at h
  · obtain ⟨size, _, h⟩ := bind_ok.mp h
    split at h
    next hpos =>
      cases h
      refine .inr ⟨rfl, _, fun hnil => ?_, rfl⟩
      have hlength := congrArg List.length hnil
      rw [Bytes.length_first, List.length_nil] at hlength
      omega
    · cases h
      exact .inl rfl
  · cases h
    exact .inl rfl

theorem addFragment_stored {data : FragBuffer 10000} (hwf : m.storage.WF)
    (he : m.entry it = some ⟨ident, v⟩) (hstore : store v pkt = .ok data) :
    ∃ m1, m1.storage.WF ∧
      (∀ j, m1.entry j = if j = it then some ⟨ident, v.taking pkt data⟩ else m.entry j) ∧
      addFragment m it pkt
        = if (v.taking pkt data).receivedLast then do
            let size ← data.continuousSize
            if size > 0 then do
              let buffers ← m1.erase it
              .ok (buffers, forwardDatagram pkt.metadata pkt.protocol
                (data.data.first size.toNat))
            else .ok (m1, [])
          else .ok (m1, []) := by
  obtain ⟨m1, hset, hwf1, hl⟩ := setValue_spec hwf he (v.taking pkt data)
  refine ⟨m1, hwf1, hl, ?_⟩
  unfold addFragment
  rw [value_of_entry he, ok_bind]
  unfold store at hstore
  simp only [hstore, ok_bind]
  unfold ReassemblyBuffer.taking at hset
  rw [hset, ok_bind]
  rfl

/-- `add_fragment` puts what is left of the buffer back into its slot. -/
theorem addFragment_spec (hwf : m.storage.WF) (he : m.entry it = some ⟨ident, v⟩)
    (h : outcome v pkt = .ok (slot, out)) :
    ∃ m', addFragment m it pkt = .ok (m', out) ∧ m'.storage.WF ∧
      ∀ j, m'.entry j = if j = it then slot.map (Entry.mk ident) else m.entry j := by
  obtain ⟨data, hstore, h⟩ := bind_ok.mp h
  obtain ⟨m1, hwf1, hl1, hcall⟩ := addFragment_stored hwf he hstore
  rw [hcall]
  split at h
  next hlast =>
    obtain ⟨size, hsize, h⟩ := bind_ok.mp h
    rw [if_pos hlast, hsize, ok_bind]
    split at h
    next hpos =>
      cases h
      have he1 : m1.entry it = some ⟨ident, v.taking pkt data⟩ := by rw [hl1, if_pos rfl]
      obtain ⟨m', herase, hwf', hl⟩ := erase_spec hwf1 he1
      refine ⟨m', ?_, hwf', ?_⟩
      · rw [if_pos hpos, herase]
        rfl
      · intro j
        rw [hl, hl1]
        by_cases hj : j = it
        · rw [if_pos hj, if_pos hj]
          rfl
        · rw [if_neg hj, if_neg hj, if_neg hj]
    next hnot =>
      cases h
      exact ⟨m1, if_neg hnot, hwf1, hl1⟩
  next hlast =>
    cases h
    exact ⟨m1, if_neg hlast, hwf1, hl1⟩

theorem addFragment_fails {e : Fault} (hwf : m.storage.WF) (he : m.entry it = some ⟨ident, v⟩)
    (h : outcome v pkt = .error e) : addFragment m it pkt = .error e := by
  unfold outcome at h
  cases hstore : store v pkt with
  | error e' =>
    rw [hstore] at h
    cases h
    unfold addFragment
    rw [value_of_entry he, ok_bind]
    unfold store at hstore
    simp only [hstore, error_bind]
  | ok data =>
    obtain ⟨m1, _, _, hcall⟩ := addFragment_stored hwf he hstore
    rw [hstore, ok_bind] at h
    rw [hcall]
    split at h
    next hlast =>
      cases hsize : data.continuousSize with
      | error e' =>
        rw [hsize] at h
        cases h
        exact if_pos hlast
      | ok size =>
        rw [hsize, ok_bind] at h
        split at h
        · cases h
        · cases h
    · cases h

theorem addFragment_ok (hm : m.Sound) (he : m.entry it = some ⟨ident, v⟩)
    (h : addFragment m it pkt = .ok (m', out)) :
    ∃ slot, outcome v pkt = .ok (slot, out) ∧ m'.Sound ∧
      ∀ j, m'.entry j = if j = it then slot.map (Entry.mk ident) else m.entry j := by
  cases hout : outcome v pkt with
  | error e =>
    rw [addFragment_fails hm.wf he hout] at h
    cases h
  | ok r =>
    obtain ⟨m1, hcall, hwf, hl⟩ := addFragment_spec hm.wf he hout
    rw [hcall] at h
    cases h
    refine ⟨r.1, rfl, ?_, hl⟩
    cases hslot : r.1 with
    | none =>
      rw [hslot] at hl
      exact hm.free hwf hl
    | some w =>
      rw [hslot] at hl
      exact hm.assign hwf he hl

/-! ## Runs -/

variable {p p' : Protocol}

theorem reassemble_full (stale : Bytes) (hfull : p.reassemblyBuffers.full = true) :
    p.reassemble stale pkt = .ok (p, []) := if_pos hfull

/-- In no slot is one buffer replaced by that of another identifier. -/
def Follows (m m' : Buffers) : Prop :=
  ∀ it e e', m.entry it = some e → m'.entry it = some e' → e'.key = e.key

theorem Follows.refl (m : Buffers) : Follows m m := by
  intro it e e' he he'
  rw [he] at he'
  cases he'
  rfl

theorem reassemble_cases (hp : p.reassemblyBuffers.Sound)
    (h : p.reassemble stale pkt = .ok (p', out)) :
    (p.reassemblyBuffers.full = true ∧ p' = p ∧ out = []) ∨
    ∃ m it v m', m.Sound ∧ m.entry it = some ⟨pkt.ident, v⟩ ∧
      (∀ j, j ≠ it → m.entry j = p.reassemblyBuffers.entry j) ∧
      (∀ e, p.reassemblyBuffers.entry it = some e → e.key = pkt.ident) ∧
      addFragment m it pkt = .ok (m', out) ∧ p' = { p with reassemblyBuffers := m' } := by
  unfold reassemble at h
  split at h
  next hfull =>
    cases h
    exact .inl ⟨hfull, rfl, rfl⟩
  · obtain ⟨⟨m, it⟩, hlocate, h⟩ := bind_ok.mp h
    obtain ⟨⟨m', out'⟩, hadd, h⟩ := bind_ok.mp h
    cases h
    obtain ⟨hm, ⟨v, he⟩, hothers, hslot⟩ := locate_ok hp hlocate
    exact .inr ⟨m, it, v, m', hm, he, hothers, hslot, hadd, rfl⟩

theorem reassemble_ok (hp : p.reassemblyBuffers.Sound)
    (h : p.reassemble stale pkt = .ok (p', out)) :
    ∃ m', p' = { p with reassemblyBuffers := m' } ∧ m'.Sound ∧
      Follows p.reassemblyBuffers m' := by
  rcases reassemble_cases hp h with ⟨_, rfl, _⟩ | ⟨m, it, v, m', hm, he, hothers, hslot, hadd, hp'⟩
  · exact ⟨p'.reassemblyBuffers, rfl, hp, Follows.refl _⟩
  obtain ⟨slot, _, hm', hl⟩ := addFragment_ok hm he hadd
  refine ⟨m', hp', hm', ?_⟩
  intro j e e' hje hje'
  rw [hl] at hje'
  split at hje'
  next hj =>
    rw [hj] at hje
    obtain ⟨w, _, rfl⟩ := Option.map_eq_some_iff.mp hje'
    exact (hslot e hje).symm
  next hj =>
    rw [hothers j hj, hje] at hje'
    cases hje'
    rfl

theorem onReceive_cases (h : p.onReceive stale data length = .ok (p', out)) :
    p' = p ∨ ∃ pkt, p.examine data length = .ok (some pkt) ∧
      p.reassemble stale pkt = .ok (p', out) := by
  rw [onReceive, bind_ok] at h
  obtain ⟨examined, hexamine, h⟩ := h
  cases examined with
  | none =>
    cases h
    exact .inl rfl
  | some pkt =>
    simp only at h
    split at h
    · cases h
      exact .inl rfl
    · exact .inr ⟨pkt, hexamine, h⟩

theorem onReceive_ok (hp : p.reassemblyBuffers.Sound)
    (h : p.onReceive stale data length = .ok (p', out)) :
    ∃ m', p' = { p with reassemblyBuffers := m' } ∧ m'.Sound ∧
      Follows p.reassemblyBuffers m' := by
  rcases onReceive_cases h with rfl | ⟨pkt, _, hcall⟩
  · exact ⟨p'.reassemblyBuffers, rfl, hp, Follows.refl _⟩
  · exact reassemble_ok hp hcall

theorem onReceive_full (hfull : p.reassemblyBuffers.full = true)
    (h : p.onReceive stale data length = .ok (p', out)) : p' = p := by
  rcases onReceive_cases h with heq | ⟨pkt, _, hcall⟩
  · exact heq
  · rw [reassemble_full stale hfull] at hcall
    cases hcall
    rfl

theorem tickFrom_ok (deltaMs : UInt32) (endIter fuel : Nat) : ∀ {it : Nat} {m m' : Buffers},
    m.Sound → tickFrom deltaMs endIter fuel it m = .ok m' → m'.Sound := by
  induction fuel with
  | zero =>
    intro it m m' _ h
    cases h
  | succ fuel ih =>
    intro it m m' hm h
    rw [tickFrom] at h
    split at h
    · cases h
      exact hm
    obtain ⟨v, _, h⟩ := bind_ok.mp h
    split at h
    · exact ih hm h
    obtain ⟨m1, hset, h⟩ := bind_ok.mp h
    obtain ⟨key, w, he, hwf1, hl1⟩ := setValue_ok hm.wf hset
    have hm1 := hm.assign hwf1 he hl1
    split at h
    · obtain ⟨m2, herase, h⟩ := bind_ok.mp h
      obtain ⟨_, hwf2, hl2⟩ := erase_ok hm1.wf herase
      exact ih (hm1.free hwf2 hl2) h
    · exact ih hm1 h

inductive Step (p : Protocol) : Protocol → Prop
  | receive {stale data : Bytes} {length : UInt32} {p' : Protocol} {out : List Datagram} :
      p.onReceive stale data length = .ok (p', out) → Step p p'
  | tick {fuel : Nat} {deltaMs : UInt32} {p' : Protocol} : p.tick fuel deltaMs = .ok p' → Step p p'
  | configure (localAddr netmask defaultGateway : Address) :
      Step p (p.configure localAddr netmask defaultGateway)
  | send {protocol : Proto} {srcAddr destAddr : Address} {data : Bytes} {length : UInt32}
      {p' : Protocol} {packet : Option (List UInt8)} :
      p.sendSingleDatagram protocol srcAddr destAddr data length = .ok (p', packet) → Step p p'

def Reachable : Protocol → Prop :=
  Reach (fun p => ∃ localAddr netmask gateway, p = blank localAddr netmask gateway) Step

theorem sendSingleDatagram_table {protocol : Proto} {srcAddr destAddr : Address}
    {packet : Option (List UInt8)}
    (h : p.sendSingleDatagram protocol srcAddr destAddr data length = .ok (p', packet)) :
    p'.reassemblyBuffers = p.reassemblyBuffers := by
  rw [sendSingleDatagram, bind_ok] at h
  obtain ⟨sum, _, h⟩ := h
  split at h
  · cases h
    rfl
  · cases h
    rfl

theorem Step.sound (hp : p.reassemblyBuffers.Sound) (h : Step p p') :
    p'.reassemblyBuffers.Sound := by
  cases h with
  | receive hcall =>
    obtain ⟨m', rfl, hm', _⟩ := onReceive_ok hp hcall
    exact hm'
  | tick hcall =>
    rw [Protocol.tick, bind_ok] at hcall
    obtain ⟨m', htick, hcall⟩ := hcall
    cases hcall
    exact tickFrom_ok _ _ _ hp htick
  | configure => exact hp
  | send hcall =>
    rw [sendSingleDatagram_table hcall]
    exact hp

/-- Along every run no two buffers have the same identifier. -/
theorem Reachable.sound (hp : Reachable p) : p.reassemblyBuffers.Sound := by
  induction hp with
  | init hinit =>
    obtain ⟨localAddr, netmask, gateway, rfl⟩ := hinit
    exact UnorderedMap.Sound.blank (by decide)
  | step _ hstep ih => exact hstep.sound ih

end Protocol

end Peos2.Ipv4
