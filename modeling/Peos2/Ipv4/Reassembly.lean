/-
  Ipv4.Reassembly — fragments of many datagrams arrive in any order, and every
  datagram is forwarded once.

  A `Book` says for each identifier which fragments of its current datagram have
  arrived; the last missing one closes the entry. What the book says has to be
  forwarded is what `on_receive` forwards, as long as its table has room.

  Main results: `forwarded_once`, `receiveAll_expected`.
-/
import Mathlib.Data.List.Infix
import Mathlib.Logic.Function.Basic
import Peos2.Ipv4.Collect
import Peos2.Ipv4.RoundTrip
import Peos2.Ipv4.Table

namespace Peos2.Ipv4

open Peos2.Lib Peos2.Support List Function

/-! ## Arrivals and the book -/

/-- A packet that arrives, the fragment it is said to be, and what the storage
for a new buffer held. -/
structure Arrival where
  ident : Identifier
  split : Split
  index : Nat
  stale : Bytes
  data : Bytes
  length : UInt32

structure Arrival.Carried (a : Arrival) (pkt : Packet) : Prop where
  ident : pkt.ident = a.ident
  index : a.index < a.split.count
  offset : pkt.fragOffset.toNat = a.split.cut a.index
  more : pkt.moreFragments = true ↔ a.index + 1 < a.split.count
  payload : pkt.payload.first pkt.payloadSize.toNat = a.split.piece a.index

theorem Arrival.Carried.metadata {a : Arrival} {pkt : Packet} (h : a.Carried pkt) :
    pkt.metadata = ⟨a.ident.source, a.ident.dest⟩ := by
  rw [← h.ident]
  rfl

theorem Arrival.Carried.protocol {a : Arrival} {pkt : Packet} (h : a.Carried pkt) :
    pkt.protocol = a.ident.protocol := by
  rw [← h.ident]
  rfl

/-- The packet passes the header checks and is that fragment. -/
def Arrival.IsFragment (p : Protocol) (a : Arrival) : Prop :=
  ∃ pkt, p.examine a.data a.length = .ok (some pkt) ∧ a.Carried pkt

/-- The datagram an identifier stands for, and the fragments that have
arrived. -/
structure Progress where
  split : Split
  received : Finset Nat

/-- For each identifier the datagram that is under way, if there is one. -/
abbrev Book := Identifier → Option Progress

namespace Book

def empty : Book := fun _ => none

/-- The fragments of the arrival's datagram that have arrived before it. -/
def received (b : Book) (a : Arrival) : Finset Nat :=
  match b a.ident with
  | some pr => pr.received
  | none => ∅

/-- The arrival is the last fragment that was missing. -/
def completes (b : Book) (a : Arrival) : Bool :=
  insert a.index (b.received a) = Finset.range a.split.count

def note (b : Book) (a : Arrival) : Book :=
  Function.update b a.ident
    (if b.completes a then none else some ⟨a.split, insert a.index (b.received a)⟩)

/-- The arrival belongs to the datagram that is under way, or begins one. -/
def Admits (b : Book) (a : Arrival) : Prop := ∀ pr, b a.ident = some pr → pr.split = a.split

/-- What has to be forwarded at the arrival: the whole payload, if nothing is
missing any more. -/
def output (b : Book) (a : Arrival) : List Datagram :=
  if b.completes a then
    forwardDatagram ⟨a.ident.source, a.ident.dest⟩ a.ident.protocol a.split.payload
  else []

variable {b : Book} {a : Arrival}

theorem output_complete (h : b.completes a = true) : b.output a
    = forwardDatagram ⟨a.ident.source, a.ident.dest⟩ a.ident.protocol a.split.payload := if_pos h

theorem note_complete (h : b.completes a = true) : b.note a = Function.update b a.ident none := by
  unfold note
  rw [if_pos h]

theorem output_missing (h : b.completes a = false) : b.output a = [] := by
  unfold output
  rw [h]
  rfl

theorem note_missing (h : b.completes a = false) :
    b.note a = Function.update b a.ident (some ⟨a.split, insert a.index (b.received a)⟩) := by
  unfold note
  rw [h]
  rfl

def noteAll (b : Book) (arrivals : List Arrival) : Book := arrivals.foldl note b

/-- Every arrival belongs to the datagram that is then under way, or begins
one. -/
def AdmitsAll : Book → List Arrival → Prop
  | _, [] => True
  | b, a :: rest => b.Admits a ∧ (b.note a).AdmitsAll rest

/-- Datagrams that are all split in the same way. -/
theorem admitsAll_of_split {s : Split} {arrivals : List Arrival}
    (h : ∀ a ∈ arrivals, a.split = s) :
    ∀ {b : Book}, (∀ ident pr, b ident = some pr → pr.split = s) → b.AdmitsAll arrivals := by
  induction arrivals with
  | nil => exact fun _ => trivial
  | cons a rest ih =>
    intro b hb
    have ha := h a List.mem_cons_self
    refine ⟨fun pr hpr => (hb _ pr hpr).trans ha.symm,
      ih (fun a' ha' => h a' (List.mem_cons_of_mem a ha')) fun ident pr hpr => ?_⟩
    unfold note at hpr
    by_cases hident : ident = a.ident
    · rw [hident, Function.update_self] at hpr
      split at hpr
      · cases hpr
      · cases hpr
        exact ha
    · rw [Function.update_of_ne hident] at hpr
      exact hb ident pr hpr

/-- What has to be forwarded, arrival by arrival. -/
def expected : Book → List Arrival → List (List Datagram)
  | _, [] => []
  | b, a :: rest => b.output a :: (b.note a).expected rest

end Book

/-- `on_receive` of the packets, one after the other, with what each of them
made it forward. -/
def Protocol.receiveAll : Protocol → List Arrival → Checked (Protocol × List (List Datagram))
  | p, [] => .ok (p, [])
  | p, a :: rest => do
      let (p, out) ← p.onReceive a.stale a.data a.length
      let (p, outs) ← p.receiveAll rest
      .ok (p, out :: outs)

/-! ## The table keeps to the book -/

/-- The identifiers with a buffer are those with a datagram under way, and each
buffer has collected what the book says. -/
structure Keeps (p : Protocol) (b : Book) : Prop where
  sound : p.reassemblyBuffers.Sound
  opened : ∀ ident, p.reassemblyBuffers.Contains ident ↔ (b ident).isSome
  collects : ∀ it ident v pr, p.reassemblyBuffers.entry it = some ⟨ident, v⟩ →
    b ident = some pr → Collects v pr.split pr.received
  begun : ∀ ident pr, b ident = some pr →
    pr.received.Nonempty ∧ pr.received ≠ Finset.range pr.split.count

variable {p : Protocol} {b : Book} {a : Arrival} {pkt : Packet}

theorem keeps_blank (hblank : p.reassemblyBuffers = .blank) : Keeps p Book.empty := by
  have hsound : p.reassemblyBuffers.Sound := hblank ▸ UnorderedMap.Sound.blank (by decide)
  have hnone : ∀ it, p.reassemblyBuffers.entry it = none := by
    intro it
    rw [hblank]
    exact Pool.lookup_blank it
  refine ⟨hsound, ?_, ?_, ?_⟩
  · intro ident
    constructor
    · rintro ⟨it, v, he⟩
      rw [hnone] at he
      cases he
    · intro hopen
      cases hopen
  · intro it ident v pr he
    rw [hnone] at he
    cases he
  · intro ident pr hpr
    cases hpr

theorem Keeps.update (h : Keeps p b) {m : Buffers} (hm : m.Sound) {it : Nat} {ident : Identifier}
    (hslot : ∀ e, p.reassemblyBuffers.entry it = some e → e.key = ident)
    (hothers : ∀ j, j ≠ it → m.entry j = p.reassemblyBuffers.entry j)
    (honly : ∀ j e, j ≠ it → p.reassemblyBuffers.entry j = some e → e.key ≠ ident)
    (new : Option (ReassemblyBuffer × Progress))
    (hnew : m.entry it = new.map fun x => ⟨ident, x.1⟩)
    (hcollects : ∀ x ∈ new, Collects x.1 x.2.split x.2.received ∧ x.2.received.Nonempty ∧
      x.2.received ≠ Finset.range x.2.split.count) :
    Keeps { p with reassemblyBuffers := m } (update b ident (new.map Prod.snd)) := by
  refine ⟨hm, ?_, ?_, ?_⟩
  · intro other
    show m.Contains other ↔ _
    by_cases hother : other = ident
    · subst hother
      rw [update_self]
      constructor
      · rintro ⟨j, v, hj⟩
        by_cases hji : j = it
        · rw [hji, hnew] at hj
          cases new with
          | none => cases hj
          | some x => rfl
        · rw [hothers j hji] at hj
          exact absurd rfl (honly j _ hji hj)
      · intro hsome
        cases new with
        | none => cases hsome
        | some x => exact ⟨it, x.1, hnew⟩
    · rw [update_of_ne hother, ← h.opened other]
      constructor
      · rintro ⟨j, v, hj⟩
        by_cases hji : j = it
        · rw [hji, hnew, Option.map_eq_some_iff] at hj
          obtain ⟨x, _, hx⟩ := hj
          cases hx
          exact absurd rfl hother
        · exact ⟨j, v, (hothers j hji).symm.trans hj⟩
      · rintro ⟨j, v, hj⟩
        by_cases hji : j = it
        · rw [hji] at hj
          exact absurd (hslot _ hj) hother
        · exact ⟨j, v, (hothers j hji).trans hj⟩
  · intro j other v pr hj hpr
    have hj' : m.entry j = some ⟨other, v⟩ := hj
    by_cases hji : j = it
    · rw [hji, hnew, Option.map_eq_some_iff] at hj'
      obtain ⟨x, hx, hentry⟩ := hj'
      cases hentry
      rw [update_self, hx] at hpr
      cases hpr
      exact (hcollects x hx).1
    · rw [hothers j hji] at hj'
      rw [update_of_ne (honly j _ hji hj')] at hpr
      exact h.collects j other v pr hj' hpr
  · intro other pr hpr
    by_cases hother : other = ident
    · subst hother
      rw [update_self, Option.map_eq_some_iff] at hpr
      obtain ⟨x, hx, rfl⟩ := hpr
      exact (hcollects x hx).2
    · rw [update_of_ne hother] at hpr
      exact h.begun other pr hpr

/-! ## One arrival -/

theorem store_fragment {v : ReassemblyBuffer} {received : Finset Nat}
    (h : Collects v a.split received) (hpkt : a.Carried pkt) :
    ∃ d, Protocol.store v pkt = .ok d ∧
      Collects (v.taking pkt d) a.split (insert a.index received) := by
  have hsize : pkt.payloadSize.toNat = a.split.cut (a.index + 1) - a.split.cut a.index := by
    rw [← a.split.length_piece hpkt.index, ← hpkt.payload, Bytes.length_first]
  have hend := a.split.cut_le_length (show a.index + 1 ≤ a.split.count from hpkt.index)
  have hshort := a.split.short
  have hlast : (!pkt.moreFragments) = true ↔ a.index + 1 = a.split.count := by
    have hindex := hpkt.index
    rw [Bool.not_eq_true', ← Bool.not_eq_true, hpkt.more]
    omega
  obtain ⟨d, hcall, hcollects⟩ :=
    h.insert hpkt.index pkt.payload (by rw [← hsize, hpkt.payload]) (!pkt.moreFragments) hlast
  refine ⟨d, ?_, hcollects⟩
  unfold Protocol.store
  rw [hpkt.offset, signed_of_lt (by omega), hsize]
  exact hcall

theorem Keeps.locate (h : Keeps p b) (hroom : p.reassemblyBuffers.full = false)
    (hadmits : b.Admits a) :
    ∃ m it v, Protocol.locate p.reassemblyBuffers (ReassemblyBuffer.new a.stale) a.ident
        = .ok (m, it) ∧ m.Sound ∧ m.entry it = some ⟨a.ident, v⟩ ∧ Collects v a.split (b.received a) ∧
      (∀ e, p.reassemblyBuffers.entry it = some e → e.key = a.ident) ∧
      (∀ j, j ≠ it → m.entry j = p.reassemblyBuffers.entry j) := by
  cases hb : b a.ident with
  | some pr =>
    obtain ⟨it, v, he⟩ := (h.opened a.ident).mpr (by rw [hb]; rfl)
    have hfind := UnorderedMap.find_of_lookup h.sound.wf h.sound.distinct he
    have hcollects := h.collects it a.ident v pr he hb
    rw [hadmits pr hb] at hcollects
    refine ⟨_, it, v, Protocol.locate_present _ hfind, h.sound, he, ?_, ?_, fun _ _ => rfl⟩
    · unfold Book.received
      rw [hb]
      exact hcollects
    · intro e he'
      rw [he] at he'
      cases he'
      rfl
  | none =>
    have habsent : ¬ p.reassemblyBuffers.Contains a.ident := by
      rw [h.opened, hb]
      decide
    obtain ⟨v, hnew, hcollects⟩ := collects_new a.stale a.split
    obtain ⟨m, it, hcall, hwf, hfree, hl⟩ := Protocol.locate_absent h.sound.wf hroom habsent hnew
    refine ⟨m, it, v, hcall, h.sound.fill hwf habsent hl, by rw [hl, if_pos rfl], ?_, ?_, ?_⟩
    · unfold Book.received
      rw [hb]
      exact hcollects
    · intro e he
      rw [hfree] at he
      cases he
    · intro j hj
      rw [hl, if_neg hj]

/-- A fragment that goes to its buffer: what the book says is forwarded. -/
theorem Keeps.reassemble (h : Keeps p b) (hroom : p.reassemblyBuffers.full = false)
    (hadmits : b.Admits a) (hpkt : a.Carried pkt) :
    ∃ m, p.reassemble a.stale pkt = .ok ({ p with reassemblyBuffers := m }, b.output a) ∧
      Keeps { p with reassemblyBuffers := m } (b.note a) := by
  obtain ⟨m1, it, v, hlocate, hm1, he, hcollects, hslot, hothers⟩ := h.locate hroom hadmits
  obtain ⟨d, hstore, hcollects'⟩ := store_fragment hcollects hpkt
  have honly : ∀ j e, j ≠ it → p.reassemblyBuffers.entry j = some e → e.key ≠ a.ident := by
    intro j e hj hje hkey
    rw [← hothers j hj] at hje
    exact hj (hm1.distinct j it e _ hje he hkey)
  have hcall : ∀ m out, Protocol.addFragment m1 it pkt = .ok (m, out) →
      p.reassemble a.stale pkt = .ok ({ p with reassemblyBuffers := m }, out) := by
    intro m out hadd
    unfold Protocol.reassemble
    rw [if_neg (by simp [hroom]), hpkt.ident, hlocate, ok_bind]
    simp only
    rw [hadd]
    rfl
  cases hdone : b.completes a with
  | true =>
    -- nothing is missing any more
    have hall := of_decide_eq_true hdone
    rw [hall] at hcollects'
    obtain ⟨hlast, hsize, hbytes⟩ := hcollects'.complete
    have hpos := a.split.length_pos
    obtain ⟨m, hadd, hwf, hl⟩ := Protocol.addFragment_spec hm1.wf he
      (Protocol.outcome_completes hstore hlast hsize
        (show (a.split.payload.length : Int) > 0 by omega))
    refine ⟨m, ?_, ?_⟩
    · rw [hcall _ _ hadd, Book.output_complete hdone, hpkt.metadata, hpkt.protocol,
        Int.toNat_natCast]
      exact congrArg _ (congrArg _ (congrArg _ hbytes))
    · have hkeeps := h.update (hm1.free hwf hl) hslot
        (fun j hj => by rw [hl, if_neg hj, hothers j hj]) honly none (by rw [hl, if_pos rfl]; rfl)
        (fun x hx => by cases hx)
      rw [Book.note_complete hdone]
      exact hkeeps
  | false =>
    have hmissing := of_decide_eq_false hdone
    obtain ⟨m, hadd, hwf, hl⟩ := Protocol.addFragment_spec hm1.wf he
      (Protocol.outcome_waits hstore fun hlast => hcollects'.incomplete hmissing hlast)
    refine ⟨m, ?_, ?_⟩
    · rw [hcall _ _ hadd, Book.output_missing hdone]
    · have hkeeps := h.update (hm1.assign hwf he hl) hslot
        (fun j hj => by rw [hl, if_neg hj, hothers j hj]) honly
        (some (v.taking pkt d, ⟨a.split, insert a.index (b.received a)⟩))
        (by rw [hl, if_pos rfl]; rfl)
        (fun x hx => by
          cases hx
          exact ⟨hcollects', Finset.insert_nonempty _ _, hmissing⟩)
      rw [Book.note_missing hdone]
      exact hkeeps

theorem Arrival.Carried.single (hpkt : a.Carried pkt) (hofs : pkt.fragOfs = 0) :
    a.index = 0 ∧ a.split.count = 1 := by
  have hoffset := hpkt.offset
  have hmore : ¬ a.index + 1 < a.split.count := by
    rw [← hpkt.more]
    unfold Packet.moreFragments Packet.flags
    rw [hofs]
    decide
  unfold Packet.fragOffset at hoffset
  rw [hofs] at hoffset
  have hzero : 0 = a.split.cut a.index := hoffset
  have hindex := hpkt.index
  have hfar := a.split.forty_mul_le hindex
  omega

theorem Keeps.whole (h : Keeps p b) (hadmits : b.Admits a) (hpkt : a.Carried pkt)
    (hofs : pkt.fragOfs = 0) :
    b.note a = b ∧ forwardDatagram pkt.metadata pkt.protocol
      (pkt.payload.first pkt.payloadSize.toNat) = b.output a := by
  obtain ⟨hindex, hcount⟩ := hpkt.single hofs
  -- a datagram of one fragment is never under way
  have hnone : b a.ident = none := by
    cases hb : b a.ident with
    | none => rfl
    | some pr =>
      obtain ⟨it, v, he⟩ := (h.opened a.ident).mpr (by rw [hb]; rfl)
      obtain ⟨⟨k, hk⟩, hmissing⟩ := h.begun a.ident pr hb
      have hsub := (h.collects it a.ident v pr he hb).indices
      rw [hadmits pr hb, hcount] at hmissing hsub
      have hzero := Finset.mem_range.mp (hsub hk)
      rw [Nat.lt_one_iff.mp hzero] at hk
      refine absurd (Finset.Subset.antisymm hsub ?_) hmissing
      intro j hj
      rw [Nat.lt_one_iff.mp (Finset.mem_range.mp hj)]
      exact hk
  have hdone : b.completes a = true := by
    unfold Book.completes Book.received
    rw [hnone, hindex, hcount]
    rfl
  have hwhole : a.split.piece a.index = a.split.payload := by
    have hstart := a.split.cut_zero
    have hend := a.split.cut_count
    rw [hcount] at hend
    rw [hindex, Split.piece, hstart, hend, drop_zero, Nat.sub_zero, take_length]
  constructor
  · rw [Book.note_complete hdone, ← hnone, update_eq_self]
  · rw [Book.output_complete hdone, hpkt.metadata, hpkt.protocol, hpkt.payload, hwhole]

/-- One arrival. `on_receive` returns, forwards what the book says, and
keeps to the book. -/
theorem receive_keeps (h : Keeps p b) (hroom : p.reassemblyBuffers.full = false)
    (hadmits : b.Admits a) (hfrag : a.IsFragment p) :
    ∃ m, p.onReceive a.stale a.data a.length
        = .ok ({ p with reassemblyBuffers := m }, b.output a) ∧
      Keeps { p with reassemblyBuffers := m } (b.note a) := by
  obtain ⟨pkt, hexamine, hpkt⟩ := hfrag
  by_cases hofs : pkt.fragOfs = 0
  · obtain ⟨hnote, hout⟩ := h.whole hadmits hpkt hofs
    refine ⟨p.reassemblyBuffers, ?_, ?_⟩
    · rw [Protocol.onReceive_whole hexamine hofs, hout]
    · rw [hnote]
      exact h
  · rw [Protocol.onReceive_fragment hexamine hofs]
    exact h.reassemble hroom hadmits hpkt

/-! ## A run -/

/-- At no time are more than nine buffers in use. -/
def Protocol.Roomy (p : Protocol) (arrivals : List Arrival) : Prop :=
  ∀ before p' outs, before <+: arrivals → p.receiveAll before = .ok (p', outs) →
    p'.reassemblyBuffers.size ≤ 9

/-- At most nine are in use after the arrivals. -/
def Protocol.fits (p : Protocol) (arrivals : List Arrival) : Bool :=
  match p.receiveAll arrivals with
  | .ok (p', _) => p'.reassemblyBuffers.size ≤ 9
  | .error _ => true

theorem Protocol.roomy_iff {arrivals : List Arrival} :
    (∀ before ∈ arrivals.inits, p.fits before = true) ↔ p.Roomy arrivals := by
  unfold Protocol.Roomy Protocol.fits
  constructor
  · intro h before p' outs hprefix hrun
    have hfits := h before ((mem_inits before arrivals).mpr hprefix)
    rw [hrun] at hfits
    exact of_decide_eq_true hfits
  · intro h before hbefore
    have hprefix := (mem_inits before arrivals).mp hbefore
    cases hrun : p.receiveAll before with
    | error e => rfl
    | ok r => exact decide_eq_true (h before r.1 r.2 hprefix hrun)

instance (p : Protocol) (arrivals : List Arrival) : Decidable (p.Roomy arrivals) :=
  decidable_of_iff _ Protocol.roomy_iff

theorem receiveAll_keeps (arrivals : List Arrival) : ∀ {p : Protocol} {b : Book}, Keeps p b →
    (∀ a ∈ arrivals, a.IsFragment p) → b.AdmitsAll arrivals → p.Roomy arrivals →
    ∃ p', p.receiveAll arrivals = .ok (p', b.expected arrivals) ∧
      Keeps p' (b.noteAll arrivals) := by
  induction arrivals with
  | nil =>
    intro p b h _ _ _
    exact ⟨p, rfl, h⟩
  | cons a rest ih =>
    intro p b h hfrag hadmits hroomy
    have hroom : p.reassemblyBuffers.full = false := by
      have hsize := hroomy [] p [] nil_prefix rfl
      unfold UnorderedMap.size Pool.size at hsize
      unfold UnorderedMap.full Pool.full
      rw [decide_eq_false_iff_not]
      omega
    obtain ⟨m, hcall, hkeeps⟩ := receive_keeps h hroom hadmits.1 (hfrag a (by simp))
    have hstep : ∀ l, p.receiveAll (a :: l)
        = (Protocol.receiveAll { p with reassemblyBuffers := m } l >>= fun r =>
            .ok (r.1, b.output a :: r.2)) := by
      intro l
      rw [Protocol.receiveAll, hcall, ok_bind]
    have hroomy' : Protocol.Roomy { p with reassemblyBuffers := m } rest := by
      intro before p' outs hprefix hrun
      apply hroomy (a :: before) p' (b.output a :: outs)
      · exact cons_prefix_cons.mpr ⟨rfl, hprefix⟩
      · rw [hstep, hrun]
        rfl
    obtain ⟨p', hrun, hkeeps'⟩ := ih hkeeps
      (fun a' ha' => hfrag a' (mem_cons_of_mem _ ha')) hadmits.2 hroomy'
    refine ⟨p', ?_, hkeeps'⟩
    rw [hstep, hrun]
    rfl

/-- **Every datagram is forwarded once**, if each buffer has storage of its own (`Ipv4.Shared` is
about the storage that copies share). From an empty table, whatever fragments arrive in
whatever order: the payload is forwarded at the arrival of the last missing fragment of its
datagram and at no other, and the buffers in use are those of the incomplete datagrams. -/
theorem receiveAll_expected (hblank : p.reassemblyBuffers = .blank) {arrivals : List Arrival}
    (hfrag : ∀ a ∈ arrivals, a.IsFragment p) (hadmits : Book.empty.AdmitsAll arrivals)
    (hroomy : p.Roomy arrivals) :
    ∃ p', p.receiveAll arrivals = .ok (p', Book.empty.expected arrivals) ∧
      ∀ ident, p'.reassemblyBuffers.Contains ident ↔
        (Book.empty.noteAll arrivals ident).isSome := by
  obtain ⟨p', hrun, hkeeps⟩ := receiveAll_keeps arrivals (keeps_blank hblank) hfrag hadmits hroomy
  exact ⟨p', hrun, hkeeps.opened⟩

/-! ## Packets that carry a split -/

namespace Split

variable (s : Split) (ident : Identifier)

def header (k : Nat) : Header :=
  plainHeader ident.id (UInt16.ofNat (s.cut k / 8 + if k + 1 < s.count then 8192 else 0))
    ident.protocol ident.source ident.dest (s.piece k).length

def arrival (stale : Bytes) (k : Nat) : Arrival where
  ident := ident
  split := s
  index := k
  stale := stale
  data := Bytes.ofList ((s.header ident k).seal.bytes ++ s.piece k)
  length := UInt32.ofNat ((s.header ident k).seal.bytes ++ s.piece k).length

theorem toNat_header_fragOfs {k : Nat} (hk : k < s.count) :
    (s.header ident k).fragOfs.toNat = s.cut k / 8 + if k + 1 < s.count then 8192 else 0 := by
  have hend := s.cut_le_length (Nat.le_of_lt hk)
  have hshort := s.short
  show (s.cut k / 8 + if k + 1 < s.count then 8192 else 0) % 65536 = _
  split <;> omega

theorem arrival_isFragment {p : Protocol} (hrecipient : p.isRecipient ident.dest = true)
    (stale : Bytes) {k : Nat} (hk : k < s.count) : (s.arrival ident stale k).IsFragment p := by
  have hend := s.cut_le_length (show k + 1 ≤ s.count from hk)
  have hnext := s.cut_lt_succ hk
  have hshort := s.short
  have hlength := s.length_piece hk
  have hofs := s.toNat_header_fragOfs ident hk
  have hsmall : (UInt32.ofNat (s.piece k).length).toNat = (s.piece k).length :=
    toNat_ofNat_lt (by omega)
  have hexamine := (plainHeader_plain (show 1 ≤ (s.piece k).length ∧ (s.piece k).length ≤ 65515 by
    omega) : (s.header ident k).Plain (s.piece k).length).examine hrecipient
  refine ⟨_, hexamine, rfl, hk, ?_, ?_, ?_⟩
  · obtain ⟨c, _⟩ := s.aligned k hk
    show ((s.header ident k).fragOfs.toNat &&& 8191) * 8 % 65536 = s.cut k
    rw [hofs, Nat.and_two_pow_sub_one_eq_mod _ 13]
    split <;> omega
  · show ((((s.header ident k).fragOfs >>> 12).toUInt8 &&& 2) != 0) = true ↔ k + 1 < s.count
    have hflags : ((s.header ident k).fragOfs >>> 12).toUInt8
        = if k + 1 < s.count then 2 else 0 := by
      apply UInt8.toNat_inj.mp
      show (s.header ident k).fragOfs.toNat >>> 12 % 256 = _
      rw [hofs]
      split
      · show _ = 2
        omega
      · show _ = 0
        omega
    rw [hflags]
    split
    · next hmore => exact iff_of_true rfl hmore
    · next hlast => exact iff_of_false (by decide) hlast
  · show Bytes.first _ (UInt32.ofNat (s.piece k).length).toNat = s.piece k
    rw [hsmall]
    exact Header.payload_bytes _ _

end Split

/-! ## One datagram of a run -/

def arrived (ident : Identifier) (arrivals : List Arrival) : Finset Nat :=
  ((arrivals.filter fun a => a.ident = ident).map Arrival.index).toFinset

theorem arrived_cons_self {rest : List Arrival} :
    arrived a.ident (a :: rest) = insert a.index (arrived a.ident rest) := by
  unfold arrived
  rw [filter_cons_of_pos (by simp), map_cons, toFinset_cons]

theorem arrived_cons_of_ne {ident : Identifier} {rest : List Arrival} (hne : a.ident ≠ ident) :
    arrived ident (a :: rest) = arrived ident rest := by
  unfold arrived
  rw [filter_cons_of_neg (by simp [hne])]

namespace Book

theorem noteAll_append (b : Book) (l1 l2 : List Arrival) :
    b.noteAll (l1 ++ l2) = (b.noteAll l1).noteAll l2 := foldl_append

theorem expected_append (l1 l2 : List Arrival) : ∀ b : Book,
    b.expected (l1 ++ l2) = b.expected l1 ++ (b.noteAll l1).expected l2 := by
  induction l1 with
  | nil => exact fun _ => rfl
  | cons a l1 ih =>
    intro b
    show b.output a :: (b.note a).expected (l1 ++ l2) = _
    rw [ih]
    rfl

theorem length_expected (arrivals : List Arrival) : ∀ b : Book,
    (b.expected arrivals).length = arrivals.length := by
  induction arrivals with
  | nil => exact fun _ => rfl
  | cons a rest ih =>
    intro b
    show ((b.note a).expected rest).length + 1 = _
    rw [ih]
    rfl

theorem expected_own (arrivals : List Arrival) : ∀ b : Book,
    ∀ x ∈ arrivals.zip (b.expected arrivals), x.2 = [] ∨
      x.2 = forwardDatagram ⟨x.1.ident.source, x.1.ident.dest⟩ x.1.ident.protocol
        x.1.split.payload := by
  induction arrivals with
  | nil =>
    intro b x hx
    exact absurd hx not_mem_nil
  | cons a rest ih =>
    intro b x hx
    rcases mem_cons.mp hx with rfl | hx
    · show b.output a = [] ∨ b.output a = _
      unfold output
      split
      · exact .inr rfl
      · exact .inl rfl
    · exact ih _ x hx

/-- Of the datagram `s` the book has the fragments `received` for the
identifier. -/
def Has (b : Book) (ident : Identifier) (s : Split) (received : Finset Nat) : Prop :=
  (b ident = none ∧ received = ∅) ∨ b ident = some ⟨s, received⟩

variable {received : Finset Nat} {s : Split}

theorem Has.received_eq (h : b.Has a.ident s received) : b.received a = received := by
  unfold Book.received
  rcases h with ⟨hnone, rfl⟩ | hsome
  · rw [hnone]
  · rw [hsome]

theorem Has.note_of_ne {ident : Identifier} (h : b.Has ident s received) (hne : a.ident ≠ ident) :
    (b.note a).Has ident s received := by
  have hsame : b.note a ident = b ident := update_of_ne (Ne.symm hne) _ _
  unfold Has
  rw [hsame]
  exact h

theorem Has.note_self (h : b.Has a.ident a.split received)
    (hmissing : insert a.index received ≠ Finset.range a.split.count) :
    b.output a = [] ∧ (b.note a).Has a.ident a.split (insert a.index received) := by
  have hdone : b.completes a = false := by
    unfold completes
    rw [h.received_eq]
    exact decide_eq_false hmissing
  refine ⟨output_missing hdone, .inr ?_⟩
  rw [note_missing hdone, update_self, h.received_eq]

theorem Has.run {ident : Identifier} (arrivals : List Arrival) :
    ∀ {b : Book} {received : Finset Nat}, b.Has ident s received →
    (∀ a ∈ arrivals, a.ident = ident → a.split = s ∧ a.index < s.count) →
    received ⊆ Finset.range s.count →
    received ∪ arrived ident arrivals ≠ Finset.range s.count →
    (b.noteAll arrivals).Has ident s (received ∪ arrived ident arrivals) ∧
      ∀ x ∈ arrivals.zip (b.expected arrivals), x.1.ident = ident → x.2 = [] := by
  induction arrivals with
  | nil =>
    intro b received h _ _ _
    have hnil : received ∪ arrived ident [] = received := Finset.union_empty received
    rw [hnil]
    exact ⟨h, fun x hx => absurd hx not_mem_nil⟩
  | cons a rest ih =>
    intro b received h hsplit hsub hmissing
    have hrest : ∀ a' ∈ rest, a'.ident = ident → a'.split = s ∧ a'.index < s.count :=
      fun a' ha' => hsplit a' (mem_cons_of_mem _ ha')
    by_cases hident : a.ident = ident
    · obtain ⟨hs, hindex⟩ := hsplit a (by simp) hident
      subst hident
      subst hs
      have hunion : received ∪ arrived a.ident (a :: rest)
          = insert a.index received ∪ arrived a.ident rest := by
        rw [arrived_cons_self, Finset.union_insert, Finset.insert_union]
      rw [hunion] at hmissing ⊢
      have hsub' : insert a.index received ⊆ Finset.range a.split.count :=
        Finset.insert_subset (Finset.mem_range.mpr hindex) hsub
      have hnow : insert a.index received ≠ Finset.range a.split.count := by
        intro hall
        apply hmissing
        rw [hall]
        refine Finset.union_eq_left.mpr ?_
        intro k hk
        unfold arrived at hk
        rw [mem_toFinset, mem_map] at hk
        obtain ⟨a', ha', rfl⟩ := hk
        rw [mem_filter, decide_eq_true_eq] at ha'
        exact Finset.mem_range.mpr (hrest a' ha'.1 ha'.2).2
      obtain ⟨hout, hhas⟩ := h.note_self hnow
      obtain ⟨hhas', houts⟩ := ih hhas hrest hsub' hmissing
      refine ⟨hhas', ?_⟩
      intro x hx
      rcases mem_cons.mp hx with rfl | hx
      · exact fun _ => hout
      · exact houts x hx
    · rw [arrived_cons_of_ne hident] at hmissing ⊢
      obtain ⟨hhas', houts⟩ := ih (h.note_of_ne hident) hrest hsub hmissing
      refine ⟨hhas', ?_⟩
      intro x hx
      rcases mem_cons.mp hx with rfl | hx
      · exact fun hc => absurd hc hident
      · exact houts x hx

end Book

/-- **A datagram is forwarded once, and as a whole.** In `during` some of its fragments arrive
between others, and `last` is the one still missing. Nothing of it is forwarded before `last`,
then the payload is, and the buffer is released; other datagrams forward nothing or their own
payload. -/
theorem forwarded_once (hblank : p.reassemblyBuffers = .blank) {before during : List Arrival}
    {last : Arrival} (hfrag : ∀ a ∈ before ++ during ++ [last], a.IsFragment p)
    (hadmits : Book.empty.AdmitsAll (before ++ during ++ [last]))
    (hroomy : p.Roomy (before ++ during ++ [last]))
    (hidle : Book.empty.noteAll before last.ident = none)
    (hsame : ∀ a ∈ during, a.ident = last.ident → a.split = last.split)
    (hmissing : arrived last.ident during ≠ Finset.range last.split.count)
    (hall : insert last.index (arrived last.ident during) = Finset.range last.split.count) :
    ∃ p' outs outs', p.receiveAll (before ++ during ++ [last])
        = .ok (p', outs ++ outs' ++ [forwardDatagram ⟨last.ident.source, last.ident.dest⟩
            last.ident.protocol last.split.payload]) ∧
      outs.length = before.length ∧ outs'.length = during.length ∧
      (∀ x ∈ during.zip outs', x.1.ident = last.ident → x.2 = []) ∧
      (∀ x ∈ (before ++ during).zip (outs ++ outs'), x.2 = [] ∨
        x.2 = forwardDatagram ⟨x.1.ident.source, x.1.ident.dest⟩ x.1.ident.protocol
          x.1.split.payload) ∧
      ¬ p'.reassemblyBuffers.Contains last.ident := by
  obtain ⟨p', hrun, hkeeps⟩ := receiveAll_keeps _ (keeps_blank hblank) hfrag hadmits hroomy
  have hsplit : ∀ a ∈ during, a.ident = last.ident →
      a.split = last.split ∧ a.index < last.split.count := by
    intro a ha hident
    obtain ⟨pkt, _, hpkt⟩ := hfrag a (by simp [ha])
    rw [← hsame a ha hident]
    exact ⟨rfl, hpkt.index⟩
  have hstart : (Book.empty.noteAll before).Has last.ident last.split ∅ := .inl ⟨hidle, rfl⟩
  obtain ⟨hhas, houts⟩ := Book.Has.run during hstart hsplit (Finset.empty_subset _)
    (by rw [Finset.empty_union]; exact hmissing)
  have hdone : ((Book.empty.noteAll before).noteAll during).completes last = true := by
    unfold Book.completes
    rw [hhas.received_eq]
    exact decide_eq_true hall
  refine ⟨p', Book.empty.expected before, (Book.empty.noteAll before).expected during, ?_,
    Book.length_expected _ _, Book.length_expected _ _, houts, ?_, ?_⟩
  · rw [hrun, Book.expected_append, Book.expected_append, Book.noteAll_append]
    show Except.ok (p', _ ++ [Book.output _ last]) = _
    rw [Book.output_complete hdone]
  · rw [← Book.expected_append]
    exact Book.expected_own _ _
  · rw [hkeeps.opened, Book.noteAll_append, Book.noteAll_append]
    show ¬ (Book.note _ last last.ident).isSome
    rw [Book.note_complete hdone, update_self]
    decide

def twoPieces : Split where
  payload := (List.range 41).map UInt8.ofNat
  count := 2
  cut k := if k = 0 then 0 else if k = 1 then 40 else 41
  count_pos := Nat.two_pos
  cut_zero := rfl
  cut_count := rfl
  aligned := by decide
  wide k hk := by
    obtain rfl : k = 0 := by omega
    decide
  tail := by decide
  short := by decide

/-- Fragment `k` of the two, in packets to 10.0.2.15. -/
def twoPiecesArrival (k : Nat) : Arrival :=
  twoPieces.arrival ⟨0x0A00020F, 0x0A000202, 7, Proto.UDP.value⟩ (fun _ => 0) k

theorem forwarded_once_reversed : ∃ p' outs outs',
    (Protocol.blank 0x0A00020F 0xFFFFFF00 0x0A000202).receiveAll
        ([] ++ [twoPiecesArrival 1] ++ [twoPiecesArrival 0])
      = .ok (p', outs ++ outs' ++ [forwardDatagram ⟨0x0A000202, 0x0A00020F⟩ 17
          ((List.range 41).map UInt8.ofNat)]) ∧
      outs.length = 0 ∧ outs'.length = 1 ∧
      (∀ x ∈ [twoPiecesArrival 1].zip outs', x.1.ident = (twoPiecesArrival 0).ident → x.2 = []) ∧
      (∀ x ∈ ([] ++ [twoPiecesArrival 1]).zip (outs ++ outs'), x.2 = [] ∨
        x.2 = forwardDatagram ⟨x.1.ident.source, x.1.ident.dest⟩ x.1.ident.protocol
          x.1.split.payload) ∧
      ¬ p'.reassemblyBuffers.Contains (twoPiecesArrival 0).ident := by
  have hfrag : ∀ a ∈ [] ++ [twoPiecesArrival 1] ++ [twoPiecesArrival 0],
      a.IsFragment (Protocol.blank 0x0A00020F 0xFFFFFF00 0x0A000202) := by
    intro a ha
    rcases mem_cons.mp ha with rfl | ha
    · exact twoPieces.arrival_isFragment _ rfl _ (by decide)
    · rw [mem_singleton.mp ha]
      exact twoPieces.arrival_isFragment _ rfl _ (by decide)
  have hadmits : Book.empty.AdmitsAll ([] ++ [twoPiecesArrival 1] ++ [twoPiecesArrival 0]) := by
    refine Book.admitsAll_of_split (s := twoPieces) (fun a ha => ?_) nofun
    rcases mem_cons.mp ha with rfl | ha
    · rfl
    · rw [mem_singleton.mp ha]
      rfl
  exact forwarded_once rfl hfrag hadmits (by decide +kernel) rfl (fun a ha _ => by
    rw [mem_singleton.mp ha]; rfl) (by decide) (by decide)

/-- The same of another datagram. -/
def otherArrival (k : Nat) : Arrival :=
  twoPieces.arrival ⟨0x0A00020F, 0x0A000202, 8, Proto.UDP.value⟩ (fun _ => 0) k

/-- The fragments of two datagrams cross, and one of them comes twice. Each datagram is
forwarded when it is complete. -/
theorem receiveAll_expected_crossing : ∃ p',
    (Protocol.blank 0x0A00020F 0xFFFFFF00 0x0A000202).receiveAll [twoPiecesArrival 1,
        otherArrival 0, twoPiecesArrival 1, twoPiecesArrival 0, otherArrival 1]
      = .ok (p', [[], [], [],
          forwardDatagram ⟨0x0A000202, 0x0A00020F⟩ 17 ((List.range 41).map UInt8.ofNat),
          forwardDatagram ⟨0x0A000202, 0x0A00020F⟩ 17 ((List.range 41).map UInt8.ofNat)]) ∧
      ¬ p'.reassemblyBuffers.Contains (twoPiecesArrival 0).ident ∧
      ¬ p'.reassemblyBuffers.Contains (otherArrival 0).ident := by
  have hfrag : ∀ a ∈ [twoPiecesArrival 1, otherArrival 0, twoPiecesArrival 1, twoPiecesArrival 0,
      otherArrival 1], a.split = twoPieces ∧
      a.IsFragment (Protocol.blank 0x0A00020F 0xFFFFFF00 0x0A000202) := by
    have hpiece : ∀ id k, k < 2 → (twoPieces.arrival ⟨0x0A00020F, 0x0A000202, id, Proto.UDP.value⟩
        (fun _ => 0) k).IsFragment (Protocol.blank 0x0A00020F 0xFFFFFF00 0x0A000202) :=
      fun id k hk => twoPieces.arrival_isFragment _ rfl _ hk
    intro a ha
    simp only [mem_cons, not_mem_nil, or_false] at ha
    rcases ha with rfl | rfl | rfl | rfl | rfl
    all_goals exact ⟨rfl, hpiece _ _ (by decide)⟩
  obtain ⟨p', hrun, hopen⟩ := receiveAll_expected rfl (fun a ha => (hfrag a ha).2)
    (Book.admitsAll_of_split (fun a ha => (hfrag a ha).1) nofun) (by decide +kernel)
  refine ⟨p', hrun, ?_, ?_⟩
  · rw [hopen]
    decide
  · rw [hopen]
    decide

end Peos2.Ipv4
