/-
  Net.Recovery — what becomes of reassembly buffers in a running stack.

  A buffer of an incomplete datagram has 20 seconds to live. The clock of the
  stack never reaches it, so only the missing fragment releases it, and ten
  incomplete datagrams are the end of reassembly.

  Main results: `recovers_iff`, `flood_never_recovers`.
-/
import Peos2.Ipv4.Reassembly
import Peos2.Net.Stack

namespace Peos2.Net

open Peos2.Lib Peos2.Support List
open Peos2.Ipv4 (Proto Datagram Protocol Identifier Arrival Book Keeps)

variable {σ : Type}

/-! ## The age of a buffer -/

inductive Event where
  | frame (stale data : Bytes) (length : UInt32)
  | tick (deltaMs : UInt32)

/-- A stack, and for each slot of the reassembly table the milliseconds that were
given to `tick` since the buffer in it was created. -/
structure Timed (σ : Type) where
  stack : Stack σ
  age : Nat → Nat

namespace Timed

def occupied (t : Timed σ) (it : Nat) : Bool := (t.stack.table.entry it).isSome

/-- One event. A buffer that was not there before a frame is new. -/
def step (layers : Layers σ) (t : Timed σ) : Event → Checked (Timed σ)
  | .frame stale data length => do
      let stack ← t.stack.onReceive layers stale data length
      .ok ⟨stack, fun it => if t.occupied it then t.age it else 0⟩
  | .tick deltaMs => do
      let stack ← t.stack.tick layers deltaMs
      .ok ⟨stack, fun it => t.age it + deltaMs.toNat⟩

def run (layers : Layers σ) : Timed σ → List Event → Checked (Timed σ)
  | t, [] => .ok t
  | t, ev :: rest => do
      let t ← t.step layers ev
      run layers t rest

theorem run_append (layers : Layers σ) (first second : List Event) : ∀ t : Timed σ,
    t.run layers (first ++ second) = t.run layers first >>= fun t => t.run layers second := by
  induction first with
  | nil => exact fun _ => rfl
  | cons ev first ih =>
    intro t
    show (t.step layers ev >>= fun t => t.run layers (first ++ second))
      = (t.step layers ev >>= fun t => t.run layers first) >>= fun t => t.run layers second
    cases t.step layers ev with
    | error e => rfl
    | ok t' => exact ih t'

def Fresh (t : Timed σ) : Prop :=
  ∃ localAddr netmask gateway, t.stack.ipv4 = .blank localAddr netmask gateway

/-- No buffer is there for 20 seconds, and if all of them have been, there is room
for fragments again. -/
structure Recovers (t : Timed σ) : Prop where
  released : ∀ it, t.occupied it = true → t.age it < 20000
  accepts : (∀ it, t.occupied it = true → 20000 ≤ t.age it) → t.stack.table.full = false

/-- The event is no tick that takes a buffer to the end of its time. -/
def Harmless (t : Timed σ) : Event → Prop
  | .frame _ _ _ => True
  | .tick deltaMs => ∀ it, t.occupied it = true → t.age it + deltaMs.toNat < 20000

variable {layers : Layers σ} {t t' : Timed σ} {ev : Event}

theorem step_sound (ht : t.stack.table.Sound) (h : t.step layers ev = .ok t') :
    t'.stack.table.Sound ∧ Protocol.Follows t.stack.table t'.stack.table := by
  cases ev with
  | frame stale data length =>
    rw [step, bind_ok] at h
    obtain ⟨stack, hcall, h⟩ := h
    cases h
    exact Stack.onReceive_sound ht hcall
  | tick deltaMs =>
    rw [step, bind_ok] at h
    obtain ⟨stack, hcall, h⟩ := h
    cases h
    show stack.table.Sound ∧ Protocol.Follows _ stack.table
    rw [Stack.tick_table hcall]
    exact ⟨ht, Protocol.Follows.refl _⟩

theorem recovers_of_released (ht : t.stack.table.Sound)
    (hreleased : ∀ it, t.occupied it = true → t.age it < 20000) : t.Recovers := by
  refine ⟨hreleased, ?_⟩
  intro hold
  apply UnorderedMap.not_full_of_empty ht.wf (by decide)
  intro it
  rw [← Option.not_isSome_iff_eq_none]
  intro hsome
  have hyoung := hreleased it hsome
  have hold' := hold it hsome
  omega

/-- One event. The promise is kept exactly if the event is harmless. -/
theorem step_recovers (ht : t.stack.table.Sound) (hrec : t.Recovers)
    (h : t.step layers ev = .ok t') : t'.Recovers ↔ t.Harmless ev := by
  have hsound := (step_sound ht h).1
  cases ev with
  | frame stale data length =>
    rw [step, bind_ok] at h
    obtain ⟨stack, _, h⟩ := h
    cases h
    refine iff_of_true (recovers_of_released hsound ?_) trivial
    intro it _
    show (if t.occupied it then t.age it else 0) < 20000
    split
    · next hocc => exact hrec.released it hocc
    · decide
  | tick deltaMs =>
    rw [step, bind_ok] at h
    obtain ⟨stack, hcall, h⟩ := h
    cases h
    have hocc : ∀ it, (⟨stack, fun it => t.age it + deltaMs.toNat⟩ : Timed σ).occupied it
        = t.occupied it := by
      intro it
      unfold occupied
      rw [Stack.tick_table hcall]
    constructor
    · intro hrec' it hit
      exact hrec'.released it ((hocc it).trans hit)
    · intro hharmless
      apply recovers_of_released hsound
      intro it hit
      rw [hocc] at hit
      exact hharmless it hit

/-! ## Runs -/

/-- The runs without a tick that takes a buffer to the end of its time. -/
def Timely (layers : Layers σ) : Timed σ → Prop :=
  Reach Fresh fun t t' => ∃ ev, t.Harmless ev ∧ t.step layers ev = .ok t'

theorem fresh_unoccupied (h : t.Fresh) : t.stack.table.Sound ∧ ∀ it, t.occupied it = false := by
  obtain ⟨localAddr, netmask, gateway, hblank⟩ := h
  have htable : t.stack.table = .blank := by
    unfold Stack.table
    rw [hblank]
    rfl
  refine ⟨htable ▸ UnorderedMap.Sound.blank (by decide), ?_⟩
  intro it
  unfold occupied
  rw [htable]
  exact congrArg Option.isSome (Pool.lookup_blank it)

theorem Timely.recovers (h : Timely layers t) : t.stack.table.Sound ∧ t.Recovers := by
  induction h with
  | init hfresh =>
    obtain ⟨hsound, hnone⟩ := fresh_unoccupied hfresh
    refine ⟨hsound, recovers_of_released hsound ?_⟩
    intro it hit
    rw [hnone] at hit
    cases hit
  | step _ hstep ih =>
    obtain ⟨ev, hharmless, hcall⟩ := hstep
    exact ⟨(step_sound ih.1 hcall).1, (step_recovers ih.1 ih.2 hcall).mpr hharmless⟩

theorem full_forever (hfull : t.stack.table.full = true)
    (h : Reach (fun u => u = t) (fun u u' => ∃ ev, u.step layers ev = .ok u') t') :
    t'.stack.table = t.stack.table := by
  induction h with
  | init heq => rw [heq]
  | step _ hstep ih =>
    obtain ⟨ev, hcall⟩ := hstep
    cases ev with
    | frame stale data length =>
      rw [step, bind_ok] at hcall
      obtain ⟨stack, hcall, heq⟩ := hcall
      cases heq
      exact (Stack.onReceive_full (by rw [ih]; exact hfull) hcall).trans ih
    | tick deltaMs =>
      rw [step, bind_ok] at hcall
      obtain ⟨stack, hcall, heq⟩ := hcall
      cases heq
      exact (Stack.tick_table hcall).trans ih

end Timed

/-! ## A flood -/

/-- A fragment of a datagram in several, in a packet that fits a frame. -/
structure Incomplete (p : Protocol) (a : Arrival) : Prop where
  fragment : a.IsFragment p
  several : 2 ≤ a.split.count
  length : a.length.toNat ≤ 65535

/-- The table is full, or has a buffer for each of the identifiers. -/
def Stack.Filling (s : Stack σ) (idents : List Identifier) : Prop :=
  s.table.full = true ∨
    ∃ b : Book, Keeps s.ipv4 b ∧ ∀ ident, (b ident).isSome ↔ ident ∈ idents

variable {s : Stack σ} {idents : List Identifier} {a : Arrival}

theorem Incomplete.output {p : Protocol} {b : Book} (ha : Incomplete p a) (hnone : b a.ident = none) :
    b.output a = [] ∧
      b.note a = Function.update b a.ident (some ⟨a.split, insert a.index (b.received a)⟩) := by
  have hdone : b.completes a = false := by
    apply decide_eq_false
    intro hall
    have hcard := congrArg Finset.card hall
    unfold Book.received at hcard
    rw [hnone, Finset.card_range, LawfulSingleton.insert_empty_eq, Finset.card_singleton] at hcard
    have hseveral := ha.several
    omega
  exact ⟨Book.output_missing hdone, Book.note_missing hdone⟩

theorem Incomplete.onReceive_full {p : Protocol} (ha : Incomplete p a)
    (hfull : p.reassemblyBuffers.full = true) :
    p.onReceive a.stale a.data a.length = .ok (p, []) := by
  obtain ⟨pkt, hexamine, hpkt⟩ := ha.fragment
  have hofs : pkt.fragOfs ≠ 0 := by
    intro hzero
    have hone := (hpkt.single hzero).2
    have hseveral := ha.several
    omega
  rw [Protocol.onReceive_fragment hexamine hofs, Protocol.reassemble_full a.stale hfull]

theorem Stack.Filling.frame (layers : Layers σ) (h : s.Filling idents) (ha : Incomplete s.ipv4 a)
    (hnew : a.ident ∉ idents) :
    ∃ m, s.onReceive layers a.stale (encapsulate a.data) (a.length + 14)
        = .ok { s with ipv4 := { s.ipv4 with reassemblyBuffers := m } } ∧
      Stack.Filling { s with ipv4 := { s.ipv4 with reassemblyBuffers := m } }
        (a.ident :: idents) := by
  rw [onReceive_encapsulate layers s a.stale a.data ha.length]
  cases hfull : s.table.full with
  | true =>
    refine ⟨s.ipv4.reassemblyBuffers, ?_, .inl hfull⟩
    rw [ha.onReceive_full hfull, ok_bind]
    rfl
  | false =>
    rcases h with hfull' | ⟨b, hkeeps, hopen⟩
    · rw [hfull] at hfull'
      cases hfull'
    have hnone : b a.ident = none := by
      rw [← Option.not_isSome_iff_eq_none, hopen]
      exact hnew
    have hadmits : b.Admits a := by
      intro pr hpr
      rw [hnone] at hpr
      cases hpr
    obtain ⟨m, hcall, hkeeps'⟩ := Ipv4.receive_keeps hkeeps hfull hadmits ha.fragment
    obtain ⟨hout, hnote⟩ := ha.output hnone
    rw [hnote] at hkeeps'
    refine ⟨m, ?_, .inr ⟨_, hkeeps', ?_⟩⟩
    · rw [hcall, ok_bind, hout]
      rfl
    · intro ident
      rw [mem_cons]
      by_cases hident : ident = a.ident
      · rw [hident, Function.update_self]
        exact iff_of_true rfl (.inl rfl)
      · rw [Function.update_of_ne hident, hopen]
        exact (or_iff_right hident).symm

theorem Stack.Filling.full (h : s.Filling idents) (hdistinct : idents.Nodup)
    (hmany : 10 ≤ idents.length) : s.table.full = true := by
  rcases h with hfull | ⟨b, hkeeps, hopen⟩
  · exact hfull
  · have hsize := UnorderedMap.length_le_size hkeeps.sound.wf hdistinct
      (fun ident hident => (hkeeps.opened ident).mpr ((hopen ident).mpr hident))
    exact decide_eq_true (Nat.le_trans hmany hsize)

namespace Timed

variable {layers : Layers σ} {t t' : Timed σ}

/-- The arrival of the packet in a frame. -/
def frameOf (a : Arrival) : Event :=
  .frame a.stale (Stack.encapsulate a.data) (a.length + 14)

theorem run_filling (layers : Layers σ) (flood : List Arrival) :
    ∀ {t : Timed σ} {idents : List Identifier}, t.stack.Filling idents →
    (∀ a ∈ flood, Incomplete t.stack.ipv4 a) → (flood.map Arrival.ident).Nodup →
    (∀ a ∈ flood, a.ident ∉ idents) →
    ∃ t', t.run layers (flood.map frameOf) = .ok t' ∧
      t'.stack.Filling ((flood.map Arrival.ident).reverse ++ idents) := by
  induction flood with
  | nil =>
    intro t idents h _ _ _
    exact ⟨t, rfl, h⟩
  | cons a rest ih =>
    intro t idents h hincomplete hdistinct hnew
    obtain ⟨m, hcall, hfilling⟩ := h.frame layers (hincomplete a (by simp)) (hnew a (by simp))
    rw [map_cons, nodup_cons] at hdistinct
    have hrest : ∀ a' ∈ rest, a'.ident ∉ a.ident :: idents := by
      intro a' ha' hmem
      rcases mem_cons.mp hmem with heq | hold
      · exact hdistinct.1 (heq ▸ mem_map_of_mem ha')
      · exact hnew a' (mem_cons_of_mem _ ha') hold
    -- the checks look at the addresses, and these stay
    have hincomplete' : ∀ a' ∈ rest, Incomplete { t.stack.ipv4 with reassemblyBuffers := m } a' := by
      intro a' ha'
      obtain ⟨hfragment, hseveral, hlength⟩ := hincomplete a' (mem_cons_of_mem _ ha')
      exact ⟨hfragment, hseveral, hlength⟩
    obtain ⟨t', hrun, hfilling'⟩ :=
      @ih ⟨_, fun it => if t.occupied it then t.age it else 0⟩ _ hfilling hincomplete' hdistinct.2
        hrest
    refine ⟨t', ?_, ?_⟩
    · show (t.step layers (frameOf a) >>= fun t => t.run layers (rest.map frameOf)) = _
      unfold step frameOf
      simp only
      rw [hcall]
      exact hrun
    · rw [map_cons, reverse_cons, append_assoc]
      exact hfilling'

theorem flood_fills (layers : Layers σ) (hfresh : t.Fresh) {flood : List Arrival}
    (hincomplete : ∀ a ∈ flood, Incomplete t.stack.ipv4 a)
    (hdistinct : (flood.map Arrival.ident).Nodup) (hmany : 10 ≤ flood.length) :
    ∃ t', t.run layers (flood.map frameOf) = .ok t' ∧ t'.stack.table.full = true := by
  obtain ⟨localAddr, netmask, gateway, hblank⟩ := hfresh
  have hstart : t.stack.Filling [] := by
    refine .inr ⟨Book.empty, Ipv4.keeps_blank (by rw [hblank]; rfl), ?_⟩
    intro ident
    exact iff_of_false Bool.false_ne_true not_mem_nil
  obtain ⟨t', hrun, hfilling⟩ := run_filling layers flood hstart hincomplete hdistinct
    (fun a _ => not_mem_nil)
  refine ⟨t', hrun, hfilling.full ?_ ?_⟩
  · rw [append_nil, nodup_reverse]
    exact hdistinct
  · rw [append_nil, length_reverse, length_map]
    exact hmany

/-! ## The promise -/

/-- **When buffers are released in time.** Up to the first tick that takes a buffer to the end
of its time there is none older; and that tick leaves such a buffer in the table. -/
theorem recovers_iff (layers : Layers σ) {t : Timed σ} (h : Timely layers t) :
    t.Recovers ∧ ∀ ev t', t.step layers ev = .ok t' → (t'.Recovers ↔ t.Harmless ev) := by
  obtain ⟨hsound, hrec⟩ := h.recovers
  exact ⟨hrec, fun ev t' hcall => step_recovers hsound hrec hcall⟩

/-- Layers that do nothing but note what they are given. -/
def noting : Layers (List Datagram) where
  arpReceive _ _ _ _ given := .ok (given, [])
  arpTick _ _ given := .ok (given, [])
  deliver _ d given := .ok (given ++ [d], [])

def atStart : Timed (List Datagram) :=
  ⟨⟨.blank 0x0A00020F 0xFFFFFF00 0x0A000202, []⟩, fun _ => 0⟩

/-- The second fragment of a datagram in two, with this identification. -/
def secondPiece (id : UInt16) : Arrival :=
  Ipv4.twoPieces.arrival ⟨0x0A00020F, 0x0A000202, id, Proto.UDP.value⟩ (fun _ => 0) 1

def tenPieces : List Arrival := (List.range 10).map fun n => secondPiece (UInt16.ofNat n)

instance (t : Timed σ) : (ev : Event) → Decidable (t.Harmless ev)
  | .frame _ _ _ => .isTrue trivial
  | .tick deltaMs => decidable_of_iff (∀ it < t.stack.table.storage.watermark,
      t.occupied it = true → t.age it + deltaMs.toNat < 20000)
    ⟨fun h it hit => by
      obtain ⟨e, he⟩ := Option.isSome_iff_exists.mp hit
      exact h it (Pool.lookup_lt_watermark he) hit,
     fun h it _ => h it⟩

/-- Two fragments, and nine seconds after each. The first buffer can wait for 1999 milliseconds
more, and not for 2000. -/
theorem recovers_iff_waiting : ∃ t, runGuarded Harmless (step noting) [frameOf (secondPiece 1),
      .tick 9000, frameOf (secondPiece 2), .tick 9000] atStart = .ok t ∧
    t.stack.table.size = 2 ∧ t.Recovers ∧
    (∀ t', t.step noting (.tick 1999) = .ok t' → t'.Recovers) ∧
    ∀ t', t.step noting (.tick 2000) = .ok t' → ¬ t'.Recovers := by
  have hvalues : (runGuarded Harmless (step noting) [frameOf (secondPiece 1), .tick 9000,
      frameOf (secondPiece 2), .tick 9000] atStart).map (fun t => (t.stack.table.size,
        decide (t.Harmless (.tick 1999)), decide (t.Harmless (.tick 2000))))
      = .ok (2, true, false) := by decide +kernel
  obtain ⟨t, hrun, hvalues⟩ := map_ok.mp hvalues
  simp only [Prod.mk.injEq, decide_eq_true_eq, decide_eq_false_iff_not] at hvalues
  obtain ⟨hsize, hbefore, hafter⟩ := hvalues
  have htimely : Timely noting t :=
    Reach.runGuarded (fun _ ev _ _ hharmless hcall => ⟨ev, hharmless, hcall⟩)
      (.init ⟨0x0A00020F, 0xFFFFFF00, 0x0A000202, rfl⟩) hrun
  obtain ⟨hrec, hnext⟩ := recovers_iff noting htimely
  exact ⟨t, hrun, hsize, hrec, fun t' hcall => (hnext _ t' hcall).mpr hbefore,
    fun t' hcall hrec' => hafter ((hnext _ t' hcall).mp hrec')⟩

/-- After ten incomplete datagrams and 20 seconds every buffer is still in use,
and will be. -/
theorem flood_never_recovers : ∃ t, atStart.run noting (tenPieces.map frameOf ++ [.tick 20000])
      = .ok t ∧
    t.stack.table.full = true ∧ (∀ it, 20000 ≤ t.age it) ∧ ¬ t.Recovers ∧
    ∀ t', Reach (fun u => u = t) (fun u u' => ∃ ev, u.step noting ev = .ok u') t' →
      t'.stack.table.full = true := by
  have hincomplete : ∀ a ∈ tenPieces, Incomplete atStart.stack.ipv4 a := by
    intro a ha
    obtain ⟨n, _, rfl⟩ := mem_map.mp ha
    refine ⟨Ipv4.twoPieces.arrival_isFragment _ rfl _ (by decide), Nat.le_refl 2, ?_⟩
    show (UInt32.ofNat 21).toNat ≤ 65535
    decide
  obtain ⟨t1, hrun, hfull⟩ := flood_fills noting ⟨_, _, _, rfl⟩ hincomplete (by decide) (by decide)
  have htick : t1.step noting (.tick 20000) = .ok ⟨t1.stack, fun it => t1.age it + 20000⟩ := rfl
  have hfull' : (⟨t1.stack, fun it => t1.age it + 20000⟩ : Timed _).stack.table.full = true := hfull
  refine ⟨_, ?_, hfull', fun it => Nat.le_add_left _ _, ?_, ?_⟩
  · rw [run_append, hrun, ok_bind, run, htick]
    rfl
  · intro hrec
    have hempty := hrec.accepts fun it _ => Nat.le_add_left _ _
    rw [hfull'] at hempty
    cases hempty
  · intro t' h
    rw [full_forever hfull' h]
    exact hfull'

end Timed

end Peos2.Net
