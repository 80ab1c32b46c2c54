/-
  Tcp.Demux — which connection gets a segment, and what it gets.

  A connection that `LISTEN` creates takes its endpoints from the SYN. A field that is 0
  there is a wildcard, so a SYN with an address or a port 0 makes a connection that matches
  other peers too, and with more fields than the listener has. The data offset of a header
  is subtracted from the length without a look.

  Main results: `bestMatch_mostSpecific`, `belongs_iff`, `handsSuffix_iff`.
-/
import Peos2.Tcp.Progress
import Peos2.Tcp.Protocol

namespace Peos2.Tcp

open Peos2.Lib Peos2.Support Pool Header Option

/-! ## Matching -/

/-- A filter lets an endpoint through: each field agrees or is a wildcard. -/
def Endpoint.Covers (filter endpoint : Endpoint) : Prop :=
  (filter.ipaddr = 0 ∨ endpoint.ipaddr = filter.ipaddr) ∧
    (filter.port = 0 ∨ endpoint.port = filter.port)

def Endpoint.Specific (e : Endpoint) : Prop := e.ipaddr ≠ 0 ∧ e.port ≠ 0

theorem countSpecificMatches_nonneg (filter endpoint : Endpoint) :
    0 ≤ countSpecificMatches filter endpoint ↔ filter.Covers endpoint := by
  unfold countSpecificMatches Endpoint.Covers
  by_cases hip : filter.ipaddr ≠ 0 ∧ endpoint.ipaddr ≠ filter.ipaddr
  · simp [hip]
  rw [if_neg hip]
  by_cases hport : filter.port ≠ 0 ∧ endpoint.port ≠ filter.port
  · simp [hport]
  rw [if_neg hport]
  have hsum : (0 : Int) ≤ (if filter.ipaddr ≠ 0 then 1 else 0)
      + (if filter.port ≠ 0 then 1 else 0) := by
    split <;> split <;> decide
  refine iff_of_true hsum ⟨?_, ?_⟩
  · by_contra hc
    exact hip (not_or.mp hc)
  · by_contra hc
    exact hport (not_or.mp hc)

theorem compare_nonneg (c : Connection) (remote localEnd : Endpoint) :
    0 ≤ c.compare remote localEnd ↔ c.remote.Covers remote ∧ c.localEnd.Covers localEnd := by
  rw [← countSpecificMatches_nonneg, ← countSpecificMatches_nonneg]
  unfold Connection.compare
  by_cases hboth : countSpecificMatches c.remote remote ≥ 0 ∧
      countSpecificMatches c.localEnd localEnd ≥ 0
  · simp only [if_pos hboth]
    exact iff_of_true (Int.add_nonneg hboth.1 hboth.2) hboth
  · simp only [if_neg hboth]
    exact iff_of_false (by decide) hboth

theorem Endpoint.covers_other {e : Endpoint} (h : ¬ e.Specific) :
    ∃ other, e.Covers other ∧ other ≠ e := by
  by_cases hip : e.ipaddr = 0
  · refine ⟨⟨1, e.port⟩, ⟨.inl hip, .inr rfl⟩, ?_⟩
    intro hother
    have hone : (1 : Address) = e.ipaddr := congrArg Endpoint.ipaddr hother
    rw [hip] at hone
    exact absurd hone (by decide)
  have hport : e.port = 0 := by
    by_contra hport
    exact h ⟨hip, hport⟩
  refine ⟨⟨e.ipaddr, 1⟩, ⟨.inr rfl, .inl hport⟩, ?_⟩
  intro hother
  have hone : (1 : UInt16) = e.port := congrArg Endpoint.port hother
  rw [hport] at hone
  exact absurd hone (by decide)

theorem Endpoint.covers_self (e : Endpoint) : e.Covers e := ⟨.inr rfl, .inr rfl⟩

theorem Endpoint.Specific.covers_iff {e other : Endpoint} (h : e.Specific) :
    e.Covers other ↔ other = e := by
  constructor
  · rintro ⟨hip, hport⟩
    cases e
    cases hip.resolve_left h.1
    cases hport.resolve_left h.2
    rfl
  · rintro rfl
    exact other.covers_self

theorem matches_own_iff (c : Connection) :
    (∀ remote localEnd, 0 ≤ c.compare remote localEnd ↔
      remote = c.remote ∧ localEnd = c.localEnd) ↔
    c.remote.Specific ∧ c.localEnd.Specific := by
  constructor
  · intro h
    constructor
    · by_contra hwild
      obtain ⟨other, hcovers, hne⟩ := Endpoint.covers_other hwild
      have hmatch := (compare_nonneg c other c.localEnd).mpr ⟨hcovers, c.localEnd.covers_self⟩
      exact hne ((h other c.localEnd).mp hmatch).1
    · by_contra hwild
      obtain ⟨other, hcovers, hne⟩ := Endpoint.covers_other hwild
      have hmatch := (compare_nonneg c c.remote other).mpr ⟨c.remote.covers_self, hcovers⟩
      exact hne ((h c.remote other).mp hmatch).2
  · rintro ⟨hremote, hlocal⟩ remote localEnd
    rw [compare_nonneg, hremote.covers_iff, hlocal.covers_iff]

/-! ## The best match -/

namespace ConnectionTable

/-- The connection in slot `i` has the highest score in some slots, and is the
first of them that has it. -/
def IsBest (t : ConnectionTable) (remote localEnd : Endpoint) (slots : List Nat) (i : Nat)
    (c : Connection) : Prop :=
  ∀ j ∈ slots, ∀ d, t.connections.lookup j = some d →
    d.compare remote localEnd ≤ c.compare remote localEnd ∧
      (d.compare remote localEnd = c.compare remote localEnd → i ≤ j)

theorem bestFrom_spec (t : ConnectionTable) (remote localEnd : Endpoint) :
    ∀ (l : List Nat) (m : Int) (it : Option Nat),
      (∀ i ∈ l, ∃ c, t.connections.lookup i = some c) → l.Pairwise (· < ·) →
      ∃ r, t.bestFrom remote localEnd l m it = .ok r ∧
        ((r = it ∧ ∀ i ∈ l, ∀ c, t.connections.lookup i = some c →
            c.compare remote localEnd ≤ m) ∨
         (∃ i c, r = some i ∧ i ∈ l ∧ t.connections.lookup i = some c ∧
            m < c.compare remote localEnd ∧ t.IsBest remote localEnd l i c))
  | [], m, it, _, _ => ⟨it, rfl, Or.inl ⟨rfl, by simp⟩⟩
  | i :: rest, m, it, hl, hsorted => by
      obtain ⟨c, hc⟩ := hl i (by simp)
      have hrest : ∀ j ∈ rest, ∃ d, t.connections.lookup j = some d :=
        fun j hj => hl j (List.mem_cons_of_mem _ hj)
      obtain ⟨hfirst, hsorted⟩ := List.pairwise_cons.mp hsorted
      -- the best of the rest is the best of all if its score is higher than that of slot `i`
      have hlater {j : Nat} {d : Connection}
          (hgt : c.compare remote localEnd < d.compare remote localEnd)
          (hbest : t.IsBest remote localEnd rest j d) :
          t.IsBest remote localEnd (i :: rest) j d := by
        intro k hk e he
        rcases List.mem_cons.mp hk with rfl | hk
        · rw [hc] at he
          cases he
          exact ⟨Int.le_of_lt hgt, fun heq => by omega⟩
        · exact hbest k hk e he
      by_cases hscore : c.compare remote localEnd > m
      · obtain ⟨r, hr, hcase⟩ :=
          bestFrom_spec t remote localEnd rest (c.compare remote localEnd) (some i) hrest hsorted
        refine ⟨r, ?_, .inr ?_⟩
        · rw [bestFrom, get_spec hc, ok_bind]
          simp only [if_pos hscore, hr]
        · rcases hcase with ⟨rfl, hle⟩ | ⟨j, d, rfl, hj, hd, hgt, hbest⟩
          · refine ⟨i, c, rfl, by simp, hc, hscore, ?_⟩
            intro k hk e he
            rcases List.mem_cons.mp hk with rfl | hk
            · rw [hc] at he
              cases he
              exact ⟨Int.le_refl _, fun _ => Nat.le_refl _⟩
            · exact ⟨hle k hk e he, fun _ => Nat.le_of_lt (hfirst k hk)⟩
          · exact ⟨j, d, rfl, List.mem_cons_of_mem _ hj, hd, Int.lt_trans hscore hgt,
              hlater hgt hbest⟩
      · obtain ⟨r, hr, hcase⟩ := bestFrom_spec t remote localEnd rest m it hrest hsorted
        have hlow : c.compare remote localEnd ≤ m := Int.not_lt.mp hscore
        refine ⟨r, ?_, ?_⟩
        · rw [bestFrom, get_spec hc, ok_bind]
          simp only [if_neg hscore, hr]
        · rcases hcase with ⟨rfl, hle⟩ | ⟨j, d, rfl, hj, hd, hgt, hbest⟩
          · refine .inl ⟨rfl, fun k hk e he => ?_⟩
            rcases List.mem_cons.mp hk with rfl | hk
            · rw [hc] at he
              cases he
              exact hlow
            · exact hle k hk e he
          · exact .inr ⟨j, d, rfl, List.mem_cons_of_mem _ hj, hd, hgt,
              hlater (Int.lt_of_le_of_lt hlow hgt) hbest⟩

variable {t : ConnectionTable} {remote localEnd : Endpoint}

theorem findBestMatch_first (ht : t.connections.WF) (remote localEnd : Endpoint) :
    (t.findBestMatch remote localEnd = .ok none ∧ ∀ i c, t.connections.lookup i = some c →
      ¬ 0 ≤ c.compare remote localEnd) ∨
    ∃ i c, t.findBestMatch remote localEnd = .ok (some i) ∧
      t.connections.lookup i = some c ∧ 0 ≤ c.compare remote localEnd ∧
      ∀ j d, t.connections.lookup j = some d →
        d.compare remote localEnd ≤ c.compare remote localEnd ∧
          (d.compare remote localEnd = c.compare remote localEnd → i ≤ j) := by
  obtain ⟨r, hr, hcase⟩ := t.bestFrom_spec remote localEnd t.connections.indices (-1) none
    (fun i hi => ht.mem_indices.mp hi) (pairwise_indices _)
  have hmem {i : Nat} {c : Connection} (hc : t.connections.lookup i = some c) :
      i ∈ t.connections.indices := ht.mem_indices.mpr ⟨c, hc⟩
  rcases hcase with ⟨rfl, hle⟩ | ⟨i, c, rfl, _, hc, _, hbest⟩
  · refine .inl ⟨hr, ?_⟩
    intro i c hc hnonneg
    have := hle i (hmem hc) c hc
    omega
  · exact .inr ⟨i, c, hr, hc, by omega, fun j d hd => hbest j (hmem hd) d hd⟩

theorem findBestMatch_some (ht : t.connections.WF) {i : Nat}
    (h : t.findBestMatch remote localEnd = .ok (some i)) :
    ∃ c, t.connections.lookup i = some c ∧ 0 ≤ c.compare remote localEnd := by
  rcases findBestMatch_first ht remote localEnd with ⟨hnone, _⟩ | ⟨j, c, hsome, hc, hnonneg, _⟩
  · exact absurd (hnone.symm.trans h) (by simp)
  · cases hsome.symm.trans h
    exact ⟨c, hc, hnonneg⟩

end ConnectionTable

/-- The number of fields of a filter that are no wildcards. -/
def Endpoint.specificity (e : Endpoint) : Nat :=
  (if e.ipaddr ≠ 0 then 1 else 0) + (if e.port ≠ 0 then 1 else 0)

/-- Each field of the connection's filters is a wildcard or agrees. -/
def Connection.Compatible (c : Connection) (remote localEnd : Endpoint) : Prop :=
  c.remote.Covers remote ∧ c.localEnd.Covers localEnd

/-- The number of fields of both filters that are no wildcards. -/
def Connection.specificity (c : Connection) : Nat :=
  c.remote.specificity + c.localEnd.specificity

theorem countSpecificMatches_eq {filter endpoint : Endpoint} (h : filter.Covers endpoint) :
    countSpecificMatches filter endpoint = filter.specificity := by
  have hip : ¬ (filter.ipaddr ≠ 0 ∧ endpoint.ipaddr ≠ filter.ipaddr) := fun hc => h.1.elim hc.1 hc.2
  have hport : ¬ (filter.port ≠ 0 ∧ endpoint.port ≠ filter.port) := fun hc => h.2.elim hc.1 hc.2
  unfold countSpecificMatches Endpoint.specificity
  rw [if_neg hip, if_neg hport]
  split <;> split <;> rfl

variable {localEnd : Endpoint} {t : ConnectionTable} {env : Environment}

theorem compare_eq {c : Connection} {remote : Endpoint} (h : c.Compatible remote localEnd) :
    c.compare remote localEnd = c.specificity := by
  have hremote := (countSpecificMatches_nonneg c.remote remote).mpr h.1
  have hlocal := (countSpecificMatches_nonneg c.localEnd localEnd).mpr h.2
  unfold Connection.compare Connection.specificity
  rw [countSpecificMatches_eq h.1, countSpecificMatches_eq h.2]
  push_cast
  rfl

/-- **`find_best_match` finds the first of the most specific connections**: it returns the end
exactly when none is compatible, and otherwise a compatible one such that none has more fields
that are no wildcards, and none in a lower slot as many. -/
theorem bestMatch_mostSpecific {t : ConnectionTable} (ht : t.connections.WF)
    (remote localEnd : Endpoint) :
    (t.findBestMatch remote localEnd = .ok none ↔
      ∀ i c, t.connections.lookup i = some c → ¬ c.Compatible remote localEnd) ∧
    ((∃ i c, t.connections.lookup i = some c ∧ c.Compatible remote localEnd) →
      ∃ i c, t.findBestMatch remote localEnd = .ok (some i) ∧
        t.connections.lookup i = some c ∧ c.Compatible remote localEnd ∧
        ∀ j d, t.connections.lookup j = some d → d.Compatible remote localEnd →
          d.specificity ≤ c.specificity ∧ (d.specificity = c.specificity → i ≤ j)) := by
  have hmatch : ∀ c : Connection, 0 ≤ c.compare remote localEnd ↔ c.Compatible remote localEnd :=
    fun c => compare_nonneg c remote localEnd
  rcases ConnectionTable.findBestMatch_first ht remote localEnd with
    ⟨hnone, hall⟩ | ⟨i, c, hcall, hc, hnonneg, hbest⟩
  · have hnot : ∀ i c, t.connections.lookup i = some c → ¬ c.Compatible remote localEnd :=
      fun i c hc => mt (hmatch c).mpr (hall i c hc)
    refine ⟨iff_of_true hnone hnot, ?_⟩
    rintro ⟨i, c, hc, hcompatible⟩
    exact absurd hcompatible (hnot i c hc)
  have hcompatible := (hmatch c).mp hnonneg
  refine ⟨iff_of_false ?_ (fun hnot => hnot i c hc hcompatible), fun _ => ?_⟩
  · rw [hcall]
    simp
  · refine ⟨i, c, hcall, hc, hcompatible, fun j d hd hd' => ?_⟩
    have hscore := hbest j d hd
    rw [compare_eq hcompatible, compare_eq hd'] at hscore
    exact ⟨by exact_mod_cast hscore.1, fun heq => hscore.2 (by rw [heq])⟩

instance (c : Connection) (remote localEnd : Endpoint) :
    Decidable (c.Compatible remote localEnd) :=
  inferInstanceAs (Decidable (((_ ∨ _) ∧ (_ ∨ _)) ∧ ((_ ∨ _) ∧ (_ ∨ _))))

/-- A listener on port 80 and, in a higher slot, the connection of one of its clients. -/
def listenerAndClient : Checked (Pool Connection 40 0xFFFF) := do
  let (_, p) ← Pool.blank.emplaceAnywhere (Connection.new .wildcard ⟨0, 80⟩ .LISTEN)
  let (_, p) ← p.emplaceAnywhere
    (Connection.new ⟨0x0A000009, 4321⟩ ⟨0x0A000002, 80⟩ .ESTABLISHED)
  .ok p

/-- What the client sends goes to its connection, what another sends to the listener. -/
theorem bestMatch_mostSpecific_client : ∃ t : ConnectionTable, t.connections.WF ∧
    listenerAndClient = .ok t.connections ∧
    t.findBestMatch ⟨0x0A000009, 4321⟩ ⟨0x0A000002, 80⟩ = .ok (some 1) ∧
    t.findBestMatch ⟨0x0A000007, 4321⟩ ⟨0x0A000002, 80⟩ = .ok (some 0) ∧
    t.findBestMatch ⟨0x0A000009, 4321⟩ ⟨0x0A000002, 81⟩ = .ok none := by
  have hrun : listenerAndClient.map (fun p => (p.watermark, [0, 1].map fun i =>
      (p.lookup i).map fun c => (c.specificity, [(0x0A000009, 80), (0x0A000007, 80),
        (0x0A000009, 81)].map fun x => decide (c.Compatible ⟨x.1, 4321⟩ ⟨0x0A000002, x.2⟩))))
      = .ok (2, [some (1, [true, true, false]), some (4, [true, false, false])]) := by rfl
  obtain ⟨p, hcalls, hseen⟩ := map_ok.mp hrun
  have hwf : p.WF := by
    obtain ⟨⟨_, p₀⟩, hput₀, hcalls⟩ := bind_ok.mp hcalls
    obtain ⟨⟨_, p₁⟩, hput₁, hcalls⟩ := bind_ok.mp hcalls
    cases hcalls
    exact (emplaceAnywhere_ok (emplaceAnywhere_ok (blank_wf (by decide)) hput₀).2.1 hput₁).2.1
  simp only [List.map_cons, List.map_nil, Prod.mk.injEq, List.cons.injEq, and_true,
    map_eq_some_iff, decide_eq_true_eq, decide_eq_false_iff_not] at hseen
  obtain ⟨hmark, ⟨c, hc, hlow, hany, hother, hnot⟩, d, hd, hhigh, hown, hforeign, hnot'⟩ := hseen
  -- there are two connections
  have htwo : ∀ i e, p.lookup i = some e → (i = 0 ∧ e = c) ∨ (i = 1 ∧ e = d) := by
    intro i e he
    have hlt := lookup_lt_watermark he
    have hcases : i = 0 ∨ i = 1 := by omega
    rcases hcases with rfl | rfl
    · exact .inl ⟨rfl, some.inj (he.symm.trans hc)⟩
    · exact .inr ⟨rfl, some.inj (he.symm.trans hd)⟩
  have hmatch := bestMatch_mostSpecific (t := { ConnectionTable.blank with connections := p }) hwf
  refine ⟨{ ConnectionTable.blank with connections := p }, hwf, hcalls, ?_, ?_, ?_⟩
  · obtain ⟨i, e, hcall, he, _, hbest⟩ := (hmatch _ _).2 ⟨1, d, hd, hown⟩
    rcases htwo i e he with ⟨rfl, rfl⟩ | ⟨rfl, rfl⟩
    · have hle := (hbest 1 d hd hown).1
      omega
    · exact hcall
  · obtain ⟨i, e, hcall, he, hcompatible, _⟩ := (hmatch _ _).2 ⟨0, c, hc, hother⟩
    rcases htwo i e he with ⟨rfl, rfl⟩ | ⟨rfl, rfl⟩
    · exact hcall
    · exact absurd hcompatible hforeign
  · refine (hmatch _ _).1.mpr fun i e he => ?_
    rcases htwo i e he with ⟨rfl, rfl⟩ | ⟨rfl, rfl⟩
    · exact hnot
    · exact hnot'

/-! ## The endpoints in the table -/

namespace ConnectionTable

def ends (t : ConnectionTable) (i : Nat) : Option (Endpoint × Endpoint) :=
  (t.connections.lookup i).map fun c => (c.remote, c.localEnd)

theorem ends_congr {t t' : ConnectionTable} (h : t'.connections = t.connections) (i : Nat) :
    t'.ends i = t.ends i := by
  unfold ends
  rw [h]

end ConnectionTable

/-- A call on a connection leaves its endpoints and all other connections as
they are. -/
structure Keeps (w w' : World) : Prop where
  connections : w'.table.connections = w.table.connections
  remote : w'.conn.remote = w.conn.remote
  localEnd : w'.conn.localEnd = w.conn.localEnd
  sound : w.table.Sound → w'.table.Sound

theorem Keeps.refl (w : World) : Keeps w w := ⟨rfl, rfl, rfl, id⟩

variable {w w' : World} {t' : ConnectionTable} {idx : Nat} {p : Protocol}

theorem Keeps.trans {w1 : World} (h : Keeps w w1) (h1 : Keeps w1 w') : Keeps w w' :=
  ⟨h1.connections.trans h.connections, h1.remote.trans h.remote, h1.localEnd.trans h.localEnd,
    fun ht => h1.sound (h.sound ht)⟩

theorem finishConnection_keeps {handle : Nat} (h : t.finishConnection handle = .ok t') :
    t'.connections = t.connections ∧ (t.Sound → t'.Sound) := by
  rw [ConnectionTable.finishConnection, bind_ok] at h
  obtain ⟨⟨i, finished⟩, hput, h⟩ := h
  cases h
  refine ⟨rfl, ?_⟩
  intro ht
  exact ⟨ht.connections, ht.newConnections, (emplaceAnywhere_ok ht.finishedConnections hput).2.1⟩

theorem World.Move.keeps (h : World.Move env w w') : Keeps w w' := by
  cases h with
  | finished _ call =>
    obtain ⟨hconnections, hsound⟩ := finishConnection_keeps call
    exact ⟨hconnections, rfl, rfl, hsound⟩
  | destroyed _ _ _ call =>
    obtain ⟨hconnections, hsound⟩ := finishConnection_keeps call
    exact ⟨hconnections, rfl, rfl, hsound⟩
  | emitted emit => cases emit <;> exact ⟨rfl, rfl, rfl, id⟩
  | _ => exact ⟨rfl, rfl, rfl, id⟩

theorem World.Moves.keeps (h : World.Moves env w w') : Keeps w w' := by
  induction h with
  | refl => exact Keeps.refl w
  | tail _ hmove ih => exact ih.trans hmove.keeps

theorem createConnection_ends (ht : t.Sound) {remote : Endpoint} {state : ConnectionState}
    (h : t.createConnection remote localEnd state = .ok (idx, t')) :
    t'.Sound ∧ t.ends idx = none ∧
      ∀ j, t'.ends j = if j = idx then some (remote, localEnd) else t.ends j := by
  rw [ConnectionTable.createConnection, bind_ok] at h
  obtain ⟨⟨i, p1⟩, hput, h⟩ := h
  obtain ⟨c, hget, h⟩ := bind_ok.mp h
  obtain ⟨p2, hset, h⟩ := bind_ok.mp h
  obtain ⟨⟨_, fresh⟩, hnew, h⟩ := bind_ok.mp h
  cases h
  obtain ⟨_, hwf1, hnone, hl1⟩ := emplaceAnywhere_ok ht.connections hput
  obtain ⟨_, hwf2, hl2⟩ := set_ok hwf1 hset
  have hwfn := (emplaceAnywhere_ok ht.newConnections hnew).2.1
  refine ⟨⟨hwf2, hwfn, ht.finishedConnections⟩, ?_, ?_⟩
  · unfold ConnectionTable.ends
    rw [hnone]
    rfl
  · intro j
    show (p2.lookup j).map _ = _
    by_cases hj : j = idx
    · rw [hl2, if_pos hj, if_pos hj, get_of_emplaceAnywhere hput hget]
      rfl
    · rw [hl2, if_neg hj, hl1, if_neg hj, if_neg hj]
      rfl

theorem acceptSyn_ends (ht : t.Sound) {metadata : SegmentMetadata}
    (h : World.acceptSyn t metadata = .ok (idx, t')) :
    t'.Sound ∧ t.ends idx = none ∧ ∀ j, t'.ends j = if j = idx then
      some (remoteOf metadata.datagram metadata.tcpHeader,
        localOf metadata.datagram metadata.tcpHeader) else t.ends j := by
  rw [World.acceptSyn, bind_ok] at h
  obtain ⟨⟨i, t1⟩, hcreate, h⟩ := h
  obtain ⟨c1, hget, h⟩ := bind_ok.mp h
  obtain ⟨c2, hsequence, h⟩ := bind_ok.mp h
  obtain ⟨p, hset, h⟩ := bind_ok.mp h
  cases h
  obtain ⟨hsound, hfree, hends⟩ := createConnection_ends ht hcreate
  obtain ⟨_, hwf, hl⟩ := set_ok hsound.connections hset
  refine ⟨⟨hwf, hsound.newConnections, hsound.finishedConnections⟩, hfree, ?_⟩
  intro j
  by_cases hj : j = idx
  · -- sequencing the SYN keeps the endpoints
    have hself := hends idx
    unfold ConnectionTable.ends at hself
    rw [get_ok hget, if_pos rfl] at hself
    rw [Connection.sequence, bind_ok] at hsequence
    obtain ⟨_, _, hsequence⟩ := hsequence
    cases hsequence
    show (p.lookup j).map _ = _
    rw [hl, if_pos hj, if_pos hj]
    exact hself
  · have hother := hends j
    show (p.lookup j).map _ = _
    rw [hl, if_neg hj]
    exact hother

theorem World.earlyRecv_table {metadata : SegmentMetadata} {data : Bytes} {length : UInt32}
    (h : w.earlyRecv metadata data length = .ok w') :
    w'.conn.remote = w.conn.remote ∧ w'.conn.localEnd = w.conn.localEnd ∧
      (w'.table = w.table ∨ ∃ idx, acceptSyn w.table metadata = .ok (idx, w'.table)) := by
  unfold earlyRecv at h
  split at h
  · -- LISTEN
    split at h
    · obtain ⟨⟨idx, table⟩, haccept, h⟩ := bind_ok.mp h
      cases h
      exact ⟨rfl, rfl, .inr ⟨idx, haccept⟩⟩
    · cases h
      exact ⟨rfl, rfl, .inl rfl⟩
  · -- SYN_RCVD
    split at h <;> cases h <;> exact ⟨rfl, rfl, .inl rfl⟩
  · -- ESTABLISHED
    split at h <;>
    · obtain ⟨r, rxQueue, _, rfl⟩ := sequence_ok h
      exact ⟨rfl, rfl, .inl rfl⟩
  · -- FIN_WAIT_1
    split at h
    · obtain ⟨w1, hsequence, h⟩ := bind_ok.mp h
      obtain ⟨r, rxQueue, _, rfl⟩ := sequence_ok hsequence
      cases h
      exact ⟨rfl, rfl, .inl rfl⟩
    · cases h
      exact ⟨rfl, rfl, .inl rfl⟩
  · -- FIN_WAIT_2
    split at h
    · obtain ⟨r, rxQueue, _, rfl⟩ := sequence_ok h
      exact ⟨rfl, rfl, .inl rfl⟩
    · cases h
      exact ⟨rfl, rfl, .inl rfl⟩
  all_goals
    cases h
    exact ⟨rfl, rfl, .inl rfl⟩

/-- Every pair of endpoints in `t'` was in its slot before, or is the pair `e` in
a slot that was free. -/
structure Extends (e : Option (Endpoint × Endpoint)) (t t' : ConnectionTable) : Prop where
  sound : t'.Sound
  origin : ∀ j x, t'.ends j = some x → t.ends j = some x ∨ (t.ends j = none ∧ e = some x)

theorem Extends.refl (ht : t.Sound) (e : Option (Endpoint × Endpoint)) :
    Extends e t t := ⟨ht, fun _ _ h => .inl h⟩

theorem Extends.trans {e : Option (Endpoint × Endpoint)} {t1 : ConnectionTable}
    (h : Extends e t t1) (h1 : Extends none t1 t') : Extends e t t' := by
  refine ⟨h1.sound, ?_⟩
  intro j x hx
  rcases h1.origin j x hx with hsame | ⟨_, hnone⟩
  · exact h.origin j x hsame
  · simp at hnone

theorem Extends.created {x : Endpoint × Endpoint} (ht : t'.Sound) (hfree : t.ends idx = none)
    (hends : ∀ j, t'.ends j = if j = idx then some x else t.ends j) : Extends (some x) t t' := by
  refine ⟨ht, ?_⟩
  intro j y hy
  rw [hends] at hy
  by_cases hj : j = idx
  · rw [if_pos hj] at hy
    rw [hj]
    exact .inr ⟨hfree, hy⟩
  · rw [if_neg hj] at hy
    exact .inl hy

theorem Keeps.extends (h : Keeps w w') (ht : w.table.Sound) (e : Option (Endpoint × Endpoint)) :
    Extends e w.table w'.table := by
  refine ⟨h.sound ht, ?_⟩
  intro j x hx
  rw [ConnectionTable.ends_congr h.connections] at hx
  exact .inl hx

def pairOf (metadata : SegmentMetadata) : Endpoint × Endpoint :=
  (remoteOf metadata.datagram metadata.tcpHeader, localOf metadata.datagram metadata.tcpHeader)

section Calls

variable {env : Environment}

theorem World.onReceive_extends {fuel : Nat} {w w' : World} {metadata : SegmentMetadata}
    {data : Bytes} {length : UInt32} (ht : w.table.Sound)
    (h : w.onReceive env fuel metadata data length = .ok w') :
    w'.conn.remote = w.conn.remote ∧ w'.conn.localEnd = w.conn.localEnd ∧
      Extends (some (pairOf metadata)) w.table w'.table := by
  rw [onReceive, bind_ok] at h
  obtain ⟨w1, hearly, h⟩ := h
  obtain ⟨w2, hack, hstep⟩ := bind_ok.mp h
  obtain ⟨hremote, hlocal, htable⟩ := earlyRecv_table hearly
  have hkeeps : Keeps w1 w' := (handleAck_moves env hack).keeps.trans (step_moves env hstep).keeps
  refine ⟨hkeeps.remote.trans hremote, hkeeps.localEnd.trans hlocal, ?_⟩
  have hfirst : Extends (some (pairOf metadata)) w.table w1.table := by
    rcases htable with hsame | ⟨idx, haccept⟩
    · rw [hsame]
      exact Extends.refl ht _
    obtain ⟨hsound, hfree, hends⟩ := acceptSyn_ends (by exact ht) haccept
    exact .created hsound hfree hends
  exact hfirst.trans (hkeeps.extends hfirst.sound none)

namespace Protocol

variable {p : Protocol}

theorem runAt_extends {e : Option (Endpoint × Endpoint)} {p' : Protocol} {handle : Nat}
    {call : World → Checked World} (hcall : ∀ w w', w.table = p.table → call w = .ok w' →
      w'.conn.remote = w.conn.remote ∧ w'.conn.localEnd = w.conn.localEnd ∧
        Extends e w.table w'.table) (h : p.runAt handle call = .ok p') :
    Extends e p.table p'.table := by
  rw [runAt, bind_ok] at h
  obtain ⟨conn, hget, h⟩ := h
  obtain ⟨w, hw, h⟩ := bind_ok.mp h
  obtain ⟨connections, hset, h⟩ := bind_ok.mp h
  cases h
  obtain ⟨hremote, hlocal, hext⟩ := hcall _ w rfl hw
  obtain ⟨_, hwf, hl⟩ := set_ok hext.sound.connections hset
  refine ⟨⟨hwf, hext.sound.newConnections, hext.sound.finishedConnections⟩, ?_⟩
  intro j x hx
  have hx' : (connections.lookup j).map (fun c => (c.remote, c.localEnd)) = some x := hx
  rw [hl] at hx'
  by_cases hj : j = handle
  · -- the slot itself
    rw [if_pos hj] at hx'
    left
    unfold ConnectionTable.ends
    rw [hj, get_ok hget]
    rw [← hx']
    show some (conn.remote, conn.localEnd) = some (w.conn.remote, w.conn.localEnd)
    rw [hremote, hlocal]
  · rw [if_neg hj] at hx'
    exact hext.origin j x hx'

theorem stepFrom_extends (fuel : Nat) (l : List Nat) : ∀ {p p' : Protocol}, p.table.Sound →
    stepFrom env fuel l p = .ok p' → Extends none p.table p'.table := by
  induction l with
  | nil =>
    intro p p' hp h
    cases h
    exact Extends.refl hp none
  | cons it rest ih =>
    intro p p' hp h
    rw [stepFrom, bind_ok] at h
    obtain ⟨_, _, h⟩ := h
    split at h
    · obtain ⟨p1, hrun, h⟩ := bind_ok.mp h
      have h1 : Extends none p.table p1.table := by
        refine runAt_extends ?_ hrun
        intro w w' hw hstep
        have hkeeps := (World.step_moves env hstep).keeps
        exact ⟨hkeeps.remote, hkeeps.localEnd, hkeeps.extends (by rw [hw]; exact hp) none⟩
      exact h1.trans (ih h1.sound h)
    · exact ih hp h

theorem destroyFrom_extends (l : List Nat) : ∀ {p p' : Protocol}, p.table.Sound →
    destroyFrom l p = .ok p' → Extends none p.table p'.table := by
  induction l with
  | nil =>
    intro p p' hp h
    cases h
    exact Extends.refl hp none
  | cons it rest ih =>
    intro p p' hp h
    rw [destroyFrom, bind_ok] at h
    obtain ⟨handle, _, h⟩ := h
    split at h
    · obtain ⟨connections, herase, h⟩ := bind_ok.mp h
      obtain ⟨_, hwf, hl⟩ := erase_ok hp.connections herase
      have h1 : Extends none p.table { p.table with connections } := by
        refine ⟨⟨hwf, hp.newConnections, hp.finishedConnections⟩, ?_⟩
        intro j x hx
        have hx' : (connections.lookup j).map (fun c => (c.remote, c.localEnd)) = some x := hx
        rw [hl] at hx'
        by_cases hj : j = handle
        · rw [if_pos hj] at hx'
          simp at hx'
        · rw [if_neg hj] at hx'
          exact .inl hx'
      exact h1.trans (ih (by exact h1.sound) h)
    · cases h
      exact Extends.refl hp none

def segmentOf (datagram : DatagramMetadata) (data : Bytes) : SegmentMetadata :=
  ⟨Header.ofBytes data, datagram, (Header.ofBytes data).flagsHdrsz &&& (0x1FF : UInt16)⟩

def deliveryOf (datagram : DatagramMetadata) (data : Bytes) (length : UInt32) (i : Nat) :
    Delivery :=
  ⟨i, segmentOf datagram data,
    Net.advance data (alignUp (Header.ofBytes data).hdrsz.toUInt32 4).toNat,
    length - alignUp (Header.ofBytes data).hdrsz.toUInt32 4⟩

theorem dispatch_eq (p : Protocol) (datagram : DatagramMetadata) (data : Bytes) (length : UInt32) :
    p.dispatch datagram data length = if length.toNat < 20 then .ok none else
      (p.table.findBestMatch (pairOf (segmentOf datagram data)).1
        (pairOf (segmentOf datagram data)).2).map
          (Option.map (deliveryOf datagram data length)) := by
  unfold dispatch
  by_cases hshort : length.toNat < 20
  · rw [if_pos hshort, if_pos (by rw [lt_iff_toNat]; exact hshort)]
  rw [if_neg hshort, if_neg (by rw [lt_iff_toNat]; exact hshort)]
  show (p.table.findBestMatch (pairOf (segmentOf datagram data)).1
    (pairOf (segmentOf datagram data)).2 >>= _) = _
  cases p.table.findBestMatch (pairOf (segmentOf datagram data)).1
      (pairOf (segmentOf datagram data)).2 with
  | error e => rfl
  | ok best => cases best <;> rfl

theorem dispatch_cases {datagram : DatagramMetadata} {data : Bytes} {length : UInt32}
    {r : Option Delivery} (h : p.dispatch datagram data length = .ok r) :
    r = none ∨ ∃ i, r = some (deliveryOf datagram data length i) := by
  rw [dispatch_eq] at h
  split at h
  · cases h
    exact .inl rfl
  · obtain ⟨best, _, hbest⟩ := map_ok.mp h
    cases best with
    | none => exact .inl hbest.symm
    | some i => exact .inr ⟨i, hbest.symm⟩

/-- The only endpoints a datagram brings into the table are its own. -/
theorem onReceive_ends {fuel : Nat} {p' : Protocol} (hp : p.table.Sound)
    {datagram : DatagramMetadata} {data : Bytes} {length : UInt32}
    (h : p.onReceive env fuel datagram data length = .ok p') :
    Extends (some (pairOf (segmentOf datagram data))) p.table p'.table := by
  rw [onReceive, bind_ok] at h
  obtain ⟨r, hdispatch, h⟩ := h
  rcases dispatch_cases hdispatch with rfl | ⟨i, rfl⟩
  · cases h
    exact Extends.refl hp _
  simp only [bind_ok] at h
  obtain ⟨p1, hrun, p2, hnew, hdestroy⟩ := h
  have h1 : Extends (some (pairOf (segmentOf datagram data))) p.table p1.table := by
    refine runAt_extends ?_ hrun
    intro w w' hw hcall
    exact World.onReceive_extends (by rw [hw]; exact hp) hcall
  rw [stepNewConnections, bind_ok] at hnew
  obtain ⟨p3, hstep, hnew⟩ := hnew
  cases hnew
  have h2 := stepFrom_extends fuel _ h1.sound hstep
  rw [destroyFinishedConnections, bind_ok] at hdestroy
  obtain ⟨p4, hdestroy, h⟩ := hdestroy
  cases h
  -- clearing the two lists of handles leaves the connections alone
  have hcleared : ConnectionTable.Sound
      { p3.table with newConnections := p3.table.newConnections.clear } :=
    ⟨h2.sound.connections, clear_wf _ (by decide), h2.sound.finishedConnections⟩
  have h3 := destroyFrom_extends _ (by exact hcleared) hdestroy
  have h4 : Extends none p3.table p4.table := ⟨h3.sound, h3.origin⟩
  have hall := (h1.trans h2).trans h4
  exact ⟨⟨hall.sound.connections, hall.sound.newConnections, clear_wf _ (by decide)⟩, hall.origin⟩

end Protocol

end Calls

/-! ## To whom a connection belongs -/

inductive Protocol.Step (env : Environment) (p p' : Protocol) : Prop
  | received (fuel : Nat) (datagram : DatagramMetadata) (data : Bytes) (length : UInt32)
      (call : p.onReceive env fuel datagram data length = .ok p')
  | listened (localEnd : Endpoint) (call : p.listen localEnd = .ok p')

def Protocol.Lives (env : Environment) (idx : Nat) : Protocol → Protocol → Prop :=
  Relation.ReflTransGen fun p p' => Step env p p' ∧ p'.table.ends idx ≠ none

theorem Protocol.Step.extends {p' : Protocol} (hp : p.table.Sound) (h : Step env p p') :
    ∃ e, Extends (some e) p.table p'.table := by
  cases h with
  | received fuel datagram data length call => exact ⟨_, onReceive_ends hp call⟩
  | listened localEnd call =>
    rw [listen, bind_ok] at call
    obtain ⟨⟨i, table⟩, hcreate, call⟩ := call
    cases call
    obtain ⟨hsound, hfree, hends⟩ := createConnection_ends hp hcreate
    exact ⟨_, .created hsound hfree hends⟩

theorem Protocol.Lives.ends {p' : Protocol} (h : Lives env idx p p') (hp : p.table.Sound)
    {e : Endpoint × Endpoint} (he : p.table.ends idx = some e) :
    p'.table.Sound ∧ p'.table.ends idx = some e := by
  induction h with
  | refl => exact ⟨hp, he⟩
  | tail _ hstep ih =>
    obtain ⟨hsound, hends⟩ := ih
    obtain ⟨hstep, hlives⟩ := hstep
    obtain ⟨e', hext⟩ := hstep.extends hsound
    refine ⟨hext.sound, ?_⟩
    obtain ⟨x, hx⟩ := ne_none_iff_exists'.mp hlives
    rw [hx]
    rcases hext.origin idx x hx with hsame | ⟨hnone, _⟩
    · exact hsame.symm.trans hends
    · exact absurd (hends.symm.trans hnone) (by simp)

/-- Connection `idx` belongs to the pair `e`: it matches the segments between these two
endpoints and no others, so is never the best match for others. -/
structure Belongs (t : ConnectionTable) (idx : Nat) (e : Endpoint × Endpoint) : Prop where
  own : ∃ c, t.connections.lookup idx = some c ∧ ∀ remote localEnd,
    0 ≤ c.compare remote localEnd ↔ remote = e.1 ∧ localEnd = e.2
  others : ∀ remote localEnd, (remote, localEnd) ≠ e →
    t.findBestMatch remote localEnd ≠ .ok (some idx)

theorem belongs_of_ends (ht : t.Sound) {e : Endpoint × Endpoint} (he : t.ends idx = some e) :
    Belongs t idx e ↔ e.1.Specific ∧ e.2.Specific := by
  obtain ⟨c, hc, rfl⟩ := map_eq_some_iff.mp he
  constructor
  · intro h
    obtain ⟨d, hd, hown⟩ := h.own
    cases hc.symm.trans hd
    exact (matches_own_iff c).mp hown
  · intro hspecific
    have hown := (matches_own_iff c).mpr hspecific
    refine ⟨⟨c, hc, hown⟩, ?_⟩
    intro remote localEnd hne hfound
    obtain ⟨d, hd, hnonneg⟩ := ConnectionTable.findBestMatch_some ht.connections hfound
    cases hc.symm.trans hd
    obtain ⟨rfl, rfl⟩ := (hown remote localEnd).mp hnonneg
    exact hne rfl

/-- **To whom a connection belongs.** One that `LISTEN` has created for a segment belongs to
that peer, for as long as it lives, exactly when neither of the addresses and neither of the
ports is 0. -/
theorem belongs_iff {env : Environment} {fuel : Nat} {p p1 p2 : Protocol} (hp : p.table.Sound)
    {datagram : DatagramMetadata} {data : Bytes} {length : UInt32} {idx : Nat}
    (hcall : p.onReceive env fuel datagram data length = .ok p1)
    (hfree : p.table.ends idx = none) (hcreated : p1.table.ends idx ≠ none)
    (hlives : Protocol.Lives env idx p1 p2) :
    Belongs p2.table idx (⟨datagram.srcAddr, (Header.ofBytes data).srcPort⟩,
      ⟨datagram.destAddr, (Header.ofBytes data).destPort⟩) ↔
    datagram.srcAddr ≠ 0 ∧ (Header.ofBytes data).srcPort ≠ 0 ∧
      datagram.destAddr ≠ 0 ∧ (Header.ofBytes data).destPort ≠ 0 := by
  have hext := Protocol.onReceive_ends hp hcall
  obtain ⟨e, he⟩ := ne_none_iff_exists'.mp hcreated
  -- the endpoints in the new connection are those of the segment
  have hpair : pairOf (Protocol.segmentOf datagram data) = e := by
    rcases hext.origin idx e he with hsame | ⟨_, hpair⟩
    · exact absurd (hfree.symm.trans hsame) (by simp)
    · exact some.inj hpair
  subst hpair
  obtain ⟨hsound, hends⟩ := hlives.ends hext.sound he
  have hiff := belongs_of_ends hsound hends
  constructor
  · intro h
    obtain ⟨hremote, hlocal⟩ := hiff.mp h
    exact ⟨hremote.1, hremote.2, hlocal.1, hlocal.2⟩
  · rintro ⟨h1, h2, h3, h4⟩
    exact hiff.mpr ⟨⟨h1, h2⟩, ⟨h3, h4⟩⟩

def segmentBytes (srcPort destPort flagsHdrsz : UInt16) : Bytes :=
  Bytes.ofList (Header.bytes ⟨srcPort, destPort, 1000, 0, flagsHdrsz, 10000, 0, 0⟩)

def greeted (srcAddr : Address) (srcPort : UInt16) : Checked (Protocol × Protocol) := do
  let p ← (Protocol.blank false).listen ⟨0, 80⟩
  let p1 ← p.onReceive World.quiet 2 ⟨srcAddr, 0x0A000002⟩ (segmentBytes srcPort 80 0x5002) 20
  .ok (p, p1)

theorem blank_listen_sound (h : (Protocol.blank false).listen localEnd = .ok p) :
    p.table.Sound := by
  have hstep : Protocol.Step World.quiet (Protocol.blank false) p := .listened localEnd h
  obtain ⟨_, hext⟩ := hstep.extends World.blank_sound
  exact hext.sound

theorem greeted_calls {srcAddr : Address} {srcPort : UInt16} {p1 : Protocol}
    (h : greeted srcAddr srcPort = .ok (p, p1)) : p.table.Sound ∧
      p.onReceive World.quiet 2 ⟨srcAddr, 0x0A000002⟩ (segmentBytes srcPort 80 0x5002) 20
        = .ok p1 := by
  obtain ⟨q, hlisten, h⟩ := bind_ok.mp h
  obtain ⟨q1, hreceive, h⟩ := bind_ok.mp h
  cases h
  exact ⟨blank_listen_sound hlisten, hreceive⟩

theorem belongs_greeted : ∃ p p1, greeted 0x0A000001 5555 = .ok (p, p1) ∧
    Belongs p1.table 1 (⟨0x0A000001, 5555⟩, ⟨0x0A000002, 80⟩) := by
  have hlife : (greeted 0x0A000001 5555).map (fun (p, p1) => (p.table.ends 1, p1.table.ends 1))
      = .ok (none, some (⟨0x0A000001, 5555⟩, ⟨0x0A000002, 80⟩)) := by rfl
  obtain ⟨⟨p, p1⟩, hcalls, hseen⟩ := map_ok.mp hlife
  obtain ⟨hsound, hreceive⟩ := greeted_calls hcalls
  simp only [Prod.mk.injEq] at hseen
  refine ⟨p, p1, hcalls, ?_⟩
  exact (belongs_iff hsound hreceive hseen.1 (by rw [hseen.2]; simp) .refl).mpr (by decide)

/-- **A SYN from 0.0.0.0, port 0, takes the server over**: the connection it
creates is the best match for the segments of every other peer. -/
theorem spoofed_takes_over : ∃ p p1 : Protocol, p.table.Sound ∧
    p.onReceive World.quiet 2 ⟨0, 0x0A000002⟩ (segmentBytes 0 80 0x5002) 20 = .ok p1 ∧
    p.table.ends 0 = some (.wildcard, ⟨0, 80⟩) ∧ p.table.ends 1 = none ∧
    p1.table.ends 0 = some (.wildcard, ⟨0, 80⟩) ∧ p1.table.ends 1 = some (⟨0, 0⟩, ⟨0x0A000002, 80⟩) ∧
    p.table.findBestMatch ⟨0x0A000009, 4321⟩ ⟨0x0A000002, 80⟩ = .ok (some 0) ∧
    p1.table.findBestMatch ⟨0x0A000009, 4321⟩ ⟨0x0A000002, 80⟩ = .ok (some 1) ∧
    ¬ Belongs p1.table 1 (⟨0, 0⟩, ⟨0x0A000002, 80⟩) := by
  have hlife : (greeted 0 0).map (fun (p, p1) => (p.table.ends 0, p.table.ends 1,
        p1.table.ends 0, p1.table.ends 1,
        p.table.findBestMatch ⟨0x0A000009, 4321⟩ ⟨0x0A000002, 80⟩,
        p1.table.findBestMatch ⟨0x0A000009, 4321⟩ ⟨0x0A000002, 80⟩))
      = .ok (some (.wildcard, ⟨0, 80⟩), none, some (.wildcard, ⟨0, 80⟩),
        some (⟨0, 0⟩, ⟨0x0A000002, 80⟩), .ok (some 0), .ok (some 1)) := by rfl
  obtain ⟨⟨p, p1⟩, hcalls, hseen⟩ := map_ok.mp hlife
  obtain ⟨hsound, hreceive⟩ := greeted_calls hcalls
  simp only [Prod.mk.injEq] at hseen
  obtain ⟨h1, h2, h3, h4, h5, h6⟩ := hseen
  refine ⟨p, p1, hsound, hreceive, h1, h2, h3, h4, h5, h6, ?_⟩
  intro h
  exact h.others ⟨0x0A000009, 4321⟩ ⟨0x0A000002, 80⟩ (by decide) h6

/-! ## What a connection is handed -/

/-- The data offset of the header at `data`: its upper half byte counts words
of four bytes. -/
def dataOffset (data : Bytes) : Nat := 4 * ((data 12).toNat / 16)

theorem totalHeaderSize_eq (data : Bytes) :
    (alignUp (Header.ofBytes data).hdrsz.toUInt32 4).toNat = dataOffset data := by
  have hhigh : (data 12).toNat < 256 := (data 12).toNat_lt
  have hlow : (data 13).toNat < 256 := (data 13).toNat_lt
  have hfield : (ofBytes data).flagsHdrsz.toNat
      = (data 12).toNat * 256 + (data 13).toNat := Net.toNat_field16 data 12
  have hshift : ((ofBytes data).flagsHdrsz >>> 12).toNat = (data 12).toNat / 16 := by
    rw [UInt16.toNat_shiftRight, hfield]
    show ((data 12).toNat * 256 + (data 13).toNat) >>> 12 = _
    omega
  have hsize : (ofBytes data).hdrsz = UInt8.ofNat (4 * ((data 12).toNat / 16)) := by
    apply UInt8.toNat_inj.mp
    unfold hdrsz
    rw [UInt16.toNat_toUInt8, UInt16.toNat_mul, hshift, UInt8.toNat_ofNat']
    show (data 12).toNat / 16 * 4 % 65536 % 256 = 4 * ((data 12).toNat / 16) % 256
    omega
  -- sixteen cases
  have hall : ∀ n < 16, (alignUp (UInt8.ofNat (4 * n)).toUInt32 4).toNat = 4 * n := by decide
  rw [hsize]
  exact hall _ (by omega)

/-- What is handed on is the payload from the data offset on, and nothing of
the header. -/
structure HandsSuffix (data : Bytes) (length : UInt32) (d : Delivery) : Prop where
  header : 20 ≤ dataOffset data
  inside : dataOffset data ≤ length.toNat
  bytes : d.data.first d.length.toNat = (data.first length.toNat).drop (dataOffset data)

theorem handsSuffix_delivery (datagram : DatagramMetadata) (data : Bytes) (length : UInt32)
    (i : Nat) : HandsSuffix data length (Protocol.deliveryOf datagram data length i) ↔
      20 ≤ dataOffset data ∧ dataOffset data ≤ length.toNat := by
  constructor
  · intro h
    exact ⟨h.header, h.inside⟩
  · intro hoffset
    refine ⟨hoffset.1, hoffset.2, ?_⟩
    have hsize := totalHeaderSize_eq data
    have hlimit := toNat_lt_border length
    -- the subtraction does not wrap
    have hrest : (length - alignUp (ofBytes data).hdrsz.toUInt32 4).toNat
        = length.toNat - dataOffset data := by
      rw [UInt32.toNat_sub, hsize]
      omega
    show (Net.advance data _).first (length - _).toNat = _
    rw [hrest, hsize, Net.first_advance, Nat.add_sub_cancel' hoffset.2]

/-- **When a datagram is dropped or handed on as it should be**: it is shorter than a header,
nobody listens, or its data offset lies between header and end. -/
theorem handsSuffix_iff {p : Protocol} (hp : p.table.Sound) (datagram : DatagramMetadata)
    (data : Bytes) (length : UInt32) :
    (∃ r, p.dispatch datagram data length = .ok r ∧ ∀ d, r = some d → HandsSuffix data length d) ↔
      (length.toNat < 20 ∨
        p.table.findBestMatch ⟨datagram.srcAddr, (Header.ofBytes data).srcPort⟩
          ⟨datagram.destAddr, (Header.ofBytes data).destPort⟩ = .ok none ∨
        (20 ≤ dataOffset data ∧ dataOffset data ≤ length.toNat)) := by
  rw [Protocol.dispatch_eq]
  by_cases hshort : length.toNat < 20
  · rw [if_pos hshort]
    exact iff_of_true ⟨none, rfl, by simp⟩ (.inl hshort)
  rw [if_neg hshort]
  rcases ConnectionTable.findBestMatch_first hp.connections
    (remoteOf datagram (ofBytes data)) (localOf datagram (ofBytes data)) with
    ⟨hnone, _⟩ | ⟨i, c, hsome, _⟩
  · -- nobody listens
    refine iff_of_true ⟨none, ?_, by simp⟩ (.inr (.inl hnone))
    exact map_ok.mpr ⟨none, hnone, rfl⟩
  constructor
  · rintro ⟨r, hr, hall⟩
    obtain ⟨best, hbest, rfl⟩ := map_ok.mp hr
    cases hbest.symm.trans hsome
    exact .inr (.inr ((handsSuffix_delivery datagram data length i).mp (hall _ rfl)))
  · intro hcond
    have hoffset : 20 ≤ dataOffset data ∧ dataOffset data ≤ length.toNat := by
      rcases hcond with hlt | hnone | hoffset
      · exact absurd hlt hshort
      · exact absurd (hnone.symm.trans hsome) (by simp)
      · exact hoffset
    refine ⟨_, map_ok.mpr ⟨some i, hsome, rfl⟩, ?_⟩
    intro d hd
    cases hd
    exact (handsSuffix_delivery datagram data length i).mpr hoffset

def listening : Checked Protocol := (Protocol.blank false).listen ⟨0, 80⟩

/-- Three bytes of data behind a header with four bytes of options. -/
def optionBytes : Bytes :=
  Bytes.ofList (Header.bytes ⟨5555, 80, 1000, 0, 0x6010, 10000, 0, 0⟩ ++ [1, 1, 1, 0, 7, 8, 9])

theorem handsSuffix_options : ∃ (p : Protocol) (d : Delivery), p.table.Sound ∧
    p.dispatch ⟨0x0A000001, 0x0A000002⟩ optionBytes 27 = .ok (some d) ∧
    d.data.first d.length.toNat = [7, 8, 9] := by
  have hlife : (listening.bind fun p =>
      (p.dispatch ⟨0x0A000001, 0x0A000002⟩ optionBytes 27).map Option.isSome) = .ok true := by rfl
  obtain ⟨p, hlisten, hlife⟩ := bind_ok.mp hlife
  obtain ⟨r, hr, hsome⟩ := map_ok.mp hlife
  obtain ⟨d, rfl⟩ := isSome_iff_exists.mp hsome
  have hsound := blank_listen_sound hlisten
  obtain ⟨r', hr', hsuffix⟩ := (handsSuffix_iff hsound ⟨0x0A000001, 0x0A000002⟩ optionBytes
    27).mpr (.inr (.inr (by decide)))
  cases hr.symm.trans hr'
  exact ⟨p, d, hsound, hr, (hsuffix d rfl).bytes.trans (by decide)⟩

/-- **A length that wraps**: 20 bytes with a data offset of 60 are handed on as
4294967256 bytes. -/
theorem length_wraps : ∃ (p : Protocol) (d : Delivery), p.table.Sound ∧
    p.dispatch ⟨0x0A000001, 0x0A000002⟩ (segmentBytes 5555 80 0xF010) 20 = .ok (some d) ∧
    d.length = 4294967256 ∧ ¬ HandsSuffix (segmentBytes 5555 80 0xF010) 20 d := by
  have hlife : (listening.bind fun p =>
      (p.dispatch ⟨0x0A000001, 0x0A000002⟩ (segmentBytes 5555 80 0xF010) 20).map fun r =>
        r.map Delivery.length) = .ok (some 4294967256) := by rfl
  obtain ⟨p, hlisten, hlife⟩ := bind_ok.mp hlife
  obtain ⟨r, hr, hlength⟩ := map_ok.mp hlife
  obtain ⟨d, rfl, hd⟩ := map_eq_some_iff.mp hlength
  refine ⟨p, d, blank_listen_sound hlisten, hr, hd, ?_⟩
  intro h
  exact absurd h.inside (by decide)

end Peos2.Tcp
