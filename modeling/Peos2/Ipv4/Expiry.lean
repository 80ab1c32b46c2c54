/-
  Ipv4.Expiry — what `tick` of `protocol_impl` does to the reassembly buffers.

  The loop takes `delta_ms` off the time to live of a buffer and goes on to the next
  only if the time is up. Otherwise it comes back to the same buffer, until nothing
  is left of its time.

  Main results: `tick_once_iff`, `tick_drains_early`.
-/
import Peos2.Ipv4.Reassembly

namespace Peos2.Ipv4

open Peos2.Lib Peos2.Support Pool UnorderedMap Option

namespace Protocol

variable {m m' : Buffers} {it endIter : Nat} {deltaMs : UInt32} {ttl : Int}

/-! ## Counting down -/

/-- `ttl - delta_ms`, computed in `uint32_t` and stored in an `int`. -/
def remaining (deltaMs : UInt32) (ttl : Int) : Int := signed (unsigned ttl - deltaMs)

/-- A time in the range of `int`. -/
def IsInt (ttl : Int) : Prop := -2147483648 ≤ ttl ∧ ttl < 2147483648

theorem remaining_eq (deltaMs : UInt32) (h0 : 0 ≤ ttl) (h1 : ttl < 2147483648) :
    remaining deltaMs ttl = if deltaMs.toNat ≤ ttl + 2147483648 then ttl - deltaMs.toNat
      else ttl - deltaMs.toNat + 4294967296 := by
  have hdelta := toNat_lt_border deltaMs
  have hword : (unsigned ttl).toNat = ttl.toNat := toNat_unsigned_of_nonneg h0 (by omega)
  have hdiff : (unsigned ttl - deltaMs).toNat = (4294967296 - deltaMs.toNat + ttl.toNat)
      % 4294967296 := by
    rw [UInt32.toNat_sub, hword]
  unfold remaining signed
  split <;> split <;> omega

theorem remaining_isInt (deltaMs : UInt32) (ttl : Int) : IsInt (remaining deltaMs ttl) := by
  have hborder := toNat_lt_border (unsigned ttl - deltaMs)
  unfold remaining signed IsInt
  split <;> omega

/-- Taking `deltaMs` off again and again uses the time up. -/
inductive RunsOut (deltaMs : UInt32) : Int → Prop
  | now {ttl : Int} : remaining deltaMs ttl ≤ 0 → RunsOut deltaMs ttl
  | later {ttl : Int} : ¬ remaining deltaMs ttl ≤ 0 → RunsOut deltaMs (remaining deltaMs ttl) →
      RunsOut deltaMs ttl

theorem runsOut (hdelta : deltaMs ≠ 0) (h0 : 0 < ttl) (h1 : ttl < 2147483648) :
    RunsOut deltaMs ttl := by
  have hpos : 0 < deltaMs.toNat := by
    rw [Ne, eq_iff_toNat] at hdelta
    exact Nat.pos_of_ne_zero hdelta
  have hborder := toNat_lt_border deltaMs
  by_cases hsmall : deltaMs.toNat < 2147483648
  · -- the time that is left gets smaller
    generalize hn : ttl.toNat = n
    induction n using Nat.strongRecOn generalizing ttl with
    | ind n ih =>
      have hleft := remaining_eq deltaMs (by omega) h1
      by_cases hup : remaining deltaMs ttl ≤ 0
      · exact .now hup
      · exact .later hup (ih _ (by omega) (by omega) (by omega) rfl)
  -- the distance to the largest `int` does
  generalize hn : (2147483648 - ttl).toNat = n
  induction n using Nat.strongRecOn generalizing ttl with
  | ind n ih =>
    have hleft := remaining_eq deltaMs (by omega) h1
    by_cases hup : remaining deltaMs ttl ≤ 0
    · exact .now hup
    · have hrange := (remaining_isInt deltaMs ttl).2
      exact .later hup (ih _ (by omega) (by omega) hrange rfl)

/-! ## Rounds of the loop -/

/-- `it'` is where the iterator goes from slot `it`. -/
structure Next (m : Buffers) (it it' : Nat) : Prop where
  lt : it < it'
  le : it' ≤ m.storage.watermark
  place : it' = m.storage.watermark ∨ ∃ e, m.entry it' = some e
  gap : ∀ j, it < j → j < it' → m.entry j = none

theorem next_jump (hwf : m.storage.WF) (hlt : it < m.storage.watermark) :
    Next m it (m.storage.jumpToValid (m.storage.watermark - (it + 1)) (it + 1)) := by
  obtain ⟨hge, hle, hplace, hgap⟩ := hwf.jump_spec (show it + 1 ≤ m.storage.watermark by omega)
    (show m.storage.watermark ≤ it + 1 + (m.storage.watermark - (it + 1)) by omega)
  exact ⟨hge, hle, hplace, fun j hj hlt => hgap j hj hlt⟩

theorem Next.of_others {it' : Nat} (h : Next m' it it')
    (hmark : m'.storage.watermark = m.storage.watermark)
    (hsame : ∀ j, j ≠ it → m'.entry j = m.entry j) : Next m it it' := by
  have hlt := h.lt
  refine ⟨hlt, by rw [← hmark]; exact h.le, ?_, ?_⟩
  · rw [← hmark, ← hsame it' (by omega)]
    exact h.place
  · intro j hj hj'
    rw [← hsame j (by omega)]
    exact h.gap j hj hj'

/-- Some rounds of the loop lead from slot `it` to slot `it'`. -/
def Leads (deltaMs : UInt32) (endIter it : Nat) (m : Buffers) (it' : Nat) (m' : Buffers) : Prop :=
  ∃ n, ∀ fuel, tickFrom deltaMs endIter (fuel + n) it m = tickFrom deltaMs endIter fuel it' m'

theorem Leads.trans {it' it'' : Nat} {m'' : Buffers} (h : Leads deltaMs endIter it m it' m')
    (h' : Leads deltaMs endIter it' m' it'' m'') : Leads deltaMs endIter it m it'' m'' := by
  obtain ⟨n, hn⟩ := h
  obtain ⟨n', hn'⟩ := h'
  refine ⟨n' + n, fun fuel => ?_⟩
  rw [← Nat.add_assoc, hn, hn']

variable {key : Identifier} {e : Entry Identifier ReassemblyBuffer}

theorem round_spent {v : ReassemblyBuffer} (deltaMs : UInt32) (hwf : m.storage.WF)
    (he : m.entry it = some ⟨key, v⟩) (hend : it ≠ endIter) (hspent : v.ttl ≤ 0) :
    ∃ it', Leads deltaMs endIter it m it' m ∧ Next m it it' := by
  refine ⟨_, ⟨1, fun fuel => ?_⟩, next_jump hwf (lookup_lt_watermark he)⟩
  rw [tickFrom, if_neg hend]
  rw [value_of_entry he, ok_bind, if_pos hspent]

theorem round_taken {v : ReassemblyBuffer} (deltaMs : UInt32) (hwf : m.storage.WF)
    (he : m.entry it = some ⟨key, v⟩) (hend : it ≠ endIter) (hleft : 0 < v.ttl) :
    ∃ m1, m1.storage.WF ∧ m1.storage.watermark = m.storage.watermark ∧
      (∀ j, m1.entry j = if j = it then some ⟨key, { v with ttl := remaining deltaMs v.ttl }⟩
        else m.entry j) ∧
      ∀ fuel, tickFrom deltaMs endIter (fuel + 1) it m
        = if remaining deltaMs v.ttl ≤ 0 then do
            let buffers ← m1.erase it
            tickFrom deltaMs endIter fuel
              (m.storage.jumpToValid (m.storage.watermark - (it + 1)) (it + 1)) buffers
          else tickFrom deltaMs endIter fuel it m1 := by
  obtain ⟨m1, hset, hwf1, hl⟩ := setValue_spec hwf he { v with ttl := remaining deltaMs v.ttl }
  refine ⟨m1, hwf1, watermark_setValue hset, hl, fun fuel => ?_⟩
  rw [tickFrom, if_neg hend]
  simp only
  rw [value_of_entry he, ok_bind, if_neg (by omega)]
  unfold remaining at hset ⊢
  rw [hset, ok_bind]

/-- The loop stays at a buffer until its time is used up, and erases it. -/
theorem leads_past (hrun : RunsOut deltaMs ttl) :
    ∀ {m : Buffers} {v : ReassemblyBuffer}, v.ttl = ttl → m.storage.WF →
      m.entry it = some ⟨key, v⟩ → it ≠ endIter → 0 < ttl →
      ∃ it' m', Leads deltaMs endIter it m it' m' ∧ Next m it it' ∧ m'.storage.WF ∧
        (∀ j, m'.entry j = if j = it then none else m.entry j) ∧
        m'.storage.watermark ≤ m.storage.watermark ∧
        (it' < m.storage.watermark → m'.storage.watermark = m.storage.watermark) := by
  induction hrun with
  | now hup =>
    intro m v hv hwf he hend hpos
    obtain ⟨m1, hwf1, hmark, hl1, hround⟩ := round_taken deltaMs hwf he hend (by omega)
    have he1 := hl1 it
    rw [if_pos rfl] at he1
    obtain ⟨m', herase, hwf', hl⟩ := UnorderedMap.erase_spec hwf1 he1
    obtain ⟨hle, hkeep⟩ := UnorderedMap.watermark_erase herase
    have hnext := next_jump hwf (lookup_lt_watermark he)
    refine ⟨_, m', ⟨1, fun fuel => ?_⟩, hnext, hwf', fun j => ?_, by rw [← hmark]; exact hle, ?_⟩
    · rw [hround, hv, if_pos hup, herase, ok_bind]
    · rw [hl, hl1]
      by_cases hj : j = it
      · rw [if_pos hj, if_pos hj]
      · rw [if_neg hj, if_neg hj, if_neg hj]
    · intro hlt
      rw [← hmark]
      have hafter := hnext.lt
      exact hkeep (by rw [hmark]; omega)
  | later hleft _ ih =>
    intro m v hv hwf he hend hpos
    obtain ⟨m1, hwf1, hmark, hl1, hround⟩ := round_taken deltaMs hwf he hend (by omega)
    have he1 := hl1 it
    rw [if_pos rfl, hv] at he1
    obtain ⟨it', m', hleads, hnext, hwf', hl, hle, hkeep⟩ := ih rfl hwf1 he1 hend (by omega)
    have hothers : ∀ j, j ≠ it → m1.entry j = m.entry j := fun j hj => by rw [hl1, if_neg hj]
    rw [hmark] at hle hkeep
    refine ⟨it', m', Leads.trans ⟨1, fun fuel => ?_⟩ hleads, hnext.of_others hmark hothers, hwf',
      fun j => ?_, hle, hkeep⟩
    · rw [hround, hv, if_neg hleft]
    · rw [hl]
      by_cases hj : j = it
      · rw [if_pos hj, if_pos hj]
      · rw [if_neg hj, if_neg hj, hothers j hj]

/-! ## Whole calls -/

/-- The iterator is at the end or at a buffer. -/
structure Standing (m : Buffers) (endIter it : Nat) : Prop where
  wf : m.storage.WF
  below : m.storage.watermark ≤ endIter
  place : it = endIter ∨ (m.storage.watermark = endIter ∧ ∃ e, m.entry it = some e)

/-- The buffers that are left when those with time left are gone. -/
def spent (e : Option (Entry Identifier ReassemblyBuffer)) :
    Option (Entry Identifier ReassemblyBuffer) :=
  e.filter fun e => e.value.ttl ≤ 0

theorem leads_next (hwf : m.storage.WF) (he : m.entry it = some e) (hend : it ≠ endIter)
    (hrun : 0 < e.value.ttl → RunsOut deltaMs e.value.ttl) :
    ∃ it' m', Leads deltaMs endIter it m it' m' ∧ Next m it it' ∧ m'.storage.WF ∧
      (∀ j, m'.entry j = if j = it then spent (m.entry j) else m.entry j) ∧
      m'.storage.watermark ≤ m.storage.watermark ∧
      (it' < m.storage.watermark → m'.storage.watermark = m.storage.watermark) := by
  by_cases hspent : e.value.ttl ≤ 0
  · obtain ⟨it', hleads, hnext⟩ := round_spent deltaMs hwf he hend hspent
    refine ⟨it', m, hleads, hnext, hwf, fun j => ?_, Nat.le_refl _, fun _ => rfl⟩
    by_cases hj : j = it
    · rw [if_pos hj, hj, he, spent, filter_some, if_pos (decide_eq_true hspent)]
    · rw [if_neg hj]
  obtain ⟨it', m', hleads, hnext, hwf', hl, hmark⟩ :=
    leads_past (hrun (by omega)) rfl hwf he hend (by omega)
  refine ⟨it', m', hleads, hnext, hwf', fun j => ?_, hmark⟩
  rw [hl]
  by_cases hj : j = it
  · rw [if_pos hj, if_pos hj, hj, he, spent, filter_some, if_neg (by simpa using hspent)]
  · rw [if_neg hj, if_neg hj]

/-- From slot `it` on, every buffer that has time left is removed. -/
theorem tickFrom_drains (hstand : Standing m endIter it)
    (hrun : ∀ j e, m.entry j = some e → 0 < e.value.ttl → RunsOut deltaMs e.value.ttl) :
    ∃ m', Leads deltaMs endIter it m endIter m' ∧ m'.storage.WF ∧
      ∀ j, m'.entry j = if it ≤ j then spent (m.entry j) else m.entry j := by
  -- the slots still to come get fewer
  generalize hk : endIter - it = k
  induction k using Nat.strongRecOn generalizing it m with
  | ind k ih =>
    have hdead : ∀ j, endIter ≤ j → m.entry j = none := by
      intro j hj
      cases hentry : m.entry j with
      | none => rfl
      | some e =>
        have hlt := lookup_lt_watermark hentry
        have hbelow := hstand.below
        omega
    rcases hstand.place with hit | ⟨hmark, e, he⟩
    · refine ⟨m, ⟨0, fun fuel => by rw [Nat.add_zero, hit]⟩, hstand.wf, fun j => ?_⟩
      by_cases hj : it ≤ j
      · rw [if_pos hj, hdead j (by omega)]
        rfl
      · rw [if_neg hj]
    have hlt := lookup_lt_watermark he
    obtain ⟨it1, m1, hleads1, hnext, hwf1, hl1, hle, hkeep⟩ :=
      leads_next hstand.wf he (show it ≠ endIter by omega) (hrun it e he)
    have hlt1 := hnext.lt
    rw [hmark] at hle hkeep
    have hstand1 : Standing m1 endIter it1 := by
      refine ⟨hwf1, hle, ?_⟩
      rcases hnext.place with hlast | ⟨e1, he1⟩
      · exact .inl (hlast.trans hmark)
      · have hin := lookup_lt_watermark he1
        refine .inr ⟨hkeep (by omega), e1, ?_⟩
        rw [hl1, if_neg (by omega)]
        exact he1
    have hrun1 : ∀ j e, m1.entry j = some e → 0 < e.value.ttl → RunsOut deltaMs e.value.ttl := by
      intro j e1 he1
      rw [hl1] at he1
      split at he1
      · exact hrun j e1 (eq_some_of_filter_eq_some he1)
      · exact hrun j e1 he1
    obtain ⟨m', hleads', hwf', hl⟩ := ih (endIter - it1) (by omega) hstand1 hrun1 rfl
    refine ⟨m', hleads1.trans hleads', hwf', fun j => ?_⟩
    rw [hl, hl1]
    rcases Nat.lt_trichotomy j it with hj | hj | hj
    · rw [if_neg (by omega), if_neg (by omega), if_neg (by omega)]
    · rw [if_neg (by omega), if_pos hj, if_pos (by omega)]
    · rw [if_neg (show j ≠ it by omega), if_pos (show it ≤ j by omega)]
      by_cases hgap : j < it1
      · rw [if_neg (by omega), hnext.gap j hj hgap]
        rfl
      · rw [if_pos (by omega)]

/-- With 0 to take off, the loop stays at the first buffer that has time
left. -/
theorem tickFrom_stays (fuel : Nat) : ∀ {it : Nat} {m : Buffers}, Standing m endIter it →
    (∀ j e, m.entry j = some e → IsInt e.value.ttl) →
    (∃ j e, it ≤ j ∧ m.entry j = some e ∧ 0 < e.value.ttl) →
    tickFrom 0 endIter fuel it m = .error .outOfFuel := by
  induction fuel with
  | zero => exact fun _ _ _ => rfl
  | succ fuel ih =>
    intro it m hstand hrange hleft
    obtain ⟨j, e, hj, he, hpos⟩ := hleft
    have hbefore := lookup_lt_watermark he
    have hbelow := hstand.below
    have hend : it ≠ endIter := by omega
    obtain ⟨hmark, ⟨key, v⟩, hv⟩ := hstand.place.resolve_left hend
    by_cases hspent : v.ttl ≤ 0
    · -- the iterator goes on, but not past the buffer
      have hnext := next_jump hstand.wf (lookup_lt_watermark hv)
      have hne : j ≠ it := by
        intro heq
        rw [heq, hv] at he
        cases he
        exact absurd hspent (Int.not_le.mpr hpos)
      have hto : m.storage.jumpToValid (m.storage.watermark - (it + 1)) (it + 1) ≤ j := by
        by_contra hpast
        have hnone := hnext.gap j (by omega) (by omega)
        rw [he] at hnone
        cases hnone
      rw [tickFrom, if_neg hend]
      rw [value_of_entry hv, ok_bind, if_pos hspent]
      refine ih ⟨hstand.wf, hbelow, ?_⟩ hrange ⟨j, e, hto, he, hpos⟩
      rcases hnext.place with hlast | hplace
      · exact .inl (hlast.trans hmark)
      · exact .inr ⟨hmark, hplace⟩
    · have hsame : remaining 0 v.ttl = v.ttl := by
        have hint : IsInt v.ttl := hrange it _ hv
        rw [remaining_eq 0 (by omega) hint.2, if_pos (by simp; omega)]
        simp
      obtain ⟨m1, hwf1, hmark1, hl1, hround⟩ := round_taken 0 hstand.wf hv hend (by omega)
      have hentries : ∀ j, m1.entry j = m.entry j := by
        intro j
        rw [hl1, hsame]
        by_cases hj : j = it
        · rw [if_pos hj, hj, hv]
        · rw [if_neg hj]
      rw [hround, hsame, if_neg hspent]
      refine ih ⟨hwf1, by rw [hmark1]; exact hbelow,
        .inr ⟨hmark1.trans hmark, ⟨key, v⟩, ?_⟩⟩ ?_ ?_
      · rw [hentries]
        exact hv
      · intro j e he
        rw [hentries] at he
        exact hrange j e he
      · exact ⟨j, e, hj, by rw [hentries]; exact he, hpos⟩

theorem tickFrom_more {fuel : Nat} : ∀ {it : Nat} {m : Buffers} (k : Nat),
    tickFrom deltaMs endIter fuel it m = .ok m' →
    tickFrom deltaMs endIter (fuel + k) it m = .ok m' := by
  induction fuel with
  | zero =>
    intro it m k hcall
    cases hcall
  | succ fuel ih =>
    intro it m k hcall
    rw [Nat.add_right_comm]
    rw [tickFrom] at hcall ⊢
    by_cases hend : it = endIter
    · rw [if_pos hend] at hcall ⊢
      exact hcall
    rw [if_neg hend] at hcall ⊢
    simp only at hcall ⊢
    obtain ⟨v, hv, hcall⟩ := bind_ok.mp hcall
    rw [hv, ok_bind]
    split at hcall
    next hspent =>
      rw [if_pos hspent]
      exact ih k hcall
    next hleft =>
      rw [if_neg hleft]
      obtain ⟨m1, hset, hcall⟩ := bind_ok.mp hcall
      rw [hset, ok_bind]
      split at hcall
      next hup =>
        obtain ⟨m2, herase, hcall⟩ := bind_ok.mp hcall
        rw [if_pos hup, herase, ok_bind]
        exact ih k hcall
      next hup =>
        rw [if_neg hup]
        exact ih k hcall

variable {p p' : Protocol}

theorem standing_begin (hwf : m.storage.WF) : Standing m m.storage.watermark
    (m.storage.jumpToValid m.storage.watermark 0) ∧
      ∀ j, j < m.storage.jumpToValid m.storage.watermark 0 → m.entry j = none := by
  obtain ⟨_, _, hplace, hgap⟩ := hwf.jump_spec (Nat.zero_le m.storage.watermark)
    (show m.storage.watermark ≤ 0 + m.storage.watermark by omega)
  refine ⟨⟨hwf, Nat.le_refl _, ?_⟩, fun j hj => hgap j (Nat.zero_le j) hj⟩
  exact hplace.imp_right fun hlook => ⟨rfl, hlook⟩

theorem begin_le (hwf : m.storage.WF) (he : m.entry it = some e) :
    m.storage.jumpToValid m.storage.watermark 0 ≤ it := by
  by_contra hbefore
  have hnone := (standing_begin hwf).2 it (by omega)
  rw [he] at hnone
  cases hnone

theorem tick_drains (hwf : p.reassemblyBuffers.storage.WF)
    (hrun : ∀ it e, p.reassemblyBuffers.entry it = some e → 0 < e.value.ttl →
      RunsOut deltaMs e.value.ttl) :
    ∃ fuel m', p.tick fuel deltaMs = .ok { p with reassemblyBuffers := m' } ∧
      ∀ it, m'.entry it = spent (p.reassemblyBuffers.entry it) := by
  obtain ⟨hstand, hdead⟩ := standing_begin hwf
  obtain ⟨m', ⟨n, hleads⟩, _, hl⟩ := tickFrom_drains hstand hrun
  refine ⟨1 + n, m', ?_, fun it => ?_⟩
  · rw [tick, hleads 1, tickFrom, if_pos rfl, ok_bind]
  · rw [hl]
    split
    · rfl
    next hbefore =>
      rw [hdead it (by omega)]
      rfl

theorem tick_unique {fuel fuel' : Nat} {p1 p2 : Protocol} (h1 : p.tick fuel deltaMs = .ok p1)
    (h2 : p.tick fuel' deltaMs = .ok p2) : p1 = p2 := by
  obtain ⟨m1, hloop1, h1⟩ := bind_ok.mp h1
  obtain ⟨m2, hloop2, h2⟩ := bind_ok.mp h2
  have hmore1 := tickFrom_more fuel' hloop1
  have hmore2 := tickFrom_more fuel hloop2
  rw [Nat.add_comm, hmore1] at hmore2
  cases hmore2
  exact Except.ok.inj (h1.symm.trans h2)

/-! ## Taking the time off once -/

/-- The buffer `deltaMs` milliseconds later; it is dropped if its time is up. -/
def aged (deltaMs : UInt32) (e : Entry Identifier ReassemblyBuffer) :
    Option (Entry Identifier ReassemblyBuffer) :=
  if e.value.ttl - deltaMs.toNat ≤ 0 then none
  else some ⟨e.key, { e.value with ttl := e.value.ttl - deltaMs.toNat }⟩

/-- The call returns; and below 2^31 every buffer is `deltaMs` older, those whose
time is up are gone and nothing else has changed. -/
def TicksOnce (p : Protocol) (deltaMs : UInt32) : Prop :=
  ∃ fuel m', p.tick fuel deltaMs = .ok { p with reassemblyBuffers := m' } ∧
    (deltaMs.toNat < 2147483648 →
      ∀ it, m'.entry it = (p.reassemblyBuffers.entry it).bind (aged deltaMs))

theorem spent_eq_aged :
    spent (some e) = (some e).bind (aged deltaMs)
      ↔ 0 < e.value.ttl ∧ e.value.ttl ≤ deltaMs.toNat := by
  rw [spent, filter_some, bind_some, aged]
  by_cases hspent : e.value.ttl ≤ 0
  · rw [if_pos (decide_eq_true hspent), if_pos (by omega)]
    constructor
    · intro h
      cases h
    · intro h
      omega
  rw [if_neg (by simpa using hspent)]
  by_cases hup : e.value.ttl - deltaMs.toNat ≤ 0
  · rw [if_pos hup]
    exact ⟨fun _ => ⟨by omega, by omega⟩, fun _ => rfl⟩
  rw [if_neg hup]
  constructor
  · intro h
    cases h
  · intro h
    omega

/-- **When a call takes the time off once**: if `deltaMs` is negative as an `int`, where the
call only has to return, or if every buffer has time left but no more than `deltaMs`. -/
theorem tick_once_iff (hwf : p.reassemblyBuffers.storage.WF)
    (hrange : ∀ it e, p.reassemblyBuffers.entry it = some e → IsInt e.value.ttl) :
    p.TicksOnce deltaMs ↔ 2147483648 ≤ deltaMs.toNat ∨
      ∀ it e, p.reassemblyBuffers.entry it = some e →
        0 < e.value.ttl ∧ e.value.ttl ≤ deltaMs.toNat := by
  by_cases hrun : ∀ it e, p.reassemblyBuffers.entry it = some e → 0 < e.value.ttl →
      RunsOut deltaMs e.value.ttl
  · obtain ⟨fuel, m', hcall, hl⟩ := tick_drains hwf hrun
    constructor
    · rintro ⟨fuel', m'', hcall', hages⟩
      have hsame := tick_unique hcall hcall'
      cases hsame
      rcases Nat.lt_or_ge deltaMs.toNat 2147483648 with hsmall | hlarge
      · refine .inr fun it e he => ?_
        have hentry := hages hsmall it
        rw [hl, he] at hentry
        exact spent_eq_aged.mp hentry
      · exact .inl hlarge
    · intro hdue
      refine ⟨fuel, m', hcall, fun hsmall it => ?_⟩
      have hall := hdue.resolve_left (Nat.not_le.mpr hsmall)
      rw [hl]
      cases he : p.reassemblyBuffers.entry it with
      | none => rfl
      | some e => exact spent_eq_aged.mpr (hall it e he)
  · -- there is a buffer at which the loop stays
    have hzero : deltaMs = 0 := by
      by_contra hdelta
      exact hrun fun it e he hpos => runsOut hdelta hpos (hrange it e he).2
    push Not at hrun
    obtain ⟨it, e, he, hpos, _⟩ := hrun
    subst hzero
    constructor
    · rintro ⟨fuel, m', hcall, _⟩
      rw [tick, tickFrom_stays fuel (standing_begin hwf).1 hrange
        ⟨it, e, begin_le hwf he, he, hpos⟩] at hcall
      cases hcall
    · intro hdue
      rcases hdue with hlarge | hall
      · exact absurd hlarge (by decide)
      · have hbound := (hall it e he).2
        simp at hbound
        omega

/-! ## Half a datagram -/

theorem exists_halfReceived : ∃ p, Reachable p ∧ p.reassemblyBuffers.storage.watermark = 1 ∧
    (∃ e, p.reassemblyBuffers.entry 0 = some e ∧ e.value.ttl = 20000) ∧
    ∃ p', p.tick 10 5000 = .ok p' ∧ p'.reassemblyBuffers.entry 0 = none := by
  have hrun : ((blank 0x0A00020F 0xFFFFFF00 0x0A000202).onReceive (fun _ => 0)
      (twoPiecesArrival 1).data 21).map (fun r => (r.1.reassemblyBuffers.storage.watermark,
        (r.1.reassemblyBuffers.entry 0).map fun e => e.value.ttl,
        ((r.1.tick 10 5000).map fun p => (p.reassemblyBuffers.entry 0).isNone).toOption))
      = .ok (1, some 20000, some true) := by
    decide +kernel
  obtain ⟨⟨p, out⟩, hreceive, hvalues⟩ := map_ok.mp hrun
  obtain ⟨hmark, hrest⟩ := Prod.mk.inj hvalues
  obtain ⟨httl, htick⟩ := Prod.mk.inj hrest
  obtain ⟨e, he, hettl⟩ := map_eq_some_iff.mp httl
  refine ⟨p, .step (.init ⟨_, _, _, rfl⟩) (.receive hreceive), hmark, ⟨e, he, hettl⟩, ?_⟩
  cases hcall : p.tick 10 5000 with
  | error fault =>
    simp [hcall, Except.map, Except.toOption] at htick
  | ok p' =>
    simp only [hcall, Except.map, Except.toOption, some.injEq] at htick
    exact ⟨p', rfl, isNone_iff_eq_none.mp htick⟩

theorem ttl_of_watermark (hmark : m.storage.watermark = 1) (he : m.entry 0 = some e)
    (httl : e.value.ttl = 20000) : ∀ it e, m.entry it = some e → e.value.ttl = 20000 := by
  intro it e' he'
  have hlt := lookup_lt_watermark he'
  have hzero : it = 0 := by omega
  rw [hzero, he] at he'
  cases he'
  exact httl

theorem tick_once_iff_due : ∃ p, Reachable p ∧
    (∃ e, p.reassemblyBuffers.entry 0 = some e ∧ e.value.ttl = 20000) ∧ p.TicksOnce 20000 := by
  obtain ⟨p, hreach, hmark, ⟨e, he, httl⟩, _⟩ := exists_halfReceived
  have hall := ttl_of_watermark hmark he httl
  refine ⟨p, hreach, ⟨e, he, httl⟩, (tick_once_iff hreach.sound.wf ?_).mpr (.inr ?_)⟩
  · intro it e' he'
    rw [hall it e' he']
    exact ⟨by decide, by decide⟩
  · intro it e' he'
    rw [hall it e' he']
    exact ⟨by decide, by decide⟩

/-- **A buffer does not live for 20 s.**  After 5 s it is gone, and a call with 0
does not return. -/
theorem tick_drains_early : ∃ p, Reachable p ∧
    (∃ e, p.reassemblyBuffers.entry 0 = some e ∧ e.value.ttl = 20000) ∧
    ¬ p.TicksOnce 5000 ∧ ∀ fuel, p.tick fuel 0 = .error .outOfFuel := by
  obtain ⟨p, hreach, hmark, ⟨e, he, httl⟩, p₁, hcall, hgone⟩ := exists_halfReceived
  have hall := ttl_of_watermark hmark he httl
  refine ⟨p, hreach, ⟨e, he, httl⟩, ?_, fun fuel => ?_⟩
  · rintro ⟨fuel, m', hcall', hages⟩
    have hsame := tick_unique hcall hcall'
    have hentry := hages (by decide) 0
    rw [hsame] at hgone
    rw [hgone, he, bind_some, aged, httl] at hentry
    cases hentry
  · have hwf := hreach.sound.wf
    rw [tick, tickFrom_stays fuel (standing_begin hwf).1 ?_
      ⟨0, e, begin_le hwf he, he, by rw [httl]; decide⟩, error_bind]
    intro it e' he'
    rw [hall it e' he']
    exact ⟨by decide, by decide⟩

end Protocol

end Peos2.Ipv4
