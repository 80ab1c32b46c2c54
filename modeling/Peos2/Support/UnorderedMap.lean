/-
  Support.UnorderedMap — `p2::unordered_map`
  (`libraries/support/unordered_map.h`).

  The entries lie in a pool, and a key is found by walking over them. An
  iterator is the index of a slot; `end()` is `none`.
-/
import Peos2.Support.Pool

namespace Peos2.Support

open Peos2.Lib List Pool

/-- `unordered_map::entry` -/
structure Entry (κ ν : Type) where
  key : κ
  value : ν

/-- `p2::unordered_map<_Key, _Value, _Capacity>` -/
structure UnorderedMap (κ ν : Type) (capacity : Nat) where
  storage : Pool (Entry κ ν) capacity 0xFFFF

namespace UnorderedMap

variable {κ ν : Type} {capacity : Nat}

/-! ## The class -/

section Search

variable [DecidableEq κ]

/-- The loop of `find` over the slots still to visit. -/
def findFrom (m : UnorderedMap κ ν capacity) (key : κ) : List Nat → Checked (Option Nat)
  | [] => .ok none
  | it :: rest => do
      let entry ← m.storage.get it
      if entry.key = key then .ok (some it) else m.findFrom key rest

/-- `iterator find(const _Key &key)` -/
def find (m : UnorderedMap κ ν capacity) (key : κ) : Checked (Option Nat) :=
  m.findFrom key m.storage.indices

/-- `bool insert(const _Key &key, const _Value &value)` -/
def insert (m : UnorderedMap κ ν capacity) (key : κ) (value : ν) :
    Checked (Bool × UnorderedMap κ ν capacity) := do
  match ← m.find key with
  | some _ => .ok (false, m)
  | none =>
    let (_, storage) ← m.storage.emplaceAnywhere ⟨key, value⟩
    .ok (true, ⟨storage⟩)

end Search

/-- `void erase(const iterator &iterator)` -/
def erase (m : UnorderedMap κ ν capacity) (it : Nat) : Checked (UnorderedMap κ ν capacity) := do
  let storage ← m.storage.erase it
  .ok ⟨storage⟩

/-- `iterator->value` -/
def value (m : UnorderedMap κ ν capacity) (it : Nat) : Checked ν := do
  let entry ← m.storage.get it
  .ok entry.value

/-- `iterator->value = v` -/
def setValue (m : UnorderedMap κ ν capacity) (it : Nat) (v : ν) :
    Checked (UnorderedMap κ ν capacity) := do
  let entry ← m.storage.get it
  let storage ← m.storage.set it { entry with value := v }
  .ok ⟨storage⟩

/-- `size_t size() const` -/
def size (m : UnorderedMap κ ν capacity) : Nat := m.storage.size

/-- `bool full() const` -/
def full (m : UnorderedMap κ ν capacity) : Bool := m.storage.full

def blank : UnorderedMap κ ν capacity := ⟨Pool.blank⟩

/-- The key and the value in slot `it`, if it is in use. -/
def entry (m : UnorderedMap κ ν capacity) (it : Nat) : Option (Entry κ ν) := m.storage.lookup it

/-- No two slots have the same key. -/
def Distinct (m : UnorderedMap κ ν capacity) : Prop :=
  ∀ i j e e', m.entry i = some e → m.entry j = some e' → e.key = e'.key → i = j

def Contains (m : UnorderedMap κ ν capacity) (key : κ) : Prop :=
  ∃ it v, m.entry it = some ⟨key, v⟩

variable {m m' : UnorderedMap κ ν capacity} {key : κ} {v : ν} {it : Nat}

theorem contains_of_entry {e : Entry κ ν} (h : m.entry it = some e) : m.Contains e.key :=
  ⟨it, e.value, h⟩

theorem not_full_of_empty (hwf : m.storage.WF) (hcap : 0 < capacity)
    (hempty : ∀ it, m.entry it = none) : m.full = false := by
  have hnil : m.storage.values = [] := by
    rw [eq_nil_iff_forall_not_mem]
    intro e he
    obtain ⟨it, hit⟩ := hwf.mem_values.mp he
    have hnone : m.storage.lookup it = none := hempty it
    rw [hnone] at hit
    cases hit
  have hsize := hwf.length_values
  rw [hnil, length_nil] at hsize
  unfold full Pool.full
  unfold Pool.size at hsize
  rw [decide_eq_false_iff_not]
  omega

theorem length_le_size (hwf : m.storage.WF) {keys : List κ} (hkeys : keys.Nodup)
    (hall : ∀ k ∈ keys, m.Contains k) : keys.length ≤ m.size := by
  have hsub : keys ⊆ m.storage.values.map Entry.key := by
    intro k hk
    obtain ⟨it, v, he⟩ := hall k hk
    exact mem_map.mpr ⟨⟨k, v⟩, hwf.mem_values.mpr ⟨it, he⟩, rfl⟩
  have hle := (subperm_of_subset hkeys hsub).length_le
  rw [length_map, hwf.length_values] at hle
  exact hle

/-! ## Finding and inserting -/

section Search

variable [DecidableEq κ]

theorem findFrom_spec (m : UnorderedMap κ ν capacity) (key : κ) (slots : List Nat)
    (hslots : ∀ i ∈ slots, ∃ e, m.entry i = some e) :
    (∃ i ∈ slots, ∃ v, m.entry i = some ⟨key, v⟩ ∧ m.findFrom key slots = .ok (some i)) ∨
    ((∀ i ∈ slots, ∀ e, m.entry i = some e → e.key ≠ key) ∧
      m.findFrom key slots = .ok none) := by
  induction slots with
  | nil => exact .inr ⟨fun i hi => absurd hi not_mem_nil, rfl⟩
  | cons i rest ih =>
    obtain ⟨e, he⟩ := hslots i (by simp)
    have hget : m.storage.get i = .ok e := get_spec he
    rw [findFrom, hget, ok_bind]
    by_cases hkey : e.key = key
    · left
      rw [if_pos hkey]
      subst hkey
      exact ⟨i, by simp, e.value, he, rfl⟩
    rw [if_neg hkey]
    rcases ih fun j hj => hslots j (mem_cons_of_mem _ hj) with ⟨j, hj, h⟩ | ⟨hnone, h⟩
    · exact .inl ⟨j, mem_cons_of_mem _ hj, h⟩
    right
    refine ⟨?_, h⟩
    intro j hj e' he'
    rcases mem_cons.mp hj with rfl | hj
    · rw [he] at he'
      cases he'
      exact hkey
    · exact hnone j hj e' he'

theorem find_spec (hwf : m.storage.WF) (key : κ) :
    (∃ it v, m.entry it = some ⟨key, v⟩ ∧ m.find key = .ok (some it)) ∨
    (¬ m.Contains key ∧ m.find key = .ok none) := by
  rcases findFrom_spec m key m.storage.indices (fun i hi => hwf.mem_indices.mp hi) with
    ⟨i, _, v, he, h⟩ | ⟨hnone, h⟩
  · exact .inl ⟨i, v, he, h⟩
  · right
    refine ⟨?_, h⟩
    rintro ⟨i, v, he⟩
    exact hnone i (hwf.mem_indices.mpr ⟨_, he⟩) _ he rfl

theorem find_of_absent (hwf : m.storage.WF) (habsent : ¬ m.Contains key) :
    m.find key = .ok none := by
  rcases find_spec hwf key with ⟨i, v, he, _⟩ | ⟨_, h⟩
  · exact absurd ⟨i, v, he⟩ habsent
  · exact h

theorem find_of_lookup (hwf : m.storage.WF) (hdistinct : m.Distinct)
    (he : m.entry it = some ⟨key, v⟩) : m.find key = .ok (some it) := by
  rcases find_spec hwf key with ⟨i, v', he', h⟩ | ⟨hnone, _⟩
  · rw [h, hdistinct i it _ _ he' he rfl]
  · exact absurd ⟨it, v, he⟩ hnone

theorem insert_spec (hwf : m.storage.WF) (hroom : m.full = false) (habsent : ¬ m.Contains key)
    (v : ν) : ∃ m' it, m.insert key v = .ok (true, m') ∧ m'.storage.WF ∧ m.entry it = none ∧
      ∀ j, m'.entry j = if j = it then some ⟨key, v⟩ else m.entry j := by
  obtain ⟨it, storage, hput, hwf', hfree, hl⟩ := emplaceAnywhere_spec hwf hroom ⟨key, v⟩
  refine ⟨⟨storage⟩, it, ?_, hwf', hfree, hl⟩
  rw [insert, find_of_absent hwf habsent, ok_bind]
  rw [hput]
  rfl

theorem insert_full (hwf : m.storage.WF) (hfull : m.full = true) (habsent : ¬ m.Contains key)
    (v : ν) : m.insert key v = .error (.assertion "_data_begin + idx < _data_end") := by
  rw [insert, find_of_absent hwf habsent, ok_bind]
  rw [emplaceAnywhere_full hwf hfull, error_bind]

end Search

/-! ## Assigning and erasing -/

theorem value_of_entry (he : m.entry it = some ⟨key, v⟩) : m.value it = .ok v := by
  have hget : m.storage.get it = .ok ⟨key, v⟩ := get_spec he
  rw [value, hget]
  rfl

theorem setValue_spec (hwf : m.storage.WF) (he : m.entry it = some ⟨key, v⟩) (w : ν) :
    ∃ m', m.setValue it w = .ok m' ∧ m'.storage.WF ∧
      ∀ j, m'.entry j = if j = it then some ⟨key, w⟩ else m.entry j := by
  have hget : m.storage.get it = .ok ⟨key, v⟩ := get_spec he
  obtain ⟨storage, hset, hwf', hl⟩ := set_spec hwf he ⟨key, w⟩
  refine ⟨⟨storage⟩, ?_, hwf', hl⟩
  rw [setValue, hget, ok_bind]
  rw [hset]
  rfl

theorem erase_spec (hwf : m.storage.WF) (he : m.entry it = some ⟨key, v⟩) :
    ∃ m', m.erase it = .ok m' ∧ m'.storage.WF ∧
      ∀ j, m'.entry j = if j = it then none else m.entry j := by
  obtain ⟨storage, herase, hwf', hl⟩ := Pool.erase_spec hwf he
  refine ⟨⟨storage⟩, ?_, hwf', hl⟩
  rw [erase, herase]
  rfl

variable {w : ν}

theorem setValue_ok (hwf : m.storage.WF) (h : m.setValue it w = .ok m') :
    ∃ key v, m.entry it = some ⟨key, v⟩ ∧ m'.storage.WF ∧
      ∀ j, m'.entry j = if j = it then some ⟨key, w⟩ else m.entry j := by
  rw [setValue, bind_ok] at h
  obtain ⟨e, hget, _⟩ := id h
  have he : m.entry it = some ⟨e.key, e.value⟩ := get_ok hget
  obtain ⟨m1, hcall, hwf1, hl⟩ := setValue_spec hwf he w
  rw [← bind_ok, ← setValue, hcall] at h
  cases h
  exact ⟨e.key, e.value, he, hwf1, hl⟩

theorem erase_ok (hwf : m.storage.WF) (h : m.erase it = .ok m') :
    (∃ e, m.entry it = some e) ∧ m'.storage.WF ∧
      ∀ j, m'.entry j = if j = it then none else m.entry j := by
  rw [erase, bind_ok] at h
  obtain ⟨storage, herase, h⟩ := h
  cases h
  exact erase_ok hwf herase

theorem size_setValue (h : m.setValue it w = .ok m') : m'.size = m.size := by
  rw [setValue, bind_ok] at h
  obtain ⟨e, _, h⟩ := h
  obtain ⟨storage, hset, h⟩ := bind_ok.mp h
  cases h
  exact size_of_set hset

theorem watermark_setValue (h : m.setValue it w = .ok m') :
    m'.storage.watermark = m.storage.watermark := by
  rw [setValue, bind_ok] at h
  obtain ⟨e, _, h⟩ := h
  obtain ⟨storage, hset, h⟩ := bind_ok.mp h
  cases h
  exact watermark_of_set hset

theorem watermark_erase (h : m.erase it = .ok m') :
    m'.storage.watermark ≤ m.storage.watermark ∧
      (it + 1 < m.storage.watermark → m'.storage.watermark = m.storage.watermark) := by
  rw [erase, bind_ok] at h
  obtain ⟨storage, herase, h⟩ := h
  cases h
  exact watermark_of_erase herase

/-! ## Distinct keys -/

/-- The storage is well formed, and no two slots have the same key. -/
structure Sound (m : UnorderedMap κ ν capacity) : Prop where
  wf : m.storage.WF
  distinct : m.Distinct

theorem Sound.blank (hcap : capacity ≤ 0xFFFF) :
    (UnorderedMap.blank : UnorderedMap κ ν capacity).Sound := by
  refine ⟨blank_wf hcap, ?_⟩
  intro i j e e' hi
  cases hi

theorem Sound.fill (h : m.Sound) (hwf : m'.storage.WF) (habsent : ¬ m.Contains key)
    (hl : ∀ j, m'.entry j = if j = it then some ⟨key, v⟩ else m.entry j) : m'.Sound := by
  refine ⟨hwf, ?_⟩
  intro i j e e' hi hj hkey
  rw [hl] at hi hj
  split at hi <;> split at hj
  · next h1 h2 => rw [h1, h2]
  · cases hi
    have hsame : key = e'.key := hkey
    rw [hsame] at habsent
    exact absurd (contains_of_entry hj) habsent
  · cases hj
    have hsame : e.key = key := hkey
    rw [← hsame] at habsent
    exact absurd (contains_of_entry hi) habsent
  · exact h.distinct i j e e' hi hj hkey

theorem Sound.assign (h : m.Sound) (hwf : m'.storage.WF) (he : m.entry it = some ⟨key, v⟩)
    (hl : ∀ j, m'.entry j = if j = it then some ⟨key, w⟩ else m.entry j) : m'.Sound := by
  refine ⟨hwf, ?_⟩
  intro i j e e' hi hj hkey
  rw [hl] at hi hj
  split at hi <;> split at hj
  · next h1 h2 => rw [h1, h2]
  next h1 _ =>
    cases hi
    rw [h1]
    exact h.distinct it j _ e' he hj hkey
  next _ h2 =>
    cases hj
    rw [h2]
    exact h.distinct i it e _ hi he hkey
  · exact h.distinct i j e e' hi hj hkey

theorem Sound.free (h : m.Sound) (hwf : m'.storage.WF)
    (hl : ∀ j, m'.entry j = if j = it then none else m.entry j) : m'.Sound := by
  refine ⟨hwf, ?_⟩
  intro i j e e' hi hj hkey
  rw [hl] at hi hj
  split at hi
  · cases hi
  · split at hj
    · cases hj
    · exact h.distinct i j e e' hi hj hkey

theorem size_erase (h : m.Sound) (he : m.entry it = some ⟨key, v⟩) (hcall : m.erase it = .ok m') :
    m'.size + 1 = m.size := by
  have hpos : m.size ≠ 0 := by
    intro hzero
    have hnone : m.entry it = none := h.wf.size_eq_zero.mp hzero it
    rw [hnone] at he
    cases he
  rw [erase, bind_ok] at hcall
  obtain ⟨storage, herase, hcall⟩ := hcall
  cases hcall
  have hsize := erase_size herase
  have hsum : storage.size + 1 = m.storage.size := by
    unfold size at hpos
    omega
  exact hsum

/-! ## The map as a function of the key -/

section Lookup

variable [DecidableEq κ]

def lookup (m : UnorderedMap κ ν capacity) (key : κ) : Option ν :=
  (m.storage.values.find? fun e => e.key = key).map Entry.value

theorem Sound.lookup_eq_some (h : m.Sound) :
    m.lookup key = some v ↔ ∃ it, m.entry it = some ⟨key, v⟩ := by
  unfold lookup
  rw [Option.map_eq_some_iff]
  constructor
  · intro ⟨e, hfind, hv⟩
    have hkey : e.key = key := by simpa using find?_some hfind
    obtain ⟨it, hit⟩ := h.wf.mem_values.mp (mem_of_find?_eq_some hfind)
    refine ⟨it, ?_⟩
    rw [← hkey, ← hv]
    exact hit
  · intro ⟨it, hit⟩
    have hmem : (⟨key, v⟩ : Entry κ ν) ∈ m.storage.values := h.wf.mem_values.mpr ⟨it, hit⟩
    cases hfind : m.storage.values.find? fun e => e.key = key with
    | none =>
      have hnone := find?_eq_none.mp hfind _ hmem
      simp at hnone
    | some e =>
      -- it is the slot of the key that was found
      have hkey : e.key = key := by simpa using find?_some hfind
      obtain ⟨it', hit'⟩ := h.wf.mem_values.mp (mem_of_find?_eq_some hfind)
      have hslot : it' = it := h.distinct it' it e ⟨key, v⟩ hit' hit hkey
      have hentry : m.entry it' = some e := hit'
      rw [hslot, hit] at hentry
      cases hentry
      exact ⟨_, rfl, rfl⟩

theorem Sound.lookup_eq_none (h : m.Sound) : m.lookup key = none ↔ ¬ m.Contains key := by
  rw [Option.eq_none_iff_forall_ne_some]
  constructor
  · intro hnone ⟨it, v, hit⟩
    exact hnone v (h.lookup_eq_some.mpr ⟨it, hit⟩)
  · intro hnone v hv
    obtain ⟨it, hit⟩ := h.lookup_eq_some.mp hv
    exact hnone ⟨it, v, hit⟩

theorem lookup_blank (hcap : capacity ≤ 0xFFFF) (key : κ) :
    (UnorderedMap.blank : UnorderedMap κ ν capacity).lookup key = none := by
  rw [(Sound.blank hcap).lookup_eq_none]
  intro ⟨it, v, hit⟩
  cases hit

theorem Sound.lookup_write (h : m.Sound) (h' : m'.Sound)
    (hslot : ∀ e, m.entry it = some e → e.key = key)
    (hl : ∀ j, m'.entry j = if j = it then some ⟨key, v⟩ else m.entry j) (k : κ) :
    m'.lookup k = if k = key then some v else m.lookup k := by
  have hself : m'.lookup key = some v := h'.lookup_eq_some.mpr ⟨it, by rw [hl, if_pos rfl]⟩
  split
  · next hk => rw [hk, hself]
  next hk =>
    -- another key has the slots it had
    apply Option.ext
    intro w
    rw [h'.lookup_eq_some, h.lookup_eq_some]
    constructor
    · intro ⟨j, hj⟩
      rw [hl] at hj
      split at hj
      · cases hj
        exact absurd rfl hk
      · exact ⟨j, hj⟩
    · intro ⟨j, hj⟩
      have hne : j ≠ it := by
        intro heq
        rw [heq] at hj
        exact hk (hslot _ hj)
      exact ⟨j, by rw [hl, if_neg hne, hj]⟩

theorem Sound.lookup_free (h : m.Sound) (h' : m'.Sound) (he : m.entry it = some ⟨key, v⟩)
    (hl : ∀ j, m'.entry j = if j = it then none else m.entry j) (k : κ) :
    m'.lookup k = if k = key then none else m.lookup k := by
  split
  next hk =>
    rw [h'.lookup_eq_none]
    intro ⟨j, w, hj⟩
    rw [hl] at hj
    split at hj
    · cases hj
    · next hne => exact hne (h.distinct j it _ _ hj he hk)
  next hk =>
    apply Option.ext
    intro w
    rw [h'.lookup_eq_some, h.lookup_eq_some]
    constructor
    · intro ⟨j, hj⟩
      rw [hl] at hj
      split at hj
      · cases hj
      · exact ⟨j, hj⟩
    · intro ⟨j, hj⟩
      have hne : j ≠ it := by
        intro heq
        rw [heq, he] at hj
        cases hj
        exact hk rfl
      exact ⟨j, by rw [hl, if_neg hne, hj]⟩

theorem Sound.find_cases (h : m.Sound) (key : κ) :
    (∃ it v, m.find key = .ok (some it) ∧ m.entry it = some ⟨key, v⟩ ∧ m.lookup key = some v) ∨
    (m.find key = .ok none ∧ m.lookup key = none) := by
  rcases find_spec h.wf key with ⟨it, v, he, hfind⟩ | ⟨habsent, hfind⟩
  · exact .inl ⟨it, v, hfind, he, h.lookup_eq_some.mpr ⟨it, he⟩⟩
  · exact .inr ⟨hfind, h.lookup_eq_none.mpr habsent⟩

theorem Sound.setValue_spec (h : m.Sound) (he : m.entry it = some ⟨key, v⟩) (w : ν) :
    ∃ m', m.setValue it w = .ok m' ∧ m'.Sound ∧
      (∀ j, m'.entry j = if j = it then some ⟨key, w⟩ else m.entry j) ∧
      ∀ k, m'.lookup k = if k = key then some w else m.lookup k := by
  obtain ⟨m', hset, hwf, hl⟩ := UnorderedMap.setValue_spec h.wf he w
  have hslot : ∀ e, m.entry it = some e → e.key = key := by
    intro e hentry
    rw [he] at hentry
    cases hentry
    rfl
  have h' := h.assign hwf he hl
  exact ⟨m', hset, h', hl, h.lookup_write h' hslot hl⟩

theorem Sound.erase_spec (h : m.Sound) (he : m.entry it = some ⟨key, v⟩) :
    ∃ m', m.erase it = .ok m' ∧ m'.Sound ∧
      ∀ k, m'.lookup k = if k = key then none else m.lookup k := by
  obtain ⟨m', herase, hwf, hl⟩ := UnorderedMap.erase_spec h.wf he
  have h' := h.free hwf hl
  exact ⟨m', herase, h', h.lookup_free h' he hl⟩

theorem Sound.insert_spec (h : m.Sound) (hroom : m.full = false) (habsent : m.lookup key = none)
    (v : ν) : ∃ m', m.insert key v = .ok (true, m') ∧ m'.Sound ∧
      ∀ k, m'.lookup k = if k = key then some v else m.lookup k := by
  have hnot := h.lookup_eq_none.mp habsent
  obtain ⟨m', it, hput, hwf, hfree, hl⟩ := UnorderedMap.insert_spec h.wf hroom hnot v
  have hslot : ∀ e, m.entry it = some e → e.key = key := by
    intro e hentry
    rw [hfree] at hentry
    cases hentry
  have h' := h.fill hwf hnot hl
  exact ⟨m', hput, h', h.lookup_write h' hslot hl⟩

end Lookup

end UnorderedMap

end Peos2.Support
