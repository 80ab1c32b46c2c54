/-
  Support.Pool — the slot allocator `p2::fixed_pool` (`libraries/support/pool.h`).

  A pool is an array of nodes with a watermark; slots below it that are not in use form a
  doubly linked free list threaded through the nodes, ended by the highest index value
  `END_SENTINEL`. The model keeps every assertion of the source. Raw storage in which
  nothing was constructed is `none`.

  `lookup` is the abstract value, a finite map from indices to objects.

  Main results: `emplaceAnywhere_spec`, `erase_spec`.
-/
import Mathlib.Data.List.Nodup
import Mathlib.Data.List.Perm.Subperm
import Peos2.Lib.Checked
import Peos2.Lib.Thread

namespace Peos2.Support

open Peos2.Lib List Option

/-- `pool::node`. -/
structure Node (α : Type) where
  nextFree : Nat
  prevFree : Nat
  value : Option α
  deriving DecidableEq

/-- `p2::fixed_pool<T, Capacity, Index>`; `endSentinel` is the highest value
of the index type. -/
structure Pool (α : Type) (capacity endSentinel : Nat) where
  nodes : Nat → Node α
  watermark : Nat
  freeListHead : Nat
  freeListTail : Nat
  count : Nat

namespace Pool

variable {α : Type} {capacity endSentinel : Nat}

/-! ## The class -/

/-- `_data_begin[i] = n`. -/
def setNode (p : Pool α capacity endSentinel) (i : Nat) (n : Node α) :
    Pool α capacity endSentinel :=
  { p with nodes := storeAt p.nodes i n }

/-- `fixed_pool()`: storage in which nothing was constructed yet. -/
def blank : Pool α capacity endSentinel :=
  ⟨fun _ => ⟨endSentinel, endSentinel, none⟩, 0, endSentinel, endSentinel, 0⟩

/-- `void clear()` -/
def clear (p : Pool α capacity endSentinel) : Pool α capacity endSentinel :=
  { p with watermark := 0, freeListHead := endSentinel, freeListTail := endSentinel, count := 0 }

/-- `bool valid(_IndexT idx) const` -/
def valid (p : Pool α capacity endSentinel) (idx : Nat) : Bool :=
  if idx ≥ p.watermark then false
  else if (p.nodes idx).nextFree ≠ endSentinel then false
  else if idx = p.freeListHead then false
  else if idx = p.freeListTail then false
  else true

/-- `size_t size() const` -/
def size (p : Pool α capacity endSentinel) : Nat := p.count

/-- `bool full() const` -/
def full (p : Pool α capacity endSentinel) : Bool := p.count ≥ capacity

/-- `if (i != END_SENTINEL) _data_begin[i].next_free = x;` -/
def setNextFree (p : Pool α capacity endSentinel) (i x : Nat) : Pool α capacity endSentinel :=
  if i ≠ endSentinel then p.setNode i { p.nodes i with nextFree := x } else p

/-- `if (i != END_SENTINEL) _data_begin[i].prev_free = x;` -/
def setPrevFree (p : Pool α capacity endSentinel) (i x : Nat) : Pool α capacity endSentinel :=
  if i ≠ endSentinel then p.setNode i { p.nodes i with prevFree := x } else p

/-- `void prepend_to_free_list(_IndexT idx)` -/
def prependToFreeList (p : Pool α capacity endSentinel) (idx : Nat) :
    Pool α capacity endSentinel :=
  let p := p.setPrevFree p.freeListHead idx
  { p with
    nodes := storeAt p.nodes idx { p.nodes idx with nextFree := p.freeListHead }
    freeListHead := idx
    freeListTail := if p.freeListTail = endSentinel then idx else p.freeListTail }

/-- The loop of `increase_size`: every slot passed is freed at once. -/
def grow : Nat → Pool α capacity endSentinel → Pool α capacity endSentinel
  | 0, p => p
  | n + 1, p =>
    let p := p.setNode p.watermark ⟨endSentinel, endSentinel, none⟩
    let p := p.prependToFreeList p.watermark
    grow n { p with watermark := p.watermark + 1 }

/-- `void increase_size(_IndexT idx)` -/
def increaseSize (p : Pool α capacity endSentinel) (idx : Nat) :
    Checked (Pool α capacity endSentinel) := do
  check (idx < capacity) "_data_begin + idx < _data_end"
  .ok (grow (idx - p.watermark) p)

/-- The part of `emplace` that takes slot `idx` off the free list. -/
def unlink (p : Pool α capacity endSentinel) (idx : Nat) : Pool α capacity endSentinel :=
  let nextFree := (p.nodes idx).nextFree
  let prevFree := (p.nodes idx).prevFree
  let p := (p.setNextFree prevFree nextFree).setPrevFree nextFree prevFree
  { p with
    freeListHead := if p.freeListHead = idx then nextFree else p.freeListHead
    freeListTail := if p.freeListTail = idx then prevFree else p.freeListTail }

/-- `void emplace(_IndexT idx, _Args&&... args)` -/
def emplace (p : Pool α capacity endSentinel) (idx : Nat) (v : α) :
    Checked (Pool α capacity endSentinel) := do
  let p ← p.increaseSize idx
  check (idx < capacity) "_data_begin + idx < _data_end"
  if p.valid idx then .ok (p.setNode idx { p.nodes idx with value := some v })
  else
    let p := if idx = p.watermark then { p with watermark := p.watermark + 1 } else p.unlink idx
    let p := p.setNode idx ⟨endSentinel, endSentinel, some v⟩
    .ok { p with count := p.count + 1 }

/-- `_IndexT emplace_anywhere(_Args&&... args)` -/
def emplaceAnywhere (p : Pool α capacity endSentinel) (v : α) :
    Checked (Nat × Pool α capacity endSentinel) := do
  let idx := if p.freeListHead ≠ endSentinel then p.freeListHead else p.watermark
  let p ← p.emplace idx v
  .ok (idx, p)

/-- `void erase(_IndexT idx)` -/
def erase (p : Pool α capacity endSentinel) (idx : Nat) :
    Checked (Pool α capacity endSentinel) := do
  check (p.valid idx) "valid(idx)"
  if idx = p.watermark - 1 then
    .ok { p with watermark := p.watermark - 1, count := p.count - 1 }
  else
    let p := p.prependToFreeList idx
    .ok { p with count := p.count - 1 }

/-- `T &operator [](_IndexT idx)`, read. -/
def get (p : Pool α capacity endSentinel) (idx : Nat) : Checked α := do
  check (p.valid idx) "valid(idx)"
  match (p.nodes idx).value with
  | some v => .ok v
  | none => .error .uninitialised

/-- `T &operator [](_IndexT idx)`, assigned through. -/
def set (p : Pool α capacity endSentinel) (idx : Nat) (v : α) :
    Checked (Pool α capacity endSentinel) := do
  check (p.valid idx) "valid(idx)"
  .ok (p.setNode idx { p.nodes idx with value := some v })

/-- `void jump_to_valid()` of the iterators, from `idx` on. -/
def jumpToValid (p : Pool α capacity endSentinel) : Nat → Nat → Nat
  | 0, idx => idx
  | fuel + 1, idx =>
    if idx ≠ p.watermark ∧ p.valid idx = false then p.jumpToValid fuel (idx + 1) else idx

/-- The indices an iterator visits from `idx` until `end()`. -/
def indicesFrom (p : Pool α capacity endSentinel) : Nat → Nat → List Nat
  | 0, _ => []
  | fuel + 1, idx =>
    if idx = p.watermark then []
    else idx :: p.indicesFrom fuel (p.jumpToValid (p.watermark - (idx + 1)) (idx + 1))

/-- The indices visited by `for (auto it = begin(); it != end(); ++it)`. -/
def indices (p : Pool α capacity endSentinel) : List Nat :=
  p.indicesFrom (p.watermark + 1) (p.jumpToValid p.watermark 0)

/-- `jump_to_valid()` for an index that may be past the watermark: it runs up to
the highest value of the index type and starts again at 0. -/
def jumpRound (p : Pool α capacity endSentinel) : Nat → Nat → Nat
  | 0, idx => idx
  | fuel + 1, idx =>
    if idx ≠ p.watermark ∧ p.valid idx = false then
      p.jumpRound fuel ((idx + 1) % (endSentinel + 1))
    else idx

/-- `++it` for an iterator at `idx`. -/
def next (p : Pool α capacity endSentinel) (idx : Nat) : Nat :=
  p.jumpRound (endSentinel + 1) ((idx + 1) % (endSentinel + 1))

/-! ## Well-formedness and the abstract value -/

/-- The free list of the pool is `l`. -/
structure FreeList (p : Pool α capacity endSentinel) (l : List Nat) : Prop where
  thread : Thread (fun i => (p.nodes i).nextFree) (fun i => (p.nodes i).prevFree)
    endSentinel l endSentinel
  head : p.freeListHead = l.headD endSentinel
  tail : p.freeListTail = l.getLastD endSentinel
  nodup : l.Nodup
  below : ∀ i ∈ l, i < p.watermark
  live : ∀ i < p.watermark, i ∉ l →
    (p.nodes i).nextFree = endSentinel ∧ (p.nodes i).prevFree = endSentinel
      ∧ (p.nodes i).value.isSome
  count : p.count + l.length = p.watermark

/-- The class invariant, with the static assertion of `fixed_pool`. -/
structure WF (p : Pool α capacity endSentinel) : Prop where
  admitted : capacity ≤ endSentinel
  room : p.watermark ≤ capacity
  freeList : ∃ l, p.FreeList l

def lookup (p : Pool α capacity endSentinel) (idx : Nat) : Option α :=
  if p.valid idx then (p.nodes idx).value else none

variable {p p' : Pool α capacity endSentinel} {l : List Nat} {i idx : Nat} {v w : α}

theorem getLastD_mem {d : Nat} (h : l ≠ []) : l.getLastD d ∈ l := by
  cases l with
  | nil => exact absurd rfl h
  | cons i l =>
    rw [getLastD_cons, getLastD_eq_getLast?]
    rcases hl : l.getLast? with _ | j
    · simp
    · exact mem_cons_of_mem _ (mem_of_getLast? hl)

theorem FreeList.valid_iff (h : p.FreeList l)
    (hroom : p.watermark ≤ endSentinel) (i : Nat) : p.valid i = true ↔ i < p.watermark ∧ i ∉ l := by
  unfold valid
  by_cases hw : i ≥ p.watermark
  · simp
    omega
  rw [if_neg hw]
  have hi : i < p.watermark := by omega
  have hend : i ≠ endSentinel := by omega
  constructor
  · intro hv
    refine ⟨hi, ?_⟩
    intro hmem
    obtain ⟨l₁, l₂, hl⟩ := append_of_mem hmem
    have hthread := h.thread
    rw [hl] at hthread
    have hnext := next_mem_of_thread hthread
    cases l₂ with
    | nil =>
      have htail : i = p.freeListTail := by
        rw [h.tail, hl, getLastD_eq_getLast?, getLast?_append]
        rfl
      rw [if_pos htail] at hv
      simp at hv
    | cons j l₂ =>
      have hj : j < p.watermark := h.below j (by simp [hl])
      have hne : (p.nodes i).nextFree ≠ endSentinel := by
        simp only [headD_cons] at hnext
        omega
      rw [if_pos hne] at hv
      simp at hv
  · rintro ⟨_, hmem⟩
    have hlive := h.live i hi hmem
    have hhead : i ≠ p.freeListHead := by
      rw [h.head]
      cases hl : l with
      | nil => exact hend
      | cons j l =>
        intro hij
        exact hmem (by simp [hl, hij])
    have htail : i ≠ p.freeListTail := by
      rw [h.tail]
      intro hij
      by_cases hl : l = []
      · rw [hl] at hij
        exact hend hij
      · exact hmem (hij ▸ getLastD_mem hl)
    rw [if_neg (by simpa using hlive.1), if_neg hhead, if_neg htail]

theorem WF.watermark_le (h : p.WF) : p.watermark ≤ endSentinel := Nat.le_trans h.room h.admitted

theorem FreeList.lookup_eq (h : p.FreeList l) (hroom : p.watermark ≤ endSentinel) (i : Nat) :
    p.lookup i = if i < p.watermark ∧ i ∉ l then (p.nodes i).value else none := by
  unfold lookup
  by_cases hv : p.valid i = true
  · rw [if_pos hv, if_pos ((h.valid_iff hroom i).mp hv)]
  · rw [if_neg hv, if_neg (fun hc => hv ((h.valid_iff hroom i).mpr hc))]

theorem WF.valid_iff_lookup (h : p.WF) (i : Nat) : p.valid i = true ↔ ∃ v, p.lookup i = some v := by
  obtain ⟨l, hl⟩ := h.freeList
  unfold lookup
  constructor
  · intro hv
    obtain ⟨h1, h2⟩ := (hl.valid_iff h.watermark_le i).mp hv
    rw [if_pos hv]
    exact isSome_iff_exists.mp (hl.live i h1 h2).2.2
  · rintro ⟨v, hv⟩
    by_contra hn
    rw [if_neg hn] at hv
    simp at hv

theorem lookup_lt_watermark (h : p.lookup i = some v) : i < p.watermark := by
  by_contra hn
  have hv : p.valid i = false := by
    unfold valid
    rw [if_pos (by omega)]
  rw [lookup, if_neg (by simp [hv])] at h
  simp at h

/-! ## Clearing, reading and assigning -/

theorem clear_freeList (p : Pool α capacity endSentinel) : p.clear.FreeList [] where
  thread := trivial
  head := rfl
  tail := rfl
  nodup := nodup_nil
  below := by simp
  live := by simp [clear]
  count := rfl

theorem clear_wf (p : Pool α capacity endSentinel) (h : capacity ≤ endSentinel) :
    p.clear.WF := ⟨h, Nat.zero_le _, [], clear_freeList p⟩

theorem blank_wf (h : capacity ≤ endSentinel) : (blank : Pool α capacity endSentinel).WF :=
  clear_wf blank h

@[simp] theorem lookup_clear (p : Pool α capacity endSentinel) (i : Nat) :
    p.clear.lookup i = none := by
  simp [lookup, valid, clear]

@[simp] theorem lookup_blank (i : Nat) :
    (blank : Pool α capacity endSentinel).lookup i = none := lookup_clear blank i

theorem get_spec (h : p.lookup i = some v) : p.get i = .ok v := by
  unfold lookup at h
  split at h
  next hv => simp only [get, hv, check_true, ok_bind, h]
  next => simp at h

theorem get_ok (h : p.get i = .ok v) : p.lookup i = some v := by
  rw [get, bind_ok] at h
  obtain ⟨u, hc, h⟩ := h
  rw [check_ok] at hc
  rw [lookup, if_pos hc]
  split at h
  next w hw =>
    cases h
    exact hw
  next => simp at h

theorem get_value (h : p.get i = .ok v) : (p.nodes i).value = some v := by
  have hl := get_ok h
  unfold lookup at hl
  split at hl
  · exact hl
  · simp at hl

theorem get_of_set (hset : p.set i v = .ok p') (hget : p'.get i = .ok w) : w = v := by
  rw [set, bind_ok] at hset
  obtain ⟨_, _, hset⟩ := hset
  cases hset
  have hw := get_value hget
  simp only [setNode, storeAt_self] at hw
  exact (some.inj hw).symm

theorem value_of_emplace {idx : Nat} (hput : p.emplace idx v = .ok p') :
    (p'.nodes idx).value = some v := by
  rw [emplace, bind_ok] at hput
  obtain ⟨p1, _, hput⟩ := hput
  obtain ⟨_, _, hput⟩ := bind_ok.mp hput
  split at hput
  all_goals
    cases hput
    simp only [setNode, storeAt_self]

theorem get_of_emplace {idx : Nat}
    (hput : p.emplace idx v = .ok p') (hget : p'.get idx = .ok w) : w = v := by
  have hw := get_value hget
  rw [value_of_emplace hput] at hw
  exact (some.inj hw).symm

theorem get_of_emplaceAnywhere
    (hput : p.emplaceAnywhere v = .ok (i, p')) (hget : p'.get i = .ok w) : w = v := by
  rw [emplaceAnywhere, bind_ok] at hput
  obtain ⟨p1, hput, h1⟩ := hput
  cases h1
  exact get_of_emplace hput hget

theorem size_of_set (h : p.set i v = .ok p') : p'.size = p.size := by
  rw [set, bind_ok] at h
  obtain ⟨_, _, h⟩ := h
  cases h
  rfl

theorem set_spec (h : p.WF) (hi : p.lookup i = some v) (w : α) :
    ∃ p', p.set i w = .ok p' ∧ p'.WF ∧
      ∀ j, p'.lookup j = if j = i then some w else p.lookup j := by
  have hv : p.valid i = true := (h.valid_iff_lookup i).mpr ⟨v, hi⟩
  let p' := p.setNode i { p.nodes i with value := some w }
  have hnode : ∀ j, (p'.nodes j).nextFree = (p.nodes j).nextFree
      ∧ (p'.nodes j).prevFree = (p.nodes j).prevFree := by
    intro j
    show (storeAt p.nodes i _ j).nextFree = _ ∧ (storeAt p.nodes i _ j).prevFree = _
    by_cases hj : j = i
    · subst hj
      rw [storeAt_self]
      exact ⟨rfl, rfl⟩
    · rw [storeAt_ne _ _ hj]
      exact ⟨rfl, rfl⟩
  have hvalid : ∀ j, p'.valid j = p.valid j := by
    intro j
    unfold valid
    rw [(hnode j).1]
    rfl
  have hother : ∀ j, j ≠ i → p'.nodes j = p.nodes j := fun j hj => storeAt_ne _ _ hj
  have hself : (p'.nodes i).value = some w := by
    show (storeAt p.nodes i _ i).value = _
    rw [storeAt_self]
  refine ⟨p', ?_, ?_, ?_⟩
  · simp only [set, hv, check_true, ok_bind]
    rfl
  · obtain ⟨l, hl⟩ := h.freeList
    refine ⟨h.admitted, h.room, l, ?_, hl.head, hl.tail, hl.nodup, hl.below, ?_, hl.count⟩
    · exact thread_congr (fun j _ => (hnode j).1) (fun j _ => (hnode j).2) hl.thread
    · intro j hj hjl
      obtain ⟨h1, h2, h3⟩ := hl.live j hj hjl
      refine ⟨(hnode j).1.trans h1, (hnode j).2.trans h2, ?_⟩
      by_cases hji : j = i
      · rw [hji, hself]
        rfl
      · rw [hother j hji]
        exact h3
  · intro j
    unfold lookup
    rw [hvalid]
    by_cases hj : j = i
    · subst hj
      rw [if_pos hv, if_pos rfl, hself]
    · rw [if_neg hj, hother j hj]

/-! ## `erase` -/

theorem setNode_eq (p : Pool α capacity endSentinel) (i : Nat) (f : Node α → Node α) :
    (if i ≠ endSentinel then p.setNode i (f (p.nodes i)) else p) =
      { p with
        nodes := fun j => if i ≠ endSentinel ∧ j = i then f (p.nodes j) else p.nodes j } := by
  by_cases hi : i ≠ endSentinel
  · rw [if_pos hi, setNode]
    congr 1
    funext j
    by_cases hj : j = i
    · subst hj
      rw [storeAt_self, if_pos ⟨hi, rfl⟩]
    · rw [storeAt_ne _ _ hj, if_neg (fun hc => hj hc.2)]
  · have hn : ∀ j, ¬ (i ≠ endSentinel ∧ j = i) := fun j hc => hi hc.1
    simp only [if_neg hi, hn, if_false]

theorem setNextFree_eq (p : Pool α capacity endSentinel) (i x : Nat) :
    p.setNextFree i x = { p with nodes := fun j =>
      { p.nodes j with nextFree := if i ≠ endSentinel ∧ j = i then x
                                   else (p.nodes j).nextFree } } := by
  rw [setNextFree, setNode_eq p i fun n => { n with nextFree := x }]
  congr 1
  funext j
  split <;> rfl

theorem setPrevFree_eq (p : Pool α capacity endSentinel) (i x : Nat) :
    p.setPrevFree i x = { p with nodes := fun j =>
      { p.nodes j with prevFree := if i ≠ endSentinel ∧ j = i then x
                                   else (p.nodes j).prevFree } } := by
  rw [setPrevFree, setNode_eq p i fun n => { n with prevFree := x }]
  congr 1
  funext j
  split <;> rfl

theorem prepend_eq (p : Pool α capacity endSentinel) (idx : Nat) :
    p.prependToFreeList idx = { p with
      nodes := fun j =>
        { nextFree := if j = idx then p.freeListHead else (p.nodes j).nextFree
          prevFree := if p.freeListHead ≠ endSentinel ∧ j = p.freeListHead then idx
            else (p.nodes j).prevFree
          value := (p.nodes j).value }
      freeListHead := idx
      freeListTail := if p.freeListTail = endSentinel then idx else p.freeListTail } := by
  unfold prependToFreeList
  rw [setPrevFree_eq]
  simp only
  congr 1
  funext j
  by_cases hj : j = idx
  · subst hj
    rw [storeAt_self, if_pos rfl]
  · rw [storeAt_ne _ _ hj, if_neg hj]

theorem length_le_of_nodup {n : Nat} (hnd : l.Nodup) (hlt : ∀ i ∈ l, i < n) : l.length ≤ n := by
  have hsub : l ⊆ range n := fun i hi => mem_range.mpr (hlt i hi)
  have hle := (subperm_of_subset hnd hsub).length_le
  simpa using hle

theorem FreeList.ne_head (h : p.FreeList l)
    (hmem : idx ∉ l) : ¬ (p.freeListHead ≠ endSentinel ∧ idx = p.freeListHead) := by
  rintro ⟨hh, hc⟩
  cases hl : l with
  | nil => exact hh (by rw [h.head, hl]; rfl)
  | cons j l =>
    rw [h.head] at hc
    exact hmem (by simp [hl, hc])

theorem FreeList.prepend (h : p.FreeList l)
    (hroom : p.watermark ≤ endSentinel) (hidx : idx < p.watermark) (hmem : idx ∉ l) :
    ({ p.prependToFreeList idx with count := p.count - 1 } : Pool α capacity endSentinel).FreeList
      (idx :: l) := by
  have hlive := h.live idx hidx hmem
  have hnd : (idx :: l).Nodup := nodup_cons.mpr ⟨hmem, h.nodup⟩
  have hbelow : ∀ i ∈ idx :: l, i < p.watermark := by
    intro i hi
    rcases mem_cons.mp hi with hi | hi
    · rw [hi]
      exact hidx
    · exact h.below i hi
  rw [prepend_eq]
  refine ⟨?_, rfl, ?_, hnd, hbelow, ?_, ?_⟩
  · have hnext : (fun i => if i = idx then p.freeListHead else (p.nodes i).nextFree)
        = storeAt (fun i => (p.nodes i).nextFree) idx (l.headD endSentinel) := by
      rw [h.head]
      rfl
    show Thread (fun i => if i = idx then p.freeListHead else (p.nodes i).nextFree) _ _ _ _
    rw [hnext]
    refine thread_push hmem h.nodup hlive.2.1 h.thread ?_ ?_
    · intro j l' hl
      have hj : p.freeListHead = j := by rw [h.head, hl]; rfl
      have hjend : j ≠ endSentinel := by
        have := h.below j (by simp [hl])
        omega
      funext k
      simp [storeAt, hj, hjend]
    · intro hl
      have hj : p.freeListHead = endSentinel := by rw [h.head, hl]; rfl
      funext k
      simp [hj]
  · show (if p.freeListTail = endSentinel then idx else p.freeListTail) = _
    rw [h.tail, getLastD_cons]
    cases hl : l with
    | nil => simp
    | cons j l' =>
      have hlt := h.below _ (getLastD_mem (d := endSentinel) (show l ≠ [] by simp [hl]))
      rw [hl] at hlt
      rw [if_neg (by omega), getLastD_cons, getLastD_cons]
  · intro i hi hil
    have hne : i ≠ idx := fun hc => hil (by simp [hc])
    have hnl : i ∉ l := fun hc => hil (by simp [hc])
    simp only [if_neg hne, if_neg (h.ne_head hnl)]
    exact h.live i hi hnl
  · have hlen := length_le_of_nodup hnd hbelow
    have hc := h.count
    simp only [length_cons] at hlen ⊢
    omega

theorem erase_size (h : p.erase idx = .ok p') : p'.size = p.size - 1 := by
  rw [erase, bind_ok] at h
  obtain ⟨_, _, h⟩ := h
  split at h
  · cases h
    rfl
  · rw [prepend_eq] at h
    cases h
    rfl

/-- `erase` of a slot in use frees it and touches no other. -/
theorem erase_spec (h : p.WF) (hidx : p.lookup idx = some v) :
    ∃ p', p.erase idx = .ok p' ∧ p'.WF ∧
      ∀ j, p'.lookup j = if j = idx then none else p.lookup j := by
  have hv : p.valid idx = true := (h.valid_iff_lookup idx).mpr ⟨v, hidx⟩
  obtain ⟨l, hl⟩ := h.freeList
  have hwm := h.watermark_le
  obtain ⟨hlt, hmem⟩ := (hl.valid_iff hwm idx).mp hv
  by_cases htop : idx = p.watermark - 1
  · -- the top slot: only the watermark moves
    have hfl : ({ p with watermark := p.watermark - 1, count := p.count - 1 } :
        Pool α capacity endSentinel).FreeList l := by
      refine ⟨hl.thread, hl.head, hl.tail, hl.nodup, ?_, ?_, ?_⟩
      · intro i hi
        have := hl.below i hi
        have hne : i ≠ idx := fun hc => hmem (hc ▸ hi)
        show i < p.watermark - 1
        omega
      · intro i hi
        have hi' : i < p.watermark - 1 := hi
        exact hl.live i (by omega)
      · have hlen : l.length ≤ p.watermark - 1 := by
          apply length_le_of_nodup hl.nodup
          intro i hi
          have := hl.below i hi
          have hne : i ≠ idx := fun hc => hmem (hc ▸ hi)
          omega
        have := hl.count
        show p.count - 1 + l.length = p.watermark - 1
        omega
    refine ⟨_, ?_, ⟨h.admitted, ?_, l, hfl⟩, ?_⟩
    · simp only [erase, hv, check_true, ok_bind]
      rw [if_pos htop]
    · have := h.room
      show p.watermark - 1 ≤ capacity
      omega
    · intro j
      rw [hfl.lookup_eq (show p.watermark - 1 ≤ endSentinel by omega), hl.lookup_eq hwm]
      by_cases hj : j = idx
      · rw [if_pos hj, if_neg]
        show ¬ (j < p.watermark - 1 ∧ j ∉ l)
        omega
      rw [if_neg hj]
      by_cases hjl : j < p.watermark ∧ j ∉ l
      · rw [if_pos hjl, if_pos]
        exact ⟨show j < p.watermark - 1 by omega, hjl.2⟩
      · rw [if_neg hjl, if_neg]
        rintro ⟨h1, h2⟩
        have h1' : j < p.watermark - 1 := h1
        exact hjl ⟨by omega, h2⟩
  · have hfl := hl.prepend hwm hlt hmem
    refine ⟨_, ?_, ⟨h.admitted, ?_, _, hfl⟩, ?_⟩
    · simp only [erase, hv, check_true, ok_bind]
      rw [if_neg htop]
      simp only [prepend_eq]
    · simp only [prepend_eq]
      exact h.room
    · intro j
      rw [hfl.lookup_eq (by simp only [prepend_eq]; exact hwm), hl.lookup_eq hwm]
      simp only [prepend_eq, mem_cons]
      by_cases hj : j = idx
      · rw [if_pos hj, if_neg (fun hc => hc.2 (.inl hj))]
      · simp only [hj, false_or, if_false]

/-! ## `emplace` and `emplace_anywhere` -/

theorem unlink_eq (p : Pool α capacity endSentinel) (idx : Nat) :
    p.unlink idx = { p with
      nodes := fun j =>
        { nextFree := if (p.nodes idx).prevFree ≠ endSentinel ∧ j = (p.nodes idx).prevFree
            then (p.nodes idx).nextFree else (p.nodes j).nextFree
          prevFree := if (p.nodes idx).nextFree ≠ endSentinel ∧ j = (p.nodes idx).nextFree
            then (p.nodes idx).prevFree else (p.nodes j).prevFree
          value := (p.nodes j).value }
      freeListHead := if p.freeListHead = idx then (p.nodes idx).nextFree else p.freeListHead
      freeListTail := if p.freeListTail = idx then (p.nodes idx).prevFree
        else p.freeListTail } := by
  unfold unlink
  simp only [setNextFree_eq, setPrevFree_eq]

theorem grow_zero (p : Pool α capacity endSentinel) : grow 0 p = p := rfl

/-- The pool after `emplace` has taken the free slot `idx`. -/
def taken (p : Pool α capacity endSentinel) (idx : Nat) (v : α) : Pool α capacity endSentinel :=
  { (p.unlink idx).setNode idx ⟨endSentinel, endSentinel, some v⟩ with count := p.count + 1 }

section Unlink

variable {l₁ l₂ : List Nat}

theorem FreeList.nextFree_eq (h : p.FreeList (l₁ ++ idx :: l₂)) :
    (p.nodes idx).nextFree = l₂.headD endSentinel := next_mem_of_thread h.thread

theorem FreeList.prevFree_eq (h : p.FreeList (l₁ ++ idx :: l₂)) :
    (p.nodes idx).prevFree = l₁.getLastD endSentinel := prev_mem_of_thread h.thread

theorem FreeList.once (h : p.FreeList (l₁ ++ idx :: l₂)) : idx ∉ l₁ ∧ idx ∉ l₂ := by
  have hnd := nodup_append.mp h.nodup
  exact ⟨fun hm => hnd.2.2 idx hm idx (by simp) rfl, (nodup_cons.mp hnd.2.1).1⟩

theorem watermark_unlink : (p.unlink idx).watermark = p.watermark := by
  rw [unlink_eq]

section

variable (h : p.FreeList (l₁ ++ idx :: l₂))

include h

theorem FreeList.unlink_thread (hroom : p.watermark ≤ endSentinel) :
    Thread (fun i => ((p.unlink idx).nodes i).nextFree)
      (fun i => ((p.unlink idx).nodes i).prevFree) endSentinel (l₁ ++ l₂) endSentinel := by
  have hend : ∀ i ∈ l₁ ++ idx :: l₂, i ≠ endSentinel := by
    intro i hi
    have := h.below i hi
    omega
  -- each link is written if there is a neighbour to write it to
  refine thread_unlink h.nodup h.thread ?_ ?_ ?_ ?_
  · intro l j hl
    have hj : l₁.getLastD endSentinel = j := by
      rw [hl, getLastD_eq_getLast?, getLast?_append]
      rfl
    funext i
    rw [unlink_eq]
    simp only [h.nextFree_eq, h.prevFree_eq, hj, storeAt]
    simp [hend j (by simp [hl])]
  · intro hl
    funext i
    rw [unlink_eq]
    simp [h.prevFree_eq, hl]
  · intro j l hl
    have hj : l₂.headD endSentinel = j := by rw [hl]; rfl
    funext i
    rw [unlink_eq]
    simp only [h.nextFree_eq, h.prevFree_eq, hj, storeAt]
    simp [hend j (by simp [hl])]
  · intro hl
    funext i
    rw [unlink_eq]
    simp [h.nextFree_eq, hl]

theorem FreeList.unlink_head :
    (p.unlink idx).freeListHead = (l₁ ++ l₂).headD endSentinel := by
  rw [unlink_eq]
  simp only [h.head, h.nextFree_eq, headD_append, headD_cons]
  cases hl : l₁ with
  | nil => simp
  | cons j l =>
    rw [if_neg]
    · rfl
    · intro hc
      have hc' : j = idx := hc
      exact h.once.1 (by simp [hl, hc'])

theorem FreeList.unlink_tail :
    (p.unlink idx).freeListTail = (l₁ ++ l₂).getLastD endSentinel := by
  have htail : p.freeListTail = l₂.getLastD idx := by
    rw [h.tail, getLastD_eq_getLast?, getLast?_append, getLast?_cons, getLastD_eq_getLast?]
    rfl
  rw [unlink_eq]
  simp only [h.prevFree_eq, htail]
  cases hl : l₂ with
  | nil => simp
  | cons j l =>
    have hmem := getLastD_mem (d := idx) (show l₂ ≠ [] by simp [hl])
    rw [hl] at hmem
    have hne : (j :: l).getLastD idx ≠ idx := by
      intro hc
      rw [hc] at hmem
      exact h.once.2 (by rw [hl]; exact hmem)
    rw [if_neg hne, getLastD_eq_getLast?, getLastD_eq_getLast?, getLast?_append]
    rfl

theorem FreeList.unlink_frame {i : Nat}
    (hi : i ∉ l₁ ++ idx :: l₂) : (p.unlink idx).nodes i = p.nodes i := by
  have hbefore : ¬ (l₁.getLastD endSentinel ≠ endSentinel ∧ i = l₁.getLastD endSentinel) := by
    rintro ⟨hend, hc⟩
    have hl : l₁ ≠ [] := by
      rintro rfl
      exact hend rfl
    exact hi (by simp [hc ▸ getLastD_mem (d := endSentinel) hl])
  have hafter : ¬ (l₂.headD endSentinel ≠ endSentinel ∧ i = l₂.headD endSentinel) := by
    rintro ⟨hend, hc⟩
    cases hl : l₂ with
    | nil => exact hend (by rw [hl]; rfl)
    | cons j l =>
      rw [hl] at hc
      have hc' : i = j := hc
      exact hi (by simp [hl, hc'])
  rw [unlink_eq]
  simp only [h.nextFree_eq, h.prevFree_eq]
  rw [if_neg hbefore, if_neg hafter]

/-- Taking a slot off the free list leaves the others linked. -/
theorem FreeList.taken (hroom : p.watermark ≤ endSentinel)
    (v : α) : (p.taken idx v).FreeList (l₁ ++ l₂) := by
  obtain ⟨hidx1, hidx2⟩ := h.once
  have hnd := nodup_append.mp h.nodup
  have hnodes : ∀ j, j ≠ idx → (p.taken idx v).nodes j = (p.unlink idx).nodes j :=
    fun j hj => storeAt_ne _ _ hj
  have hne : ∀ j ∈ l₁ ++ l₂, j ≠ idx := by
    rintro j hj rfl
    exact (mem_append.mp hj).elim hidx1 hidx2
  refine ⟨?_, h.unlink_head, h.unlink_tail, ?_, ?_, ?_, ?_⟩
  · exact thread_congr (fun j hj => by simp only [hnodes j (hne j hj)])
      (fun j hj => by simp only [hnodes j (hne j hj)]) (h.unlink_thread hroom)
  · exact nodup_append.mpr ⟨hnd.1, (nodup_cons.mp hnd.2.1).2,
      fun a ha b hb => hnd.2.2 a ha b (by simp [hb])⟩
  · intro i hi
    show i < (p.unlink idx).watermark
    rw [watermark_unlink]
    apply h.below i
    rcases mem_append.mp hi with hi | hi <;> simp [hi]
  · intro i hi hil
    by_cases hii : i = idx
    · subst hii
      show (storeAt (p.unlink i).nodes i _ i).nextFree = _
        ∧ (storeAt (p.unlink i).nodes i _ i).prevFree = _
        ∧ (storeAt (p.unlink i).nodes i _ i).value.isSome
      rw [storeAt_self]
      exact ⟨rfl, rfl, rfl⟩
    have hil' : i ∉ l₁ ++ idx :: l₂ := by
      simp only [mem_append, mem_cons, not_or] at hil ⊢
      exact ⟨hil.1, hii, hil.2⟩
    have hiw : i < p.watermark := by
      have hw : i < (p.unlink idx).watermark := hi
      rw [watermark_unlink] at hw
      exact hw
    rw [hnodes i hii, h.unlink_frame hil']
    exact h.live i hiw hil'
  · have hc := h.count
    show p.count + 1 + (l₁ ++ l₂).length = (p.unlink idx).watermark
    rw [watermark_unlink]
    simp only [length_append, length_cons] at hc ⊢
    omega

end

end Unlink

theorem emplace_free (h : p.WF) {l₁ l₂ : List Nat} (hl : p.FreeList (l₁ ++ idx :: l₂)) (v : α) :
    ∃ p', p.emplace idx v = .ok p' ∧ p'.WF ∧
      ∀ j, p'.lookup j = if j = idx then some v else p.lookup j := by
  have hwm := h.watermark_le
  have hidx : idx < p.watermark := hl.below idx (by simp)
  have hcap : idx < capacity := Nat.lt_of_lt_of_le hidx h.room
  have hvalid : p.valid idx = false := by
    rw [Bool.eq_false_iff]
    intro hv
    exact ((hl.valid_iff hwm idx).mp hv).2 (by simp)
  have hfl := hl.taken hwm v
  have hwm' : (p.taken idx v).watermark = p.watermark := watermark_unlink
  refine ⟨p.taken idx v, ?_, ⟨h.admitted, by rw [hwm']; exact h.room, _, hfl⟩, ?_⟩
  · have hgrow : grow (idx - p.watermark) p = p := by
      rw [Nat.sub_eq_zero_of_le (Nat.le_of_lt hidx), grow_zero]
    simp only [emplace, increaseSize, hcap, decide_true, check_true, ok_bind, hgrow, hvalid,
      Bool.false_eq_true, if_false]
    rw [if_neg (by omega)]
    simp only [Pool.taken, unlink_eq, setNode]
  · intro j
    obtain ⟨hidx1, hidx2⟩ := hl.once
    rw [hfl.lookup_eq (by rw [hwm']; exact hwm), hl.lookup_eq hwm, hwm']
    by_cases hj : j = idx
    · subst hj
      rw [if_pos rfl, if_pos ⟨hidx, by simp [hidx1, hidx2]⟩]
      show (storeAt (p.unlink j).nodes j _ j).value = _
      rw [storeAt_self]
    rw [if_neg hj]
    have hval : ((p.taken idx v).nodes j).value = (p.nodes j).value := by
      show (storeAt (p.unlink idx).nodes idx _ j).value = _
      rw [storeAt_ne _ _ hj, unlink_eq]
    rw [hval]
    simp only [mem_append, mem_cons, hj, false_or]

/-- The pool after `emplace` has taken the slot at the watermark. -/
def topped (p : Pool α capacity endSentinel) (v : α) : Pool α capacity endSentinel :=
  { p with
    nodes := storeAt p.nodes p.watermark ⟨endSentinel, endSentinel, some v⟩
    watermark := p.watermark + 1
    count := p.count + 1 }

theorem topped_self (p : Pool α capacity endSentinel) (v : α) :
    (p.topped v).nodes p.watermark = ⟨endSentinel, endSentinel, some v⟩ := storeAt_self _ _ _

theorem topped_ne (p : Pool α capacity endSentinel) (v : α) {j : Nat} (h : j ≠ p.watermark) :
    (p.topped v).nodes j = p.nodes j := storeAt_ne _ _ h

theorem FreeList.ne_watermark (h : p.FreeList l) (hi : i ∈ l) :
    i ≠ p.watermark := Nat.ne_of_lt (h.below i hi)

theorem FreeList.topped (h : p.FreeList l) (v : α) : (p.topped v).FreeList l := by
  refine ⟨?_, h.head, h.tail, h.nodup, ?_, ?_, ?_⟩
  · exact thread_congr (fun j hj => by simp only [topped_ne p v (h.ne_watermark hj)])
      (fun j hj => by simp only [topped_ne p v (h.ne_watermark hj)]) h.thread
  · intro i hi
    have := h.below i hi
    show i < p.watermark + 1
    omega
  · intro i hi hil
    by_cases hiw : i = p.watermark
    · rw [hiw, topped_self]
      exact ⟨rfl, rfl, rfl⟩
    · have hi' : i < p.watermark + 1 := hi
      rw [topped_ne p v hiw]
      exact h.live i (by omega) hil
  · have := h.count
    show p.count + 1 + l.length = p.watermark + 1
    omega

theorem emplace_top (h : p.WF) (hcap : p.watermark < capacity) (v : α) :
    ∃ p', p.emplace p.watermark v = .ok p' ∧ p'.WF ∧
      ∀ j, p'.lookup j = if j = p.watermark then some v else p.lookup j := by
  have hwm := h.watermark_le
  have hadm := h.admitted
  obtain ⟨l, hl⟩ := h.freeList
  have hvalid : p.valid p.watermark = false := by
    unfold valid
    rw [if_pos (Nat.le_refl _)]
  have hfl := hl.topped v
  refine ⟨p.topped v, ?_, ⟨h.admitted, hcap, l, hfl⟩, ?_⟩
  · simp only [emplace, increaseSize, hcap, decide_true, check_true, ok_bind, Nat.sub_self,
      grow_zero, hvalid, Bool.false_eq_true, if_false, if_true]
    rfl
  · intro j
    rw [hfl.lookup_eq (show p.watermark + 1 ≤ endSentinel by omega), hl.lookup_eq hwm]
    show (if j < p.watermark + 1 ∧ j ∉ l then ((p.topped v).nodes j).value else none) = _
    by_cases hj : j = p.watermark
    · rw [hj, if_pos rfl, if_pos ⟨by omega, fun hc => hl.ne_watermark hc rfl⟩, topped_self]
    · rw [if_neg hj, topped_ne p v hj]
      by_cases hjl : j < p.watermark ∧ j ∉ l
      · rw [if_pos hjl, if_pos ⟨by omega, hjl.2⟩]
      · rw [if_neg hjl, if_neg (fun hc => hjl ⟨by omega, hc.2⟩)]

/-- `emplace_anywhere` on a pool that is not full takes a slot that was not
in use and touches no other. -/
theorem emplaceAnywhere_spec (h : p.WF) (hfull : p.full = false) (v : α) :
    ∃ i p', p.emplaceAnywhere v = .ok (i, p') ∧ p'.WF ∧ p.lookup i = none ∧
      ∀ j, p'.lookup j = if j = i then some v else p.lookup j := by
  have hwm := h.watermark_le
  obtain ⟨l, hl⟩ := h.freeList
  have hcount : p.count < capacity := by
    simpa [full] using hfull
  cases hll : l with
  | nil =>
    rw [hll] at hl
    have hhead : p.freeListHead = endSentinel := hl.head
    have hc : p.count + 0 = p.watermark := hl.count
    obtain ⟨p', he, hwf, hlook⟩ := emplace_top h (by omega) v
    refine ⟨p.watermark, p', ?_, hwf, ?_, hlook⟩
    · simp only [emplaceAnywhere, hhead, ne_eq, not_true_eq_false, if_false, he, ok_bind]
    · rw [hl.lookup_eq hwm, if_neg (by omega)]
  | cons idx l' =>
    rw [hll] at hl
    have hhead : p.freeListHead = idx := hl.head
    have hne : idx ≠ endSentinel := by
      have := hl.below idx (by simp)
      omega
    obtain ⟨p', he, hwf, hlook⟩ := emplace_free h (show p.FreeList ([] ++ idx :: l') from hl) v
    refine ⟨idx, p', ?_, hwf, ?_, hlook⟩
    · simp only [emplaceAnywhere, hhead, ne_eq, hne, not_false_eq_true, if_true, he, ok_bind]
    · rw [hl.lookup_eq hwm, if_neg]
      rintro ⟨_, hc⟩
      exact hc (by simp)

theorem emplaceAnywhere_full (h : p.WF) (hfull : p.full = true) (v : α) :
    p.emplaceAnywhere v = .error (.assertion "_data_begin + idx < _data_end") := by
  obtain ⟨l, hl⟩ := h.freeList
  have hroom := h.room
  have hcount : capacity ≤ p.count := by simpa [full] using hfull
  have hlen := hl.count
  have hnil : l = [] := length_eq_zero_iff.mp (by omega)
  subst hnil
  have hhead : p.freeListHead = endSentinel := hl.head
  have hlimit : decide (p.watermark < capacity) = false := by
    rw [decide_eq_false_iff_not]
    omega
  simp only [emplaceAnywhere, hhead, ne_eq, not_true_eq_false, if_false, emplace, increaseSize,
    hlimit, check_false, error_bind]

/-! ### `emplace` at any index -/

/-- One round of the loop of `increase_size`. -/
def growOne (p : Pool α capacity endSentinel) : Pool α capacity endSentinel :=
  { (p.setNode p.watermark ⟨endSentinel, endSentinel, none⟩).prependToFreeList p.watermark with
    watermark := p.watermark + 1 }

theorem watermark_prepend (p : Pool α capacity endSentinel) (idx : Nat) :
    (p.prependToFreeList idx).watermark = p.watermark := by
  rw [prepend_eq]

theorem grow_succ (n : Nat) (p : Pool α capacity endSentinel) :
    grow (n + 1) p = grow n p.growOne := by
  show grow n _ = grow n _
  congr 1
  show Pool.mk _ _ _ _ _ = Pool.mk _ _ _ _ _
  rw [watermark_prepend]
  rfl

theorem FreeList.congr {p q : Pool α capacity endSentinel} (h : p.FreeList l)
    (hlinks : ∀ i, (q.nodes i).nextFree = (p.nodes i).nextFree
      ∧ (q.nodes i).prevFree = (p.nodes i).prevFree)
    (hvalues : ∀ i, i ∉ l → (q.nodes i).value = (p.nodes i).value)
    (hwm : q.watermark = p.watermark) (hhead : q.freeListHead = p.freeListHead)
    (htail : q.freeListTail = p.freeListTail) (hcount : q.count = p.count) : q.FreeList l := by
  refine ⟨?_, hhead.trans h.head, htail.trans h.tail, h.nodup, ?_, ?_, ?_⟩
  · exact thread_congr (fun j _ => (hlinks j).1) (fun j _ => (hlinks j).2) h.thread
  · intro i hi
    rw [hwm]
    exact h.below i hi
  · intro i hi hil
    rw [hwm] at hi
    rw [(hlinks i).1, (hlinks i).2, hvalues i hil]
    exact h.live i hi hil
  · rw [hcount, hwm]
    exact h.count

/-- A round of `increase_size` frees the slot at the watermark. -/
theorem FreeList.growOne (h : p.FreeList l)
    (hroom : p.watermark < endSentinel) (v : α) : p.growOne.FreeList (p.watermark :: l) := by
  have hmem : p.watermark ∉ l := fun hc => h.ne_watermark hc rfl
  have hpush := (h.topped v).prepend (show p.watermark + 1 ≤ endSentinel from hroom)
    (show p.watermark < p.watermark + 1 by omega) hmem
  rw [prepend_eq] at hpush
  have hlinks : ∀ i, (storeAt p.nodes p.watermark ⟨endSentinel, endSentinel, none⟩ i).nextFree
        = ((p.topped v).nodes i).nextFree
      ∧ (storeAt p.nodes p.watermark ⟨endSentinel, endSentinel, none⟩ i).prevFree
        = ((p.topped v).nodes i).prevFree := by
    intro i
    by_cases hi : i = p.watermark
    · rw [hi, topped_self, storeAt_self]
      exact ⟨rfl, rfl⟩
    · rw [topped_ne p v hi, storeAt_ne _ _ hi]
      exact ⟨rfl, rfl⟩
  unfold Pool.growOne
  rw [prepend_eq]
  apply hpush.congr
  · intro i
    simp only [setNode, (hlinks i).1, (hlinks i).2]
    exact ⟨rfl, rfl⟩
  · intro i hi
    have hiw : i ≠ p.watermark := fun hc => hi (by simp [hc])
    show (storeAt p.nodes p.watermark ⟨endSentinel, endSentinel, none⟩ i).value
      = ((p.topped v).nodes i).value
    rw [topped_ne p v hiw, storeAt_ne _ _ hiw]
  · rfl
  · rfl
  · rfl
  · show p.count = p.count + 1 - 1
    omega

theorem growOne_spec (h : p.WF) (hroom : p.watermark < capacity)
    (v : α) : p.growOne.WF ∧ p.growOne.watermark = p.watermark + 1
      ∧ ∀ j, p.growOne.lookup j = p.lookup j := by
  obtain ⟨l, hl⟩ := h.freeList
  have hadm := h.admitted
  have hfl := hl.growOne (by omega) v
  have hwm : p.growOne.watermark = p.watermark + 1 := rfl
  refine ⟨⟨h.admitted, hroom, _, hfl⟩, hwm, ?_⟩
  intro j
  rw [hfl.lookup_eq (by rw [hwm]; omega), hl.lookup_eq h.watermark_le, hwm]
  by_cases hj : j = p.watermark
  · rw [if_neg (fun hc => hc.2 (by simp [hj])), if_neg (by omega)]
  have hval : (p.growOne.nodes j).value = (p.nodes j).value := by
    unfold growOne
    rw [prepend_eq]
    show (storeAt p.nodes p.watermark _ j).value = _
    rw [storeAt_ne _ _ hj]
  rw [hval]
  have hiff : (j < p.watermark + 1 ∧ j ∉ p.watermark :: l) ↔ (j < p.watermark ∧ j ∉ l) := by
    rw [mem_cons, not_or]
    constructor
    · intro hc
      exact ⟨by omega, hc.2.2⟩
    · intro hc
      exact ⟨by omega, hj, hc.2⟩
  simp only [hiff]

theorem grow_spec (v : α) (n : Nat) : ∀ {p : Pool α capacity endSentinel}, p.WF →
    p.watermark + n ≤ capacity → (grow n p).WF ∧ (grow n p).watermark = p.watermark + n
      ∧ ∀ j, (grow n p).lookup j = p.lookup j := by
  induction n with
  | zero =>
    intro p h _
    exact ⟨h, rfl, fun _ => rfl⟩
  | succ n ih =>
    intro p h hroom
    obtain ⟨hwf, hwm, hlook⟩ := growOne_spec h (by omega) v
    obtain ⟨gwf, gwm, glook⟩ := ih hwf (by omega)
    rw [grow_succ]
    refine ⟨gwf, by rw [gwm]; omega, ?_⟩
    intro j
    rw [glook, hlook]

/-- `emplace` stores at its index, whether that was in use, free or above
the watermark, and changes no other entry. -/
theorem emplace_spec (h : p.WF) (hidx : idx < capacity) (v : α) :
    ∃ p', p.emplace idx v = .ok p' ∧ p'.WF ∧
      ∀ j, p'.lookup j = if j = idx then some v else p.lookup j := by
  obtain ⟨l, hl⟩ := h.freeList
  by_cases habove : p.watermark ≤ idx
  · -- above: the loop brings the watermark to the index, then the top slot is taken
    obtain ⟨gwf, gwm, glook⟩ := grow_spec v (idx - p.watermark) h (by omega)
    have hwm : (grow (idx - p.watermark) p).watermark = idx := by rw [gwm]; omega
    obtain ⟨p', he, hwf, hlook⟩ := emplace_top gwf (by rw [hwm]; exact hidx) v
    rw [hwm] at he hlook
    refine ⟨p', ?_, hwf, ?_⟩
    · rw [← he]
      simp only [emplace, increaseSize, hidx, decide_true, check_true, ok_bind, hwm, Nat.sub_self,
        grow_zero]
    · intro j
      rw [hlook, glook]
  · by_cases hmem : idx ∈ l
    · obtain ⟨l₁, l₂, hsplit⟩ := append_of_mem hmem
      rw [hsplit] at hl
      exact emplace_free h hl v
    -- in use: the value is written over
    have hv : p.valid idx = true := (hl.valid_iff h.watermark_le idx).mpr ⟨by omega, hmem⟩
    obtain ⟨w, hw⟩ := (h.valid_iff_lookup idx).mp hv
    obtain ⟨p', hset, hwf, hlook⟩ := set_spec h hw v
    refine ⟨p', ?_, hwf, hlook⟩
    have hgrow : grow (idx - p.watermark) p = p := by
      rw [Nat.sub_eq_zero_of_le (by omega), grow_zero]
    rw [← hset]
    simp only [emplace, increaseSize, hidx, decide_true, check_true, ok_bind, hgrow, hv, if_true,
      set]

/-! ### What a call that returns has done -/

theorem emplaceAnywhere_ok (h : p.WF) (hcall : p.emplaceAnywhere v = .ok (i, p')) :
    p.full = false ∧ p'.WF ∧ p.lookup i = none ∧
      ∀ j, p'.lookup j = if j = i then some v else p.lookup j := by
  cases hfull : p.full with
  | true =>
    rw [emplaceAnywhere_full h hfull] at hcall
    simp at hcall
  | false =>
    obtain ⟨i1, p1, h1, hwf, hnone, hl⟩ := emplaceAnywhere_spec h hfull v
    cases h1.symm.trans hcall
    exact ⟨rfl, hwf, hnone, hl⟩

theorem set_ok (h : p.WF) (hcall : p.set i w = .ok p') :
    (∃ v, p.lookup i = some v) ∧ p'.WF ∧
      ∀ j, p'.lookup j = if j = i then some w else p.lookup j := by
  have hvalid : p.valid i = true := by
    rw [set, bind_ok] at hcall
    obtain ⟨_, hcheck, _⟩ := hcall
    exact check_ok.mp hcheck
  obtain ⟨v, hv⟩ := (h.valid_iff_lookup i).mp hvalid
  obtain ⟨p1, h1, hwf, hl⟩ := set_spec h hv w
  cases h1.symm.trans hcall
  exact ⟨⟨v, hv⟩, hwf, hl⟩

theorem erase_ok (h : p.WF) (hcall : p.erase i = .ok p') :
    (∃ v, p.lookup i = some v) ∧ p'.WF ∧
      ∀ j, p'.lookup j = if j = i then none else p.lookup j := by
  have hvalid : p.valid i = true := by
    rw [erase, bind_ok] at hcall
    obtain ⟨_, hcheck, _⟩ := hcall
    exact check_ok.mp hcheck
  obtain ⟨v, hv⟩ := (h.valid_iff_lookup i).mp hvalid
  obtain ⟨p1, h1, hwf, hl⟩ := erase_spec h hv
  cases h1.symm.trans hcall
  exact ⟨⟨v, hv⟩, hwf, hl⟩

/-! ## Iterating -/

/-- The live indices from `idx` on, in order. -/
def liveFrom (p : Pool α capacity endSentinel) (idx : Nat) : List Nat :=
  (List.range' idx (p.watermark - idx)).filter p.valid

theorem liveFrom_step (p : Pool α capacity endSentinel) {idx : Nat} (h : idx < p.watermark) :
    p.liveFrom idx = if p.valid idx then idx :: p.liveFrom (idx + 1)
      else p.liveFrom (idx + 1) := by
  unfold liveFrom
  rw [show p.watermark - idx = (p.watermark - (idx + 1)) + 1 by omega, range'_succ,
      filter_cons]

theorem liveFrom_end (p : Pool α capacity endSentinel) : p.liveFrom p.watermark = [] := by
  simp [liveFrom]

theorem jumpToValid_spec (p : Pool α capacity endSentinel) :
    ∀ (fuel idx : Nat), idx ≤ p.watermark → p.watermark ≤ idx + fuel →
      idx ≤ p.jumpToValid fuel idx ∧ p.jumpToValid fuel idx ≤ p.watermark ∧
      (p.jumpToValid fuel idx = p.watermark ∨ p.valid (p.jumpToValid fuel idx) = true) ∧
      p.liveFrom (p.jumpToValid fuel idx) = p.liveFrom idx
  | 0, idx, h1, h2 => ⟨Nat.le_refl _, h1, Or.inl (by simp only [jumpToValid]; omega), rfl⟩
  | fuel + 1, idx, h1, h2 => by
      by_cases hc : idx ≠ p.watermark ∧ p.valid idx = false
      · rw [jumpToValid, if_pos hc]
        obtain ⟨i1, i2, i3, i4⟩ := jumpToValid_spec p fuel (idx + 1) (by omega) (by omega)
        refine ⟨by omega, i2, i3, ?_⟩
        rw [i4, liveFrom_step p (show idx < p.watermark by omega), if_neg (by simp [hc.2])]
      · rw [jumpToValid, if_neg hc]
        refine ⟨Nat.le_refl _, h1, ?_, rfl⟩
        by_cases hw : idx = p.watermark
        · exact .inl hw
        · right
          by_contra hv
          exact hc ⟨hw, by simpa using hv⟩

theorem WF.jump_spec (h : p.WF) {fuel idx : Nat}
    (h1 : idx ≤ p.watermark) (h2 : p.watermark ≤ idx + fuel) :
    idx ≤ p.jumpToValid fuel idx ∧ p.jumpToValid fuel idx ≤ p.watermark ∧
      (p.jumpToValid fuel idx = p.watermark ∨ ∃ v, p.lookup (p.jumpToValid fuel idx) = some v) ∧
      ∀ j, idx ≤ j → j < p.jumpToValid fuel idx → p.lookup j = none := by
  obtain ⟨hge, hle, hstop, hlive⟩ := jumpToValid_spec p fuel idx h1 h2
  refine ⟨hge, hle, hstop.imp_right (h.valid_iff_lookup _).mp, fun j hj hlt => ?_⟩
  cases hlook : p.lookup j with
  | none => rfl
  | some v =>
    -- it would be among the live indices from the end of the jump on
    have hmem : j ∈ p.liveFrom idx := by
      rw [liveFrom, mem_filter, mem_range'_1]
      exact ⟨⟨hj, by omega⟩, (h.valid_iff_lookup j).mpr ⟨v, hlook⟩⟩
    rw [← hlive, liveFrom, mem_filter, mem_range'_1] at hmem
    omega

theorem watermark_of_set (hcall : p.set i v = .ok p') : p'.watermark = p.watermark := by
  rw [set, bind_ok] at hcall
  obtain ⟨_, _, hcall⟩ := hcall
  cases hcall
  rfl

theorem watermark_of_erase (hcall : p.erase i = .ok p') :
    p'.watermark ≤ p.watermark ∧ (i + 1 < p.watermark → p'.watermark = p.watermark) := by
  rw [erase, bind_ok] at hcall
  obtain ⟨_, _, hcall⟩ := hcall
  split at hcall
  · cases hcall
    exact ⟨Nat.sub_le _ _, fun hlt => by omega⟩
  · cases hcall
    exact ⟨Nat.le_of_eq (watermark_prepend p i), fun _ => watermark_prepend p i⟩

theorem indicesFrom_spec (p : Pool α capacity endSentinel) :
    ∀ (fuel idx : Nat), idx ≤ p.watermark → p.watermark < idx + fuel →
      (idx = p.watermark ∨ p.valid idx = true) → p.indicesFrom fuel idx = p.liveFrom idx
  | 0, idx, h1, h2, _ => by omega
  | fuel + 1, idx, h1, h2, h3 => by
      by_cases hw : idx = p.watermark
      · rw [indicesFrom, if_pos hw, hw, liveFrom_end]
      · rw [indicesFrom, if_neg hw, liveFrom_step p (by omega), if_pos (h3.resolve_left hw)]
        obtain ⟨i1, i2, i3, i4⟩ :=
          jumpToValid_spec p (p.watermark - (idx + 1)) (idx + 1) (by omega) (by omega)
        rw [indicesFrom_spec p fuel _ i2 (by omega) i3, i4]

/-- Iterating visits the live indices, each once and in order. -/
theorem indices_eq_filter (p : Pool α capacity endSentinel) :
    p.indices = (List.range p.watermark).filter p.valid := by
  obtain ⟨_, i2, i3, i4⟩ := jumpToValid_spec p p.watermark 0 (by omega) (by omega)
  rw [indices, indicesFrom_spec p _ _ i2 (by omega) i3, i4, liveFrom, Nat.sub_zero, range_eq_range']

theorem WF.mem_indices (h : p.WF) : i ∈ p.indices ↔ ∃ v, p.lookup i = some v := by
  rw [indices_eq_filter, mem_filter, mem_range, h.valid_iff_lookup]
  constructor
  · exact fun hi => hi.2
  · rintro ⟨v, hv⟩
    exact ⟨lookup_lt_watermark hv, v, hv⟩

theorem pairwise_indices (p : Pool α capacity endSentinel) : p.indices.Pairwise (· < ·) := by
  rw [indices_eq_filter]
  exact List.Pairwise.filter _ pairwise_lt_range

/-- `size()` is the number of live indices. -/
theorem WF.length_indices (h : p.WF) : p.indices.length = p.size := by
  obtain ⟨l, hl⟩ := h.freeList
  have hperm : ((range p.watermark).filter fun i => !p.valid i).Perm l := by
    apply (perm_ext_iff_of_nodup (nodup_range.filter _) hl.nodup).mpr
    intro i
    rw [mem_filter, mem_range, Bool.not_eq_true', Bool.eq_false_iff, ne_eq,
        hl.valid_iff h.watermark_le]
    constructor
    · rintro ⟨h1, h2⟩
      by_contra hn
      exact h2 ⟨h1, hn⟩
    · intro hi
      exact ⟨hl.below i hi, fun hc => hc.2 hi⟩
  have hsum : ((range p.watermark).filter p.valid).length
      + ((range p.watermark).filter fun i => !p.valid i).length = p.watermark := by
    have := length_eq_length_filter_add (l := range p.watermark) p.valid
    rw [length_range] at this
    exact this.symm
  have hc := hl.count
  rw [hperm.length_eq] at hsum
  rw [indices_eq_filter, size]
  omega

theorem WF.size_eq_zero (h : p.WF) : p.size = 0 ↔ ∀ i, p.lookup i = none := by
  rw [← h.length_indices, length_eq_zero_iff, eq_nil_iff_forall_not_mem]
  constructor
  · intro hn i
    by_contra hc
    obtain ⟨v, hv⟩ := ne_none_iff_exists'.mp hc
    exact hn i (h.mem_indices.mpr ⟨v, hv⟩)
  · intro hn i hi
    obtain ⟨v, hv⟩ := h.mem_indices.mp hi
    rw [hn i] at hv
    simp at hv

theorem jumpRound_spec (h : p.WF) : ∀ (fuel idx : Nat),
    idx ≤ endSentinel →
    (if idx ≤ p.watermark then p.watermark - idx else endSentinel + 1 - idx + p.watermark) ≤ fuel →
    (p.jumpRound fuel idx = p.watermark ∨ p.valid (p.jumpRound fuel idx) = true) ∧
      (idx ≤ p.watermark → idx ≤ p.jumpRound fuel idx)
  | 0, idx, hidx, hfuel => by
      refine ⟨Or.inl ?_, fun _ => Nat.le_refl _⟩
      show idx = p.watermark
      split at hfuel <;> omega
  | fuel + 1, idx, hidx, hfuel => by
      have hroom := h.watermark_le
      rw [jumpRound]
      by_cases hc : idx ≠ p.watermark ∧ p.valid idx = false
      · rw [if_pos hc]
        by_cases hlast : idx = endSentinel
        · -- the index wraps; it was past the watermark
          have hzero : (idx + 1) % (endSentinel + 1) = 0 := by rw [hlast, Nat.mod_self]
          rw [hzero]
          rw [if_neg (by omega)] at hfuel
          obtain ⟨hstop, _⟩ := jumpRound_spec h fuel 0 (Nat.zero_le _) (by
            rw [if_pos (Nat.zero_le _)]
            omega)
          exact ⟨hstop, fun hle => by omega⟩
        · have hnext : (idx + 1) % (endSentinel + 1) = idx + 1 := Nat.mod_eq_of_lt (by omega)
          rw [hnext]
          obtain ⟨hstop, hge⟩ := jumpRound_spec h fuel (idx + 1) (by omega) (by
            split at hfuel <;> split <;> omega)
          refine ⟨hstop, fun hle => ?_⟩
          have := hge (by omega)
          omega
      · rw [if_neg hc]
        refine ⟨?_, fun _ => Nat.le_refl _⟩
        by_cases hw : idx = p.watermark
        · exact .inl hw
        · right
          by_contra hv
          exact hc ⟨hw, by simpa using hv⟩

theorem next_spec (h : p.WF) (idx : Nat) :
    (p.next idx = p.watermark ∨ p.valid (p.next idx) = true) ∧
      (idx < p.watermark → idx < p.next idx) := by
  have hmod : (idx + 1) % (endSentinel + 1) < endSentinel + 1 := Nat.mod_lt _ (by omega)
  have hroom := h.watermark_le
  obtain ⟨hstop, hge⟩ := jumpRound_spec h (endSentinel + 1) ((idx + 1) % (endSentinel + 1))
    (by omega) (by split <;> omega)
  refine ⟨hstop, fun hlt => ?_⟩
  have hsame : (idx + 1) % (endSentinel + 1) = idx + 1 := Nat.mod_eq_of_lt (by omega)
  unfold next
  rw [hsame] at hge ⊢
  exact hge hlt

/-! ## The objects as a list -/

/-- The objects in use, by slot. -/
def values (p : Pool α capacity endSentinel) : List α :=
  (List.range capacity).filterMap p.lookup

theorem WF.mem_values (h : p.WF) : v ∈ p.values ↔ ∃ i, p.lookup i = some v := by
  unfold values
  rw [mem_filterMap]
  constructor
  · rintro ⟨i, _, hi⟩
    exact ⟨i, hi⟩
  · rintro ⟨i, hi⟩
    exact ⟨i, mem_range.mpr (Nat.lt_of_lt_of_le (lookup_lt_watermark hi) h.room), hi⟩

theorem filterMap_fill {β : Type} {f g : Nat → Option β} {v : β} (hf : f i = none)
    (hg : ∀ j, g j = if j = i then some v else f j) : ∀ {l : List Nat}, l.Nodup → i ∈ l →
    (l.filterMap g).Perm (v :: l.filterMap f) := by
  intro l
  induction l with
  | nil =>
    intro _ hi
    simp at hi
  | cons j rest ih =>
    intro hnd hi
    obtain ⟨hj, hrest⟩ := nodup_cons.mp hnd
    by_cases hji : j = i
    · -- the rest does not see slot `i`
      have hsame : rest.filterMap g = rest.filterMap f := by
        apply filterMap_congr
        intro k hk
        rw [hg, if_neg]
        rintro rfl
        exact hj (hji ▸ hk)
      have hgj : g j = some v := by rw [hg, if_pos hji]
      have hfj : f j = none := by rw [hji, hf]
      rw [filterMap_cons_some hgj, filterMap_cons_none hfj, hsame]
    have hmem : i ∈ rest := by
      rcases mem_cons.mp hi with hi | hi
      · exact absurd hi.symm hji
      · exact hi
    have hgj : g j = f j := by rw [hg, if_neg hji]
    cases hfj : f j with
    | none =>
      rw [filterMap_cons_none (hgj.trans hfj), filterMap_cons_none hfj]
      exact ih hrest hmem
    | some w =>
      rw [filterMap_cons_some (hgj.trans hfj), filterMap_cons_some hfj]
      exact ((ih hrest hmem).cons w).trans (List.Perm.swap v w _)

theorem WF.filterMap_indices (h : p.WF) : p.indices.filterMap p.lookup = p.values := by
  have hsplit : range capacity
      = range p.watermark ++ range' p.watermark (capacity - p.watermark) := by
    have happ := range_add (n := p.watermark) (m := capacity - p.watermark)
    rw [Nat.add_sub_cancel' h.room] at happ
    rw [happ, range'_eq_map_range]
  have hdead : (range' p.watermark (capacity - p.watermark)).filterMap p.lookup = [] := by
    rw [filterMap_eq_nil_iff]
    intro i hi
    by_contra hsome
    obtain ⟨v, hv⟩ := ne_none_iff_exists'.mp hsome
    have := lookup_lt_watermark hv
    have := (mem_range'_1.mp hi).1
    omega
  unfold values
  rw [hsplit, filterMap_append, hdead, append_nil, indices_eq_filter, filterMap_filter]
  apply filterMap_congr
  intro i _
  unfold lookup
  split <;> rfl

theorem WF.mapM_get (h : p.WF) : p.indices.mapM p.get = .ok p.values := by
  have hread : ∀ l : List Nat, (∀ i ∈ l, ∃ v, p.lookup i = some v) →
      l.mapM p.get = .ok (l.filterMap p.lookup) := by
    intro l
    induction l with
    | nil => exact fun _ => rfl
    | cons i l ih =>
      intro hl
      obtain ⟨v, hv⟩ := hl i (by simp)
      rw [mapM_cons, get_spec hv, ok_bind, ih fun j hj => hl j (mem_cons_of_mem _ hj),
        ok_bind, filterMap_cons_some hv]
      rfl
  rw [hread _ fun i hi => h.mem_indices.mp hi, h.filterMap_indices]

theorem values_emplaceAnywhere (h : p.WF)
    (hcall : p.emplaceAnywhere v = .ok (i, p')) : p'.values.Perm (v :: p.values) := by
  obtain ⟨_, hwf, hnone, hl⟩ := emplaceAnywhere_ok h hcall
  have hi : p'.lookup i = some v := by rw [hl, if_pos rfl]
  exact filterMap_fill hnone hl nodup_range
    (mem_range.mpr (Nat.lt_of_lt_of_le (lookup_lt_watermark hi) hwf.room))

theorem values_erase (h : p.WF) (hv : p.lookup i = some v)
    (hcall : p.erase i = .ok p') : p.values.Perm (v :: p'.values) := by
  obtain ⟨_, _, hl⟩ := erase_ok h hcall
  have hback : ∀ j, p.lookup j = if j = i then some v else p'.lookup j := by
    intro j
    by_cases hj : j = i
    · rw [if_pos hj, hj, hv]
    · rw [if_neg hj, hl, if_neg hj]
  exact filterMap_fill (by rw [hl, if_pos rfl]) hback nodup_range
    (mem_range.mpr (Nat.lt_of_lt_of_le (lookup_lt_watermark hv) h.room))

theorem WF.length_values (h : p.WF) : p.values.length = p.size := by
  have hperm : ((range capacity).filter fun i => (p.lookup i).isSome).Perm p.indices := by
    apply (perm_ext_iff_of_nodup (nodup_range.filter _) ((pairwise_indices p).imp Nat.ne_of_lt)).mpr
    intro i
    rw [h.mem_indices, mem_filter, mem_range, isSome_iff_exists]
    constructor
    · exact And.right
    · rintro ⟨v, hv⟩
      exact ⟨Nat.lt_of_lt_of_le (lookup_lt_watermark hv) h.room, v, hv⟩
  unfold values
  rw [length_filterMap_eq_countP, countP_eq_length_filter, hperm.length_eq, h.length_indices]

theorem WF.size_emplaceAnywhere (h : p.WF)
    (hcall : p.emplaceAnywhere v = .ok (i, p')) : p'.size = p.size + 1 := by
  obtain ⟨_, hwf, _⟩ := emplaceAnywhere_ok h hcall
  rw [← hwf.length_values, ← h.length_values, (values_emplaceAnywhere h hcall).length_eq,
    length_cons]

theorem WF.size_le (h : p.WF) : p.size ≤ capacity := by
  obtain ⟨l, hl⟩ := h.freeList
  have hcount := hl.count
  have hroom := h.room
  show p.count ≤ capacity
  omega

theorem pairwise_lookup {R : α → α → Prop} (hsymm : ∀ v w, R v w → R w v)
    (h : p.WF) (hp : p.values.Pairwise R) {j : Nat}
    (hij : i ≠ j) (hi : p.lookup i = some v) (hj : p.lookup j = some w) : R v w := by
  have hup : ∀ {i j : Nat} {v w : α}, i < j → p.lookup i = some v → p.lookup j = some w →
      R v w := by
    intro i j v w hlt hi hj
    have hbound : j < (range capacity).length := by
      rw [length_range]
      exact Nat.lt_of_lt_of_le (lookup_lt_watermark hj) h.room
    have hslots := pairwise_iff_getElem.mp (pairwise_filterMap.mp hp) i j
      (Nat.lt_trans hlt hbound) hbound hlt
    rw [getElem_range, getElem_range] at hslots
    exact hslots v hi w hj
  rcases Nat.lt_or_gt_of_ne hij with hlt | hgt
  · exact hup hlt hi hj
  · exact hsymm w v (hup hgt hj hi)

theorem values_clear (p : Pool α capacity endSentinel) : p.clear.values = [] := by
  unfold values
  rw [filterMap_eq_nil_iff]
  intro i _
  exact lookup_clear p i

theorem values_blank : (blank : Pool α capacity endSentinel).values = [] := values_clear blank

theorem full_clear (p : Pool α capacity endSentinel) (h : 0 < capacity) :
    p.clear.full = false := by
  show decide (0 ≥ capacity) = false
  rw [decide_eq_false_iff_not]
  omega

theorem full_blank (h : 0 < capacity) : (blank : Pool α capacity endSentinel).full = false :=
  full_clear blank h

/-! ## Searching the slots in order -/

/-- `for (; idx < watermark(); ++idx) { if (!valid(idx)) continue; if
(test((*this)[idx])) return idx; }`, with `n` slots to go. -/
def scanFrom (p : Pool α capacity endSentinel) (test : α → Bool) :
    Nat → Nat → Checked (Option Nat)
  | 0, _ => .ok none
  | n + 1, idx =>
    if p.valid idx then do
      let v ← p.get idx
      if test v then .ok (some idx) else p.scanFrom test n (idx + 1)
    else p.scanFrom test n (idx + 1)

def scan (p : Pool α capacity endSentinel) (test : α → Bool) : Checked (Option Nat) :=
  p.scanFrom test p.watermark 0

/-- What a search from `idx` on found. -/
def Found (p : Pool α capacity endSentinel) (test : α → Bool) (idx : Nat) :
    Option Nat → Prop
  | some i => ∃ v, p.lookup i = some v ∧ test v = true
  | none => ∀ j v, idx ≤ j → p.lookup j = some v → test v = false

theorem scanFrom_spec (h : p.WF) (test : α → Bool) (n : Nat) :
    ∀ {idx : Nat}, idx + n = p.watermark →
      ∃ r, p.scanFrom test n idx = .ok r ∧ p.Found test idx r := by
  induction n with
  | zero =>
    intro idx hidx
    refine ⟨none, rfl, ?_⟩
    intro j v hj hv
    have := lookup_lt_watermark hv
    omega
  | succ n ih =>
    intro idx hidx
    obtain ⟨r, hr, hfound⟩ := ih (show idx + 1 + n = p.watermark by omega)
    -- what the rest of the loop finds is what the loop finds if this slot does not match
    have hskip : (∀ v, p.lookup idx = some v → test v = false) → p.Found test idx r := by
      intro hno
      cases r with
      | some i => exact hfound
      | none =>
        intro j v hj hv
        by_cases hji : j = idx
        · exact hno v (hji ▸ hv)
        · exact hfound j v (by omega) hv
    unfold scanFrom
    cases hlook : p.lookup idx with
    | none =>
      have hinvalid : ¬ p.valid idx = true := by
        rw [h.valid_iff_lookup, hlook]
        simp
      rw [if_neg hinvalid]
      exact ⟨r, hr, hskip (by rw [hlook]; simp)⟩
    | some v =>
      rw [if_pos ((h.valid_iff_lookup idx).mpr ⟨v, hlook⟩), get_spec hlook, ok_bind]
      by_cases htest : test v = true
      · rw [if_pos htest]
        exact ⟨some idx, rfl, v, hlook, htest⟩
      rw [if_neg htest]
      refine ⟨r, hr, hskip ?_⟩
      intro w hw
      rw [hlook] at hw
      cases hw
      exact Bool.not_eq_true _ ▸ htest

theorem scan_spec (h : p.WF) (test : α → Bool) :
    ∃ r, p.scan test = .ok r ∧ p.Found test 0 r := scanFrom_spec h test _ (Nat.zero_add _)

end Pool

end Peos2.Support
