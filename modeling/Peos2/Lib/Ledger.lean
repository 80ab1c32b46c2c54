/-
  Lib.Ledger — requests that are answered exactly once.

  Requests are numbered in the order in which they are made, and each is made
  for a key. It is answered at once or it waits under its key; settling a key
  answers everything that waits under it with one result.
-/
import Mathlib.Data.Multiset.Count
import Mathlib.Data.Multiset.Bind

namespace Peos2.Lib

/-- The key of each request, the requests that wait under a key, and the
answers given so far. -/
structure Ledger (κ ρ : Type) where
  keys : List κ
  pending : κ → Multiset Nat
  answers : Multiset (Nat × ρ)

namespace Ledger

variable {κ ρ : Type}

/-! ## Requests and answers -/

def blank : Ledger κ ρ := ⟨[], fun _ => 0, 0⟩

def next (l : Ledger κ ρ) : Nat := l.keys.length

def answer (l : Ledger κ ρ) (k : κ) (r : ρ) : Ledger κ ρ :=
  { l with keys := l.keys ++ [k], answers := l.answers + {(l.next, r)} }

def answered (l : Ledger κ ρ) (n : Nat) : Nat := (l.answers.map Prod.fst).count n

/-- Every request waits under its key or has been answered, and not both nor
twice. -/
structure Balanced (l : Ledger κ ρ) : Prop where
  once : ∀ n k, l.keys[n]? = some k → (l.pending k).count n + l.answered n = 1
  own : ∀ k, ∀ n ∈ l.pending k, l.keys[n]? = some k
  known : ∀ a ∈ l.answers, a.1 < l.next

section Keys

variable [DecidableEq κ]

def enqueue (l : Ledger κ ρ) (k : κ) : Ledger κ ρ :=
  { l with
    keys := l.keys ++ [k]
    pending := fun k' => if k' = k then l.next ::ₘ l.pending k else l.pending k' }

def settle (l : Ledger κ ρ) (k : κ) (r : ρ) : Ledger κ ρ :=
  { l with
    pending := fun k' => if k' = k then 0 else l.pending k'
    answers := l.answers + (l.pending k).map fun n => (n, r) }

/-- Everything that waits under one of the keys is answered, with one result. -/
def settleAll (l : Ledger κ ρ) (ks : List κ) (r : ρ) : Ledger κ ρ :=
  { l with
    pending := fun k => if k ∈ ks then 0 else l.pending k
    answers := l.answers + (ks : Multiset κ).bind fun k => (l.pending k).map fun n => (n, r) }

end Keys

/-! ## The balance -/

theorem Balanced.blank : (blank : Ledger κ ρ).Balanced where
  once n k h := absurd h (by simp [Ledger.blank])
  own k n h := absurd h (by simp [Ledger.blank])
  known a h := absurd h (by simp [Ledger.blank])

variable {l : Ledger κ ρ}

variable {n : Nat} {k : κ} {ks : List κ}

theorem keys_append {k' : κ} (h : (l.keys ++ [k])[n]? = some k') :
    (n < l.next ∧ l.keys[n]? = some k') ∨ (n = l.next ∧ k' = k) := by
  unfold next
  by_cases hn : n < l.keys.length
  · rw [List.getElem?_append_left hn] at h
    exact Or.inl ⟨hn, h⟩
  · rw [List.getElem?_append_right (by omega), List.getElem?_singleton] at h
    split at h
    · next h0 => exact Or.inr ⟨by omega, (Option.some.inj h).symm⟩
    · cases h

theorem Balanced.lt_next (h : l.Balanced) (hn : n ∈ l.pending k) :
    n < l.next := (List.getElem?_eq_some_iff.mp (h.own k n hn)).1

theorem Balanced.pending_next (h : l.Balanced) (k : κ) : (l.pending k).count l.next = 0 := by
  rw [Multiset.count_eq_zero]
  intro hn
  exact absurd (h.lt_next hn) (Nat.lt_irrefl _)

theorem Balanced.answered_next (h : l.Balanced) : l.answered l.next = 0 := by
  unfold answered
  rw [Multiset.count_eq_zero, Multiset.mem_map]
  intro ⟨a, ha, heq⟩
  have hlt := h.known a ha
  rw [heq] at hlt
  exact absurd hlt (Nat.lt_irrefl _)

theorem getElem?_append_of_some {k' : κ} (h : ks[n]? = some k') : (ks ++ [k])[n]? = some k' := by
  rw [List.getElem?_append_left (List.getElem?_eq_some_iff.mp h).1, h]

theorem Balanced.answer (h : l.Balanced) (k : κ) (r : ρ) : (l.answer k r).Balanced := by
  have hcount : ∀ n, (l.answer k r).answered n = l.answered n + if n = l.next then 1 else 0 := by
    intro n
    unfold answered Ledger.answer
    rw [Multiset.map_add, Multiset.count_add, Multiset.map_singleton, Multiset.count_singleton]
  constructor
  · intro n k' hk
    show (l.pending k').count n + (l.answer k r).answered n = 1
    rw [hcount]
    rcases keys_append hk with ⟨hlt, hold⟩ | ⟨rfl, rfl⟩
    · rw [if_neg (Nat.ne_of_lt hlt)]
      exact h.once n k' hold
    · rw [if_pos rfl, h.pending_next, h.answered_next]
  · intro k' n hn
    exact getElem?_append_of_some (h.own k' n hn)
  · intro a ha
    show a.1 < (l.keys ++ [k]).length
    rw [List.length_append]
    rcases Multiset.mem_add.mp ha with ha | ha
    · exact Nat.lt_add_right 1 (h.known a ha)
    · rw [Multiset.mem_singleton.mp ha]
      exact Nat.lt_succ_self _

variable [DecidableEq κ]

theorem Balanced.enqueue (h : l.Balanced) (k : κ) : (l.enqueue k).Balanced := by
  have hkeep : ∀ k' n, n ≠ l.next →
      ((l.enqueue k).pending k').count n = (l.pending k').count n := by
    intro k' n hn
    show (if k' = k then l.next ::ₘ l.pending k else l.pending k').count n = _
    split
    · next hk => rw [Multiset.count_cons_of_ne hn, hk]
    · rfl
  constructor
  · intro n k' hk
    show ((l.enqueue k).pending k').count n + l.answered n = 1
    rcases keys_append hk with ⟨hlt, hold⟩ | ⟨rfl, rfl⟩
    · rw [hkeep k' n (Nat.ne_of_lt hlt)]
      exact h.once n k' hold
    · have hself : (l.enqueue k').pending k' = l.next ::ₘ l.pending k' := if_pos rfl
      rw [hself, Multiset.count_cons_self, h.pending_next, h.answered_next]
  · intro k' n hn
    by_cases hnext : n = l.next
    · -- the new request is in the place it was put only
      have hk : k' = k := by
        by_contra hne
        have hold : n ∈ l.pending k' := by
          have hrest : (l.enqueue k).pending k' = l.pending k' := if_neg hne
          rwa [hrest] at hn
        exact absurd (h.lt_next hold) (by omega)
      rw [hnext, hk]
      show (l.keys ++ [k])[l.keys.length]? = some k
      simp
    · have hold : n ∈ l.pending k' := by
        rw [← Multiset.one_le_count_iff_mem] at hn ⊢
        rwa [hkeep k' n hnext] at hn
      exact getElem?_append_of_some (h.own k' n hold)
  · intro a ha
    show a.1 < (l.keys ++ [k]).length
    rw [List.length_append]
    exact Nat.lt_add_right 1 (h.known a ha)

theorem answered_settle (l : Ledger κ ρ) (k : κ) (r : ρ) (n : Nat) :
    (l.settle k r).answered n = l.answered n + (l.pending k).count n := by
  unfold answered settle
  rw [Multiset.map_add, Multiset.count_add, Multiset.map_map]
  have hid : (l.pending k).map (Prod.fst ∘ fun n => (n, r)) = l.pending k := Multiset.map_id _
  rw [hid]

theorem Balanced.settle (h : l.Balanced) (k : κ) (r : ρ) : (l.settle k r).Balanced := by
  constructor
  · intro n k' hk
    have honce := h.once n k' hk
    rw [answered_settle]
    show (if k' = k then 0 else l.pending k').count n + _ = 1
    split
    next heq =>
      rw [heq] at honce
      rw [Multiset.count_zero]
      omega
    next hne =>
      -- a request that waits under `k` has the key `k`
      have hnone : (l.pending k).count n = 0 := by
        rw [Multiset.count_eq_zero]
        intro hn
        have hown := h.own k n hn
        have hkeys : l.keys[n]? = some k' := hk
        rw [hkeys] at hown
        exact hne (Option.some.inj hown)
      omega
  · intro k' n hn
    by_cases heq : k' = k
    · have hzero : (l.settle k r).pending k' = 0 := if_pos heq
      rw [hzero] at hn
      exact absurd hn (Multiset.notMem_zero n)
    · have hkeep : (l.settle k r).pending k' = l.pending k' := if_neg heq
      rw [hkeep] at hn
      exact h.own k' n hn
  · intro a ha
    rcases Multiset.mem_add.mp ha with ha | ha
    · exact h.known a ha
    · obtain ⟨n, hn, rfl⟩ := Multiset.mem_map.mp ha
      exact h.lt_next hn

theorem settleAll_nil (l : Ledger κ ρ) (r : ρ) : l.settleAll [] r = l := by
  simp [settleAll]

theorem settleAll_cons (l : Ledger κ ρ) (hk : k ∉ ks) (r : ρ) :
    l.settleAll (k :: ks) r = (l.settle k r).settleAll ks r := by
  have hpending : (fun k' => if k' ∈ k :: ks then 0 else l.pending k')
      = fun k' => if k' ∈ ks then 0 else if k' = k then 0 else l.pending k' := by
    funext k'
    by_cases h : k' = k <;> by_cases h' : k' ∈ ks <;> simp [h, h']
  -- what waits under the other keys is not touched in between
  have hrest : (ks : Multiset κ).bind (fun k' => ((l.settle k r).pending k').map fun n => (n, r))
      = (ks : Multiset κ).bind fun k' => (l.pending k').map fun n => (n, r) := by
    apply Multiset.bind_congr
    intro k' hk'
    have hne : k' ≠ k := by
      intro heq
      exact hk (heq ▸ Multiset.mem_coe.mp hk')
    have hkeep : (l.settle k r).pending k' = l.pending k' := if_neg hne
    rw [hkeep]
  unfold settleAll
  rw [hrest, hpending, ← Multiset.cons_coe, Multiset.cons_bind, ← add_assoc]
  rfl

theorem Balanced.settleAll {r : ρ} :
    ∀ {l : Ledger κ ρ}, l.Balanced → ks.Nodup → (l.settleAll ks r).Balanced := by
  induction ks with
  | nil =>
    intro l h _
    rw [settleAll_nil]
    exact h
  | cons k ks ih =>
    intro l h hnd
    obtain ⟨hk, hnd⟩ := List.nodup_cons.mp hnd
    rw [settleAll_cons l hk]
    exact ih (h.settle k r) hnd

end Ledger

end Peos2.Lib
