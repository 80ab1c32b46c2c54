/-
  Lib.References — counting the references that a finite table holds.

  A table maps keys to the object a key refers to, if any; only finitely many
  keys are looked at. `refCount` is the number of keys that refer to an
  object. A table changes one key at a time, and the count of every object
  moves by what that key stopped and started to refer to.
-/
import Mathlib.Data.List.Nodup

namespace Peos2.Lib

variable {κ ι : Type} [DecidableEq ι]

/-- How many of the keys refer to `x`. -/
def refCount (keys : List κ) (table : κ → Option ι) (x : ι) : Nat :=
  keys.countP fun k => decide (table k = some x)

variable {keys : List κ} {table table' : κ → Option ι}

theorem refCount_cons (k : κ) (keys : List κ) (table : κ → Option ι) (x : ι) :
    refCount (k :: keys) table x = refCount keys table x + if table k = some x then 1 else 0 := by
  unfold refCount
  rw [List.countP_cons]
  simp only [decide_eq_true_eq]

theorem refCount_congr (h : ∀ k ∈ keys, table' k = table k) (x : ι) :
    refCount keys table' x = refCount keys table x := by
  apply List.countP_congr
  intro k hk
  rw [h k hk]

theorem refCount_pos {x : ι} : 0 < refCount keys table x ↔ ∃ k ∈ keys, table k = some x := by
  unfold refCount
  simp only [List.countP_pos_iff, decide_eq_true_eq]

theorem refCount_eq_zero {x : ι} : refCount keys table x = 0 ↔ ∀ k ∈ keys, table k ≠ some x := by
  unfold refCount
  simp only [List.countP_eq_zero, decide_eq_true_eq, ne_eq]

theorem refCount_update (hnodup : keys.Nodup) {k : κ} (hk : k ∈ keys)
    (hother : ∀ j, j ≠ k → table' j = table j) (x : ι) :
    refCount keys table' x + (if table k = some x then 1 else 0)
      = refCount keys table x + if table' k = some x then 1 else 0 := by
  induction keys with
  | nil => cases hk
  | cons j keys ih =>
    obtain ⟨hj, hnodup⟩ := List.nodup_cons.mp hnodup
    rw [refCount_cons, refCount_cons]
    by_cases hjk : j = k
    · -- the key that changed: the others are the same in both tables
      subst hjk
      have hrest : refCount keys table' x = refCount keys table x := by
        apply refCount_congr
        intro i hi
        apply hother i
        rintro rfl
        exact hj hi
      omega
    · have hmem : k ∈ keys := (List.mem_cons.mp hk).resolve_left (Ne.symm hjk)
      rw [hother j hjk]
      have := ih hnodup hmem
      omega

theorem refCount_link (hnodup : keys.Nodup) {k : κ} (hk : k ∈ keys)
    (hother : ∀ j, j ≠ k → table' j = table j) (hold : table k = none) {y : ι}
    (hnew : table' k = some y) (x : ι) :
    refCount keys table' x = refCount keys table x + if y = x then 1 else 0 := by
  have hupdate := refCount_update hnodup hk hother x
  rw [hold, hnew] at hupdate
  simpa using hupdate

theorem refCount_unlink (hnodup : keys.Nodup) {k : κ} (hk : k ∈ keys)
    (hother : ∀ j, j ≠ k → table' j = table j) {y : ι} (hold : table k = some y)
    (hnew : table' k = none) (x : ι) :
    refCount keys table x = refCount keys table' x + if y = x then 1 else 0 := by
  have hupdate := refCount_update hnodup hk hother x
  rw [hold, hnew] at hupdate
  simpa using hupdate.symm

end Peos2.Lib
