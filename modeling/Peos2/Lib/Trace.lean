/-
  Lib.Trace — properties of every entry of a trace.

  A trace is a list that grows at its end. `Everywhere P` says that each of
  its entries was allowed when it was written, given the entries before it.
-/
import Mathlib.Data.List.Basic

namespace Peos2.Lib

variable {α : Type} {P : List α → α → Prop}

/-- `P` holds of every entry, given the entries before it. -/
def Everywhere (P : List α → α → Prop) (l : List α) : Prop :=
  ∀ before a after, l = before ++ a :: after → P before a

theorem everywhere_nil : Everywhere P [] := by
  intro before a after h
  exact absurd h.symm (by simp)

theorem everywhere_concat {l : List α} {a : α} :
    Everywhere P (l ++ [a]) ↔ Everywhere P l ∧ P l a := by
  constructor
  · intro h
    refine ⟨?_, h l a [] rfl⟩
    intro before b after hl
    refine h before b (after ++ [a]) ?_
    rw [hl, List.append_assoc, List.cons_append]
  · rintro ⟨hl, ha⟩ before b after h
    -- the entry is the last one or lies inside `l`
    rcases List.eq_nil_or_concat after with rfl | ⟨after', c, rfl⟩
    · obtain ⟨rfl, hab⟩ := List.append_inj' h rfl
      cases hab
      exact ha
    · rw [List.concat_eq_append, ← List.cons_append, ← List.append_assoc] at h
      exact hl before b after' (List.append_inj' h rfl).1

end Peos2.Lib
