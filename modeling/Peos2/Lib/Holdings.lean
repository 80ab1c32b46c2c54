/-
  Lib.Holdings — resources that are taken, held and given back.

  `held x` is the resource that holder `x` has, and the log says which were taken and
  given back so far. The books are in order when no resource has two holders and was
  taken once more than it was given back if it is held, and as often if it is not.
-/
import Mathlib.Data.List.Count
import Mathlib.Data.Set.Insert
import Mathlib.Logic.Function.Basic
import Mathlib.Tactic.Linarith

namespace Peos2.Lib

variable {H F : Type}

inductive Movement (F : Type) where
  | taken (f : F)
  | freed (f : F)
  deriving DecidableEq

section
variable [DecidableEq F]

/-- How much more often a resource was taken than given back. -/
def balance (log : List (Movement F)) (f : F) : Int :=
  (log.count (.taken f) : Int) - log.count (.freed f)

theorem balance_taken (log : List (Movement F)) (f g : F) :
    balance (log ++ [.taken g]) f = balance log f + if g = f then 1 else 0 := by
  unfold balance
  by_cases h : g = f
  · simp [h]
    omega
  · simp [h]

theorem balance_freed (log : List (Movement F)) (f g : F) :
    balance (log ++ [.freed g]) f = balance log f - if g = f then 1 else 0 := by
  unfold balance
  by_cases h : g = f
  · simp [h]
    omega
  · simp [h]

theorem balance_freed_list (log : List (Movement F)) (l : List F) (f : F) :
    balance (log ++ l.map .freed) f = balance log f - l.count f := by
  induction l generalizing log with
  | nil => simp
  | cons g l ih =>
    rw [List.map_cons, List.append_cons, ih, balance_freed]
    by_cases h : g = f
    · simp [h]
      omega
    · simp [h]

structure Accounted (held : H → Option F) (log : List (Movement F)) : Prop where
  sole : ∀ x y f, held x = some f → held y = some f → x = y
  /-- What is held was taken once more than it was given back. -/
  out : ∀ x f, held x = some f → balance log f = 1
  /-- What is not held was given back as often as it was taken. -/
  back : ∀ f, (∀ x, held x ≠ some f) → balance log f = 0

theorem accounted_nil : Accounted (fun _ : H => (none : Option F)) [] :=
  ⟨fun _ _ _ h => (nomatch h), fun _ _ h => (nomatch h), fun _ _ => rfl⟩

namespace Accounted

variable [DecidableEq H] {held held' : H → Option F} {log : List (Movement F)} {x : H} {f : F}

theorem take (h : Accounted held log) (hx : held x = none) (hf : ∀ y, held y ≠ some f) :
    Accounted (Function.update held x (some f)) (log ++ [.taken f]) := by
  have hbefore := h.back f hf
  refine ⟨?_, ?_, ?_⟩
  · intro y z g hy hz
    rw [Function.update_apply] at hy hz
    split at hy <;> split at hz
    · next hyx hzx => rw [hyx, hzx]
    · cases hy
      exact absurd hz (hf z)
    · cases hz
      exact absurd hy (hf y)
    · exact h.sole y z g hy hz
  · intro y g hy
    rw [balance_taken]
    rw [Function.update_apply] at hy
    split at hy
    · cases hy
      rw [hbefore, if_pos rfl]
      rfl
    · have hne : f ≠ g := by
        rintro rfl
        exact hf y hy
      rw [if_neg hne, h.out y g hy]
      rfl
  · intro g hg
    have hne : f ≠ g := by
      rintro rfl
      exact hg x (Function.update_self x (some f) held)
    rw [balance_taken, if_neg hne, h.back g, add_zero]
    intro y hy
    have hyx : y ≠ x := by
      rintro rfl
      rw [hx] at hy
      cases hy
    exact hg y (by rw [Function.update_of_ne hyx, hy])

theorem free (h : Accounted held log) (hx : held x = some f) :
    Accounted (Function.update held x none) (log ++ [.freed f]) := by
  have hbefore := h.out x f hx
  -- who still has something is not the one who gave back
  have hstill : ∀ {y g}, Function.update held x none y = some g → y ≠ x ∧ held y = some g := by
    intro y g hy
    rw [Function.update_apply] at hy
    split at hy
    · cases hy
    · next hne => exact ⟨hne, hy⟩
  refine ⟨?_, ?_, ?_⟩
  · intro y z g hy hz
    exact h.sole y z g (hstill hy).2 (hstill hz).2
  · intro y g hy
    obtain ⟨hyx, hy'⟩ := hstill hy
    have hne : f ≠ g := by
      rintro rfl
      exact hyx (h.sole y x f hy' hx)
    rw [balance_freed, if_neg hne, h.out y g hy', sub_zero]
  · intro g hg
    rw [balance_freed]
    by_cases hfg : f = g
    · rw [if_pos hfg, ← hfg, hbefore, sub_self]
    rw [if_neg hfg, h.back g, sub_zero]
    intro y hy
    have hyx : y ≠ x := by
      rintro rfl
      rw [hx] at hy
      exact hfg (Option.some.inj hy)
    exact hg y (by rw [Function.update_of_ne hyx, hy])

omit [DecidableEq F] in
theorem held_take (hx : held x = none) :
    {g | ∃ y, Function.update held x (some f) y = some g} = insert f {g | ∃ y, held y = some g} := by
  ext g
  rw [Set.mem_insert_iff, Set.mem_ofPred_eq, Set.mem_ofPred_eq]
  constructor
  · rintro ⟨y, hy⟩
    rw [Function.update_apply] at hy
    split at hy
    · exact Or.inl (Option.some.inj hy).symm
    · exact Or.inr ⟨y, hy⟩
  · rintro (rfl | ⟨y, hy⟩)
    · exact ⟨x, Function.update_self x (some g) held⟩
    · have hyx : y ≠ x := by
        rintro rfl
        rw [hx] at hy
        cases hy
      exact ⟨y, by rw [Function.update_of_ne hyx, hy]⟩

theorem held_free (h : Accounted held log) (hx : held x = some f) :
    {g | ∃ y, Function.update held x none y = some g} = {g | ∃ y, held y = some g} \ {f} := by
  ext g
  constructor
  · rintro ⟨y, hy⟩
    rw [Function.update_apply] at hy
    split at hy
    · cases hy
    next hyx =>
      refine ⟨⟨y, hy⟩, ?_⟩
      rintro rfl
      exact hyx (h.sole y x g hy hx)
  · rintro ⟨⟨y, hy⟩, hne⟩
    have hyx : y ≠ x := by
      rintro rfl
      rw [hx] at hy
      exact hne (Option.some.inj hy).symm
    exact ⟨y, by rw [Function.update_of_ne hyx, hy]⟩

omit [DecidableEq H] in
/-- Resources given back in a row: each that was held before and is held no
longer was given back once, and no other was. -/
theorem freed_once {l : List F} (h : Accounted held log)
    (h' : Accounted held' (log ++ l.map .freed)) :
    (∀ f, (∃ x, held x = some f) → (∀ x, held' x ≠ some f) → l.count f = 1)
      ∧ ∀ f, ((∃ x, held x = some f) → ∃ x, held' x = some f) → l.count f = 0 := by
  have hsum : ∀ f, balance (log ++ l.map .freed) f = balance log f - l.count f :=
    balance_freed_list log l
  refine ⟨?_, ?_⟩
  · rintro f ⟨x, hx⟩ hnone
    have h1 := h.out x f hx
    have h2 := h'.back f hnone
    rw [hsum] at h2
    omega
  · intro f hkept
    have hcount := hsum f
    by_cases hf : ∃ x, held x = some f
    · obtain ⟨y, hy⟩ := hkept hf
      obtain ⟨x, hx⟩ := hf
      have h1 := h.out x f hx
      have h2 := h'.out y f hy
      omega
    have h1 := h.back f fun x hx => hf ⟨x, hx⟩
    by_cases hf' : ∃ y, held' y = some f
    · obtain ⟨y, hy⟩ := hf'
      have h2 := h'.out y f hy
      omega
    · have h2 := h'.back f fun y hy => hf' ⟨y, hy⟩
      omega

end Accounted

end

end Peos2.Lib
