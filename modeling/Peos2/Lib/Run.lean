/-
  Lib.Run — runs of a transition system.

  `Reach Init Step` is the set of states a system can get to: it starts in a
  state of `Init` and takes any number of steps. Ghost data (a history, the
  bytes handed out so far) is a component of the state.
-/
import Peos2.Lib.Checked

namespace Peos2.Lib

variable {S : Type}

inductive Reach (Init : S → Prop) (Step : S → S → Prop) : S → Prop
  | init {s : S} : Init s → Reach Init Step s
  | step {s s' : S} : Reach Init Step s → Step s s' → Reach Init Step s'

variable {Init : S → Prop} {Step : S → S → Prop}

/-- The invariant rule. The step may assume that its source is
reachable. -/
theorem Reach.invariant {Inv : S → Prop} (hinit : ∀ s, Init s → Inv s)
    (hstep : ∀ s s', Reach Init Step s → Inv s → Step s s' → Inv s') {s : S}
    (h : Reach Init Step s) : Inv s := by
  induction h with
  | init h0 => exact hinit _ h0
  | step hr hs ih => exact hstep _ _ hr ih hs

theorem foldlM_keeps {A : Type} {f : S → A → Checked S} {P : S → Prop}
    (hstep : ∀ s a s', P s → f s a = .ok s' → P s') {l : List A} :
    ∀ {s s' : S}, P s → l.foldlM f s = .ok s' → P s' := by
  induction l with
  | nil =>
    intro s s' hs hrun
    cases hrun
    exact hs
  | cons a l ih =>
    intro s s' hs hrun
    rw [List.foldlM_cons, bind_ok] at hrun
    obtain ⟨s1, hcall, hrun⟩ := hrun
    exact ih (hstep s a s1 hs hcall) hrun

theorem Reach.foldlM {A : Type} {f : S → A → Checked S}
    (hstep : ∀ s a s', Reach Init Step s → f s a = .ok s' → Step s s') {l : List A} {s s' : S}
    (hs : Reach Init Step s) (hrun : l.foldlM f s = .ok s') : Reach Init Step s' :=
  foldlM_keeps (fun s a s' hs hcall => hs.step (hstep s a s' hs hcall)) hs hrun

/-- Calls one after the other, each only in its circumstances. -/
def runGuarded {A : Type} (guard : S → A → Prop) [∀ s a, Decidable (guard s a)]
    (f : S → A → Checked S) (l : List A) (s : S) : Checked S :=
  l.foldlM (fun s a => if guard s a then f s a else .error (.assertion "guard")) s

theorem Reach.runGuarded {A : Type} {guard : S → A → Prop} [∀ s a, Decidable (guard s a)]
    {f : S → A → Checked S} {l : List A}
    (hstep : ∀ s a s', Reach Init Step s → guard s a → f s a = .ok s' → Step s s') {s s' : S}
    (hs : Reach Init Step s) (hrun : runGuarded guard f l s = .ok s') : Reach Init Step s' := by
  refine Reach.foldlM ?_ hs hrun
  intro s a s' hreach hcall
  split at hcall
  · next hguard => exact hstep s a s' hreach hguard hcall
  · cases hcall

end Peos2.Lib
