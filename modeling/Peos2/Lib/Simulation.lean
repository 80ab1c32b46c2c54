/-
  Lib.Simulation — calls that answer as those of an abstract machine.

  A data type answers calls; so does the machine that says what it is for, whose
  calls always return. One simulates the other when every permitted call of
  related states returns, with the same answer, and leaves related states.
-/
import Peos2.Lib.Checked

namespace Peos2.Lib

variable {A R S M : Type}

/-- Calls one after the other, with their answers. -/
def answers (f : S → A → Checked (R × S)) : List A → S → Checked (List R × S)
  | [], s => .ok ([], s)
  | a :: l, s => do
      let (r, s) ← f s a
      let (rs, s) ← answers f l s
      .ok (r :: rs, s)

/-- Calls of an abstract machine, one after the other. -/
def replies (g : M → A → R × M) : List A → M → List R × M
  | [], m => ([], m)
  | a :: l, m => ((g m a).1 :: (replies g l (g m a).2).1, (replies g l (g m a).2).2)

/-- `f` answers permitted calls as `g` does, and stays related to it. -/
def Simulates (f : S → A → Checked (R × S)) (g : M → A → R × M) (Permitted : A → Prop)
    (Rel : S → M → Prop) : Prop :=
  ∀ s m a, Rel s m → Permitted a → ∃ s', f s a = .ok ((g m a).1, s') ∧ Rel s' (g m a).2

/-- Every sequence of permitted calls is answered as by the machine. -/
theorem Simulates.answers {f : S → A → Checked (R × S)} {g : M → A → R × M}
    {Permitted : A → Prop} {Rel : S → M → Prop} (h : Simulates f g Permitted Rel) {l : List A} :
    ∀ {s : S} {m : M}, Rel s m → (∀ a ∈ l, Permitted a) →
      ∃ s', answers f l s = .ok ((replies g l m).1, s') ∧ Rel s' (replies g l m).2 := by
  induction l with
  | nil =>
    intro s m hrel _
    exact ⟨s, rfl, hrel⟩
  | cons a l ih =>
    intro s m hrel hall
    obtain ⟨s1, hcall, hrel1⟩ := h s m a hrel (hall a List.mem_cons_self)
    obtain ⟨s2, hrest, hrel2⟩ := ih hrel1 fun b hb => hall b (List.mem_cons_of_mem a hb)
    refine ⟨s2, ?_, hrel2⟩
    rw [Lib.answers, hcall, ok_bind]
    show (Lib.answers f l s1 >>= _) = _
    rw [hrest, ok_bind]
    rfl

end Peos2.Lib
