/-
  Lib.Stride — loops that walk over addresses in equal strides.

  `for (a = start; a < stop; a += step) body(a)` on words that wrap around at
  `border`. Where the last stride lands on `stop` the loop visits each of
  `start + step * i` once; a sum that wraps around may start the loop again.
-/
import Peos2.Lib.Checked

namespace Peos2.Lib

variable {σ : Type} {step border : Nat} {body : Nat → σ → Checked σ} {stop : Nat}

/-- `for (; a < stop; a += step) body(a);`, with so many tests of the condition
to go. -/
def strideFrom (step border : Nat) (body : Nat → σ → Checked σ) (stop : Nat) :
    Nat → Nat → σ → Checked σ
  | 0, _, _ => .error .outOfFuel
  | fuel + 1, a, s =>
    if a < stop then do
      let s ← body a s
      strideFrom step border body stop fuel ((a + step) % border) s
    else .ok s

theorem strideFrom_keeps {P : σ → Prop} (hbody : ∀ a s s', P s → body a s = .ok s' → P s') :
    ∀ {fuel a : Nat} {s s' : σ}, P s → strideFrom step border body stop fuel a s = .ok s' →
      P s' := by
  intro fuel
  induction fuel with
  | zero =>
    intro a s s' _ hloop
    cases hloop
  | succ fuel ih =>
    intro a s s' hs hloop
    rw [strideFrom] at hloop
    split at hloop
    · obtain ⟨s1, hround, hrest⟩ := bind_ok.mp hloop
      exact ih (hbody a s s1 hs hround) hrest
    · cases hloop
      exact hs

variable {a n : Nat}

theorem stride_next {i : Nat} (hstop : a + step * n = stop) (hborder : stop < border) (hi : i < n) :
    (a + step * i + step) % border = a + step * (i + 1) := by
  have hle : step * (i + 1) ≤ step * n := Nat.mul_le_mul_left step hi
  rw [Nat.mul_succ] at hle ⊢
  rw [Nat.mod_eq_of_lt (by omega), Nat.add_assoc]

theorem stride_lt {i : Nat} (hstep : 0 < step) (hstop : a + step * n = stop) (hi : i < n) :
    a + step * i < stop := by
  have := Nat.mul_lt_mul_of_pos_left hi hstep
  omega

/-- A loop that returned has kept an invariant indexed by its rounds.
`k` rounds are left after round `i`. -/
theorem strideFrom_ok (P : Nat → σ → Prop) (hstep : 0 < step) (hstop : a + step * n = stop)
    (hborder : stop < border)
    (hbody : ∀ i s s', i < n → P i s → body (a + step * i) s = .ok s' → P (i + 1) s') :
    ∀ {fuel i : Nat} {s s' : σ}, i ≤ n → P i s →
      strideFrom step border body stop fuel (a + step * i) s = .ok s' → P n s' := by
  intro fuel
  induction fuel with
  | zero =>
    intro i s s' _ _ hloop
    cases hloop
  | succ fuel ih =>
    intro i s s' hi hs hloop
    rw [strideFrom] at hloop
    by_cases hn : i = n
    · rw [hn, hstop, if_neg (Nat.lt_irrefl stop)] at hloop
      cases hloop
      exact hn ▸ hs
    · have hlt : i < n := by omega
      rw [if_pos (stride_lt hstep hstop hlt)] at hloop
      obtain ⟨s1, hround, hrest⟩ := bind_ok.mp hloop
      rw [stride_next hstop hborder hlt] at hrest
      exact ih hlt (hbody i s s1 hlt hs hround) hrest

theorem strideFrom_spec (P : Nat → σ → Prop) (hstep : 0 < step) (hstop : a + step * n = stop)
    (hborder : stop < border)
    (hbody : ∀ i s, i < n → P i s → ∃ s', body (a + step * i) s = .ok s' ∧ P (i + 1) s') :
    ∀ {fuel i : Nat} {s : σ}, i ≤ n → n - i < fuel → P i s →
      ∃ s', strideFrom step border body stop fuel (a + step * i) s = .ok s' ∧ P n s' := by
  intro fuel
  induction fuel with
  | zero =>
    intro i s _ hfuel _
    omega
  | succ fuel ih =>
    intro i s hi hfuel hs
    rw [strideFrom]
    by_cases hn : i = n
    · rw [hn, hstop, if_neg (Nat.lt_irrefl stop)]
      exact ⟨s, rfl, hn ▸ hs⟩
    · have hlt : i < n := by omega
      obtain ⟨s1, hround, hs1⟩ := hbody i s hlt hs
      rw [if_pos (stride_lt hstep hstop hlt), hround, ok_bind, stride_next hstop hborder hlt]
      exact ih hlt (by omega) hs1

end Peos2.Lib
