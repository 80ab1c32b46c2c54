/-
  Lib.Tiling — pieces laid out along a line.

  A piece starts at a number and has a length. `Spaced lo l hi` says that
  the pieces of `l` lie between `lo` and `hi`, in order and without overlap;
  `Tiles lo l hi` says that they also leave no gap.
-/
import Mathlib.Algebra.GroupWithZero.Nat

namespace Peos2.Lib

variable {α : Type}

/-- The pieces lie between `lo` and `hi`, in order and without overlap. -/
def Spaced (start len : α → Nat) : Nat → List α → Nat → Prop
  | lo, [], hi => lo ≤ hi
  | lo, s :: l, hi => lo ≤ start s ∧ Spaced start len (start s + len s) l hi

/-- The pieces cover the numbers from `lo` up to `hi`, each once. -/
def Tiles (start len : α → Nat) : Nat → List α → Nat → Prop
  | lo, [], hi => lo = hi
  | lo, s :: l, hi => start s = lo ∧ Tiles start len (lo + len s) l hi

/-- Behind the last piece, or `lo` if there is none. -/
def lastEnd (start len : α → Nat) (lo : Nat) (l : List α) : Nat :=
  match l.getLast? with
  | none => lo
  | some s => start s + len s

variable {start len : α → Nat}

/-! ## Pieces in order -/

variable {l : List α} {hi lo : Nat} {s : α}

section

variable (h : Spaced start len lo l hi)

include h

theorem Spaced.le : lo ≤ hi := by
  induction l generalizing lo with
  | nil => exact h
  | cons s l ih =>
    obtain ⟨_, h2⟩ := h
    have := ih h2
    omega

theorem Spaced.mem (hs : s ∈ l) :
    lo ≤ start s ∧ start s + len s ≤ hi := by
  induction l generalizing lo with
  | nil => simp at hs
  | cons t l ih =>
    obtain ⟨h1, h2⟩ := h
    rcases List.mem_cons.mp hs with rfl | hs
    · exact ⟨h1, h2.le⟩
    · have := ih h2 hs
      omega

theorem Spaced.concat {hi' : Nat} (hs : hi ≤ start s)
    (he : start s + len s ≤ hi') : Spaced start len lo (l ++ [s]) hi' := by
  induction l generalizing lo with
  | nil => exact ⟨Nat.le_trans h hs, he⟩
  | cons t l ih => exact ⟨h.1, ih h.2⟩

theorem Spaced.mono {hi' : Nat} (hle : hi ≤ hi') :
    Spaced start len lo l hi' := by
  induction l generalizing lo with
  | nil => exact Nat.le_trans h hle
  | cons t l ih => exact ⟨h.1, ih h.2⟩

theorem Spaced.drop (n : Nat) :
    ∃ lo', Spaced start len lo' (l.drop n) hi := by
  induction n generalizing lo l with
  | zero => exact ⟨lo, h⟩
  | succ n ih =>
    cases l with
    | nil => exact ⟨lo, h⟩
    | cons t l => exact ih h.2

theorem Spaced.shift {start' : α → Nat} {k : Nat} (hk : k ≤ lo)
    (hs : ∀ s ∈ l, start' s + k = start s) : Spaced start' len (lo - k) l (hi - k) := by
  induction l generalizing lo with
  | nil =>
    have : lo ≤ hi := h
    show lo - k ≤ hi - k
    omega
  | cons t l ih =>
    obtain ⟨_, h2⟩ := h
    have ht := hs t (by simp)
    have := ih h2 (by omega) (fun s hsl => hs s (by simp [hsl]))
    rw [show start t + len t - k = start' t + len t by omega] at this
    exact ⟨by omega, this⟩

theorem Spaced.raise {start' : α → Nat} {k : Nat}
    (hs : ∀ s ∈ l, start' s = k + start s) : Spaced start' len (k + lo) l (k + hi) := by
  induction l generalizing lo with
  | nil => exact Nat.add_le_add_left h k
  | cons t l ih =>
    obtain ⟨_, h2⟩ := h
    have ht := hs t (by simp)
    have := ih h2 (fun s hsl => hs s (by simp [hsl]))
    rw [← Nat.add_assoc, ← ht] at this
    exact ⟨by omega, this⟩

end

theorem lastEnd_cons : lastEnd start len lo (s :: l) = lastEnd start len (start s + len s) l := by
  unfold lastEnd
  cases l with
  | nil => rfl
  | cons t l => rw [List.getLast?_cons_cons, List.getLast?_cons]

theorem Spaced.le_lastEnd (h : Spaced start len lo l hi) : lo ≤ lastEnd start len lo l := by
  induction l generalizing lo with
  | nil => exact Nat.le_refl _
  | cons t l ih =>
    have := ih h.2
    have := h.1
    rw [lastEnd_cons]
    omega

theorem Spaced.lastEnd_take_le (h : Spaced start len lo l hi) (n : Nat) :
    lastEnd start len lo (l.take n) ≤ lastEnd start len lo l := by
  induction n generalizing lo l with
  | zero => exact h.le_lastEnd
  | succ n ih =>
    cases l with
    | nil => exact Nat.le_refl _
    | cons t l =>
      rw [List.take_succ_cons, lastEnd_cons, lastEnd_cons]
      exact ih h.2

/-! ## Tilings -/

theorem tiles_append {l' : List α} :
    Tiles start len lo (l ++ l') hi ↔
      ∃ mid, Tiles start len lo l mid ∧ Tiles start len mid l' hi := by
  induction l generalizing lo with
  | nil =>
    constructor
    · exact fun h => ⟨lo, rfl, h⟩
    · rintro ⟨mid, rfl, h⟩
      exact h
  | cons t l ih =>
    constructor
    · rintro ⟨h1, h2⟩
      obtain ⟨mid, hl, hr⟩ := ih.mp h2
      exact ⟨mid, ⟨h1, hl⟩, hr⟩
    · rintro ⟨mid, ⟨h1, h2⟩, hr⟩
      exact ⟨h1, ih.mpr ⟨mid, h2, hr⟩⟩

theorem Tiles.concat (h : Tiles start len lo l hi) (hs : start s = hi) :
    Tiles start len lo (l ++ [s]) (hi + len s) :=
  tiles_append.mpr ⟨hi, h, hs, rfl⟩

theorem Tiles.end_eq (h : Tiles start len lo l hi) : hi = lastEnd start len lo l := by
  unfold lastEnd
  rcases List.eq_nil_or_concat l with rfl | ⟨l', s, rfl⟩
  · exact Eq.symm h
  · rw [List.concat_eq_append] at h ⊢
    obtain ⟨mid, _, hs, hhi⟩ := tiles_append.mp h
    rw [List.getLast?_concat]
    show hi = start s + len s
    rw [← hhi, hs]

theorem Tiles.add_sum (h : Tiles start len lo l hi) : lo + (l.map len).sum = hi := by
  induction l generalizing lo with
  | nil => exact h
  | cons t l ih =>
    have := ih h.2
    rw [List.map_cons, List.sum_cons]
    omega

theorem tiles_map {β : Type} {f : β → α} {l : List β} :
    Tiles start len lo (l.map f) hi ↔ Tiles (fun b => start (f b)) (fun b => len (f b)) lo l hi := by
  induction l generalizing lo with
  | nil => exact Iff.rfl
  | cons t l ih => exact and_congr Iff.rfl ih

theorem Tiles.spaced (h : Tiles start len lo l hi) : Spaced start len lo l hi := by
  induction l generalizing lo with
  | nil => exact Nat.le_of_eq h
  | cons t l ih =>
    obtain ⟨h1, h2⟩ := h
    have := ih h2
    rw [← h1] at this
    exact ⟨Nat.le_of_eq h1.symm, this⟩

end Peos2.Lib
