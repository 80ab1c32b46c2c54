/-
  Kernel.Printing — a text printed in one call or in two.

  A character behind the last cell scrolls the screen, and what the last row held is
  cleared at the end of the call only. A newline in the same call moves that text up
  and keeps it; in a call of its own it finds the row cleared.

  Main results: `print_chunks`, `newline_keeps_row`.
-/
import Peos2.Kernel.Screen

namespace Peos2.Kernel.Buffer

open Peos2.Lib Peos2.Support MemRange

variable {b : Buffer} {c : UInt8} {s t : List UInt8} {x y : Buffer × Bool}

/-! ## The whole and the second call -/

/-- The position behind a character that is printed at `p`. -/
def moved (p : Int) (c : UInt8) : Int :=
  if c = 0x08 then if p > 0 then p - 1 else p
  else if c = 0x0A then if nextRow p ≥ 2000 then nextRow p - 80 else nextRow p
  else if p ≥ 2000 then p - 80 + 1
  else p + 1

/-- From position `p` on, some character of the text is printed behind the last cell. -/
def Scrolls : Int → List UInt8 → Prop
  | _, [] => False
  | p, c :: t => (c ≠ 0x08 ∧ c ≠ 0x0A ∧ p ≥ 2000) ∨ Scrolls (moved p c) t

/-- From position `p` on, no newline comes in the last row before a character is printed behind
the last cell. -/
def Clean : Int → List UInt8 → Prop
  | _, [] => True
  | p, c :: t => (c ≠ 0x08 ∧ c ≠ 0x0A ∧ p ≥ 2000) ∨
      (¬ (c = 0x0A ∧ 1920 ≤ p ∧ p < 2000) ∧ Clean (moved p c) t)

theorem printed_text (hs : 0 ∉ s) : printed (s ++ [0]) (-1) = .ok s := by
  induction s with
  | nil => rfl
  | cons c s ih =>
    obtain ⟨hc, hs⟩ := not_or.mp (mt List.mem_cons.mpr hs)
    rw [List.cons_append, printed, if_neg (by simp [Ne.symm hc]), if_pos rfl, ih hs]
    rfl

theorem print_text (hin : b.Within) (hs : 0 ∉ s) :
    b.print (s ++ [0]) (-1) = .ok (ended (s.foldl step (b, false))) := by
  rw [print_eq hin, printed_text hs]
  rfl

theorem position_moved : (step x c).1.position = moved x.1.position c := by
  unfold step moved
  grind

theorem position_foldl : (s.foldl step x).1.position = s.foldl moved x.1.position := by
  induction s generalizing x with
  | nil => rfl
  | cons c s ih =>
    rw [List.foldl_cons, List.foldl_cons, ih, position_moved]

theorem flag_foldl : (s.foldl step x).2 = true ↔ x.2 = true ∨ Scrolls x.1.position s := by
  induction s generalizing x with
  | nil => simp [Scrolls]
  | cons c s ih =>
    rw [List.foldl_cons, ih, position_moved, flag_step, Scrolls]
    simp only [Bool.or_eq_true, decide_eq_true_eq]
    exact or_assoc

/-- If the rest is to be cleared, then above the last row it is clear. -/
def Swept (x : Buffer × Bool) : Prop :=
  x.2 = true → ∀ i, x.1.position ≤ i → i < 1920 → x.1.cells i = blankEntry

theorem Swept.step (h : Swept x) (hin : x.1.Within) : Swept (step x c) := by
  obtain ⟨h0, hle⟩ := hin
  have := nextRow_bounds h0
  unfold Swept Buffer.step store at *
  grind

theorem Swept.foldl (h : Swept x) (hin : x.1.Within) : Swept (s.foldl Buffer.step x) := by
  induction s generalizing x with
  | nil => exact h
  | cons c s ih => exact ih (h.step hin) (within_step hin)

/-- The call that prints all and the second of two calls: they do the same, or the first is
still to clear what differs, in the last row behind the cursor. -/
structure Related (x y : Buffer × Bool) : Prop where
  position : x.1.position = y.1.position
  cells : (x.2 = y.2 ∧ Same x.1 y.1) ∨
    (x.2 = true ∧ y.2 = false ∧
      (∀ i, 0 ≤ i → i < 2000 → i < x.1.position ∨ i < 1920 → x.1.cells i = y.1.cells i) ∧
      ∀ i, x.1.position ≤ i → i < 2000 → y.1.cells i = blankEntry)

theorem Related.step (h : Related x y) (hin : x.1.Within)
    (hclean : ¬ (y.2 = false ∧ c = 0x0A ∧ 1920 ≤ y.1.position ∧ y.1.position < 2000)) :
    Related (step x c) (step y c) := by
  obtain ⟨hpos, hcells⟩ := h
  refine ⟨position_step hpos, ?_⟩
  have hrow := nextRow_bounds hin.1
  have hle := hin.2
  rw [← hpos] at hclean
  rw [flag_step, flag_step, ← hpos]
  rcases hcells with ⟨hflag, hsame⟩ | ⟨hx, hy, hbefore, hclear⟩
  · exact .inl ⟨by rw [hflag], cells_step hsame, position_step hpos⟩
  by_cases hfull : x.1.position = 2000
  · -- nothing is behind the cursor
    have hsame := @cells_step x y c ⟨fun i hlow hhigh =>
      hbefore i hlow hhigh (.inl (hfull ▸ hhigh)), hpos⟩
    by_cases hchar : c ≠ 0x08 ∧ c ≠ 0x0A
    · exact .inl ⟨by simp [hchar, hfull], hsame, position_step hpos⟩
    · refine .inr ⟨by simp [hx], by simp [hy]; grind, fun i hlow hhigh _ => hsame i hlow hhigh, ?_⟩
      have : nextRow 2000 = 2080 := by decide
      unfold Buffer.step store
      grind
  · right
    unfold Buffer.step store
    grind

theorem Related.run (h : Related x y) (hin : x.1.Within)
    (hclean : y.2 = true ∨ Clean y.1.position t) :
    Related (t.foldl Buffer.step x) (t.foldl Buffer.step y) := by
  induction t generalizing x y with
  | nil => exact h
  | cons c t ih =>
    refine ih (h.step hin ?_) (within_step hin) ?_
    · unfold Clean at hclean
      grind
    · rw [flag_step, position_moved]
      unfold Clean at hclean
      grind

theorem Swept.related (h : Swept x) : Related x (ended x, false) := by
  unfold Swept at h
  refine ⟨position_ended.symm, ?_⟩
  cases hflag : x.2 with
  | true =>
    right
    unfold ended cleared
    grind
  | false =>
    refine .inl ⟨rfl, ?_⟩
    rw [show ended x = x.1 from if_neg (by simp [hflag])]
    exact same_refl x.1

theorem Related.ended (h : Related x y) {i : Int} (hlow : 0 ≤ i) (hhigh : i < 2000) :
    (ended x).cells i = (ended y).cells i := by
  obtain ⟨hpos, ⟨hflag, hsame⟩ | hpending⟩ := h
  · exact (ended_same hsame hflag).cells i hlow hhigh
  · unfold Buffer.ended cleared
    grind

/-! ## One call or two -/

/-- **A text printed in two calls is the text printed in one**, if its first part scrolls nothing,
or no newline of the second comes while the last row is to be cleared. The cursor ends at the
same place in any case. -/
theorem print_chunks (hin : b.Within) (hs : 0 ∉ s) (ht : 0 ∉ t) : ∃ whole first second,
    b.print (s ++ t ++ [0]) (-1) = .ok whole ∧ b.print (s ++ [0]) (-1) = .ok first ∧
    first.print (t ++ [0]) (-1) = .ok second ∧ whole.Within ∧ first.Within ∧ second.Within ∧
    whole.position = second.position ∧
    ((Scrolls b.position s → Clean (s.foldl moved b.position) t) →
      ∀ i, 0 ≤ i → i < 2000 → whole.cells i = second.cells i) := by
  have hst : 0 ∉ s ++ t := by simp [hs, ht]
  have hin1 : (s.foldl step (b, false)).1.Within := within_foldl hin
  have hfirst := within_ended hin1
  refine ⟨_, _, _, print_text hin hst, print_text hin hs, print_text hfirst ht,
    within_ended (within_foldl hin), hfirst, within_ended (within_foldl hfirst), ?_, ?_⟩
  · simp only [List.foldl_append, position_ended, position_foldl]
  · intro hclean i hlow hhigh
    rw [List.foldl_append]
    have hswept : Swept (s.foldl step (b, false)) := Swept.foldl (by simp [Swept]) hin
    cases hflag : (s.foldl step (b, false)).2 with
    | true =>
      have hscrolls := (flag_foldl.mp hflag).resolve_left (by simp)
      refine (hswept.related.run hin1 (.inr ?_)).ended hlow hhigh
      rw [position_ended, position_foldl]
      exact hclean hscrolls
    | false =>
      -- nothing is left for the end of the first call
      have hsame : (ended (s.foldl step (b, false)), false) = s.foldl step (b, false) :=
        Prod.ext (if_neg (by simp [hflag])) hflag.symm
      rw [hsame]

def crowded : Buffer := ⟨fun _ => plain 0x78, 2000⟩

theorem print_chunks_space : ∃ whole first second,
    crowded.print [0x79, 0x20, 0] (-1) = .ok whole ∧ crowded.print [0x79, 0] (-1) = .ok first ∧
    first.print [0x20, 0] (-1) = .ok second ∧ whole.cells 1999 = second.cells 1999 := by
  obtain ⟨whole, first, second, hwhole, hfirst, hsecond, _, _, _, _, hcells⟩ :=
    @print_chunks crowded [0x79] [0x20] ⟨by decide, by decide⟩ (by decide) (by decide)
  exact ⟨whole, first, second, hwhole, hfirst, hsecond,
    hcells (fun _ => .inr ⟨by decide, trivial⟩) 1999 (by decide) (by decide)⟩

/-- **A letter and a newline** printed at once leave the rest of the old row on the
screen; the newline printed later does not. -/
theorem newline_keeps_row : ∃ whole first second,
    crowded.print [0x79, 0x0A, 0] (-1) = .ok whole ∧ crowded.print [0x79, 0] (-1) = .ok first ∧
    first.print [0x0A, 0] (-1) = .ok second ∧ whole.cells 1841 ≠ second.cells 1841 := by
  have hin : crowded.Within := ⟨by decide, by decide⟩
  refine ⟨_, _, _, @print_text _ [0x79, 0x0A] hin (by decide), @print_text _ [0x79] hin (by decide),
    @print_text _ [0x0A] (within_ended (within_foldl hin)) (by decide), ?_⟩
  decide

end Peos2.Kernel.Buffer
