/-
  Support.MemRange — `p2::mem_range` (`libraries/support/mem_range.h`).

  A range does not own its memory, so the memory is an argument of its
  functions. Addresses count elements. Only the elements inside a range can be
  read or written through it: memories that agree there stay so.
-/
import Peos2.Lib.Checked
import Peos2.Lib.Word

namespace Peos2.Support

open Peos2.Lib

abbrev Memory (α : Type) := Int → α

/-- `p2::mem_range<T>` -/
structure MemRange where
  start : Int
  stop : Int
  deriving Repr, DecidableEq

namespace MemRange

variable {α : Type}

/-! ## The class -/

/-- `*pos = value` -/
def store (m : Memory α) (pos : Int) (value : α) : Memory α :=
  fun i => if i = pos then value else m i

/-- The loop of `fill` with `n` elements to go. -/
def fillFrom (value : α) : Nat → Int → Memory α → Memory α
  | 0, _, m => m
  | n + 1, pos, m => fillFrom value n (pos + 1) (store m pos value)

/-- `void fill(T value) const` -/
def fill (r : MemRange) (value : α) (m : Memory α) : Memory α :=
  fillFrom value (r.stop - r.start).toNat r.start m

/-- `size_t size() const` -/
def size (r : MemRange) : UInt32 := unsigned (r.stop - r.start)

/-- The assertion of `operator []`. -/
def within (r : MemRange) (idx : Int) : Bool :=
  decide (r.start + idx ≥ r.start) && decide (r.start + idx < r.stop)

/-- `T &operator [](int idx) const`, read. -/
def get (r : MemRange) (m : Memory α) (idx : Int) : Checked α := do
  check (r.within idx) "start + idx >= start && start + idx < end && \"idx is within bounds\""
  .ok (m (r.start + idx))

/-- `T &operator [](int idx)`, assigned through. -/
def set (r : MemRange) (m : Memory α) (idx : Int) (value : α) : Checked (Memory α) := do
  check (r.within idx) "start + idx >= start && start + idx < end && \"idx is within bounds\""
  .ok (store m (r.start + idx) value)

/-- `mem_range subrange(int substart, int length) const`; the default for `length`
is -1. -/
def subrange (r : MemRange) (substart length : Int) : MemRange :=
  let length := if length = -1 then r.stop - r.start - substart else length
  ⟨r.start + substart, r.start + substart + length⟩

/-- The loop of `assign_overlap` with `n` elements to go, when `read` reads the
other range. -/
def assignFrom (r : MemRange) (read : Memory α → Int → Checked α) :
    Nat → Int → Memory α → Checked (Memory α)
  | 0, _, m => .ok m
  | n + 1, i, m => do
      let value ← read m i
      let m ← r.set m i value
      assignFrom r read n (i + 1) m

/-- `void assign_overlap(const mem_range<T> &rhs) const`, with both ranges in one
memory. -/
def assignOverlap (r rhs : MemRange) (m : Memory α) : Checked (Memory α) :=
  r.assignFrom (fun m i => rhs.get m i) (min r.size rhs.size).toNat 0 m

/-- `void assign_disjunct(const mem_range<T> &rhs) const`, with `rhs` in a memory of
its own. -/
def assignDisjunct (r rhs : MemRange) (m other : Memory α) : Checked (Memory α) :=
  r.assignFrom (fun _ i => rhs.get other i) (min r.size rhs.size).toNat 0 m

/-! ## Memories that agree -/

def Agree (r : MemRange) (m m' : Memory α) : Prop :=
  ∀ i, r.start ≤ i → i < r.stop → m i = m' i

variable {r dst src : MemRange} {m m' other : Memory α}

variable {idx : Int}

theorem within_iff : r.within idx = true ↔ 0 ≤ idx ∧ r.start + idx < r.stop := by
  unfold within
  rw [Bool.and_eq_true, decide_eq_true_eq, decide_eq_true_eq]
  omega

theorem get_spec (h0 : 0 ≤ idx) (hlt : r.start + idx < r.stop) :
    r.get m idx = .ok (m (r.start + idx)) := by
  rw [get, within_iff.mpr ⟨h0, hlt⟩, check_true, ok_bind]

theorem set_spec (h0 : 0 ≤ idx) (hlt : r.start + idx < r.stop) (value : α) :
    r.set m idx value = .ok (store m (r.start + idx) value) := by
  rw [set, within_iff.mpr ⟨h0, hlt⟩, check_true, ok_bind]

theorem fillFrom_eq (value : α) (n : Nat) : ∀ (pos : Int) (m : Memory α) (i : Int),
    fillFrom value n pos m i = if pos ≤ i ∧ i < pos + n then value else m i := by
  induction n with
  | zero =>
    intro pos m i
    exact (if_neg (by omega)).symm
  | succ n ih =>
    intro pos m i
    rw [fillFrom, ih, store]
    grind

theorem assignFrom_down {k : Int} (hk : src.start = dst.start + k) (h0 : 0 ≤ k) (n : Nat) :
    ∀ {i : Int} {m : Memory α}, 0 ≤ i → dst.start + i + n ≤ dst.stop → src.start + i + n ≤ src.stop →
    dst.assignFrom (fun m i => src.get m i) n i m = .ok (fun j =>
      if dst.start + i ≤ j ∧ j < dst.start + i + n then m (j + k) else m j) := by
  induction n with
  | zero =>
    intro i m _ _ _
    exact congrArg _ (funext fun j => (if_neg (by omega)).symm)
  | succ n ih =>
    intro i m hi hdst hsrc
    rw [assignFrom, get_spec hi (by omega), ok_bind, set_spec hi (by omega), ok_bind,
      ih (by omega) (by omega) (by omega)]
    refine congrArg _ (funext fun j => ?_)
    unfold store
    grind

theorem toNat_size (hle : r.start ≤ r.stop) (hsmall : r.stop - r.start < 4294967296) :
    (r.size.toNat : Int) = r.stop - r.start := by
  rw [size, toNat_unsigned_of_nonneg (by omega) hsmall]
  omega

theorem assignFrom_copies (n : Nat) : ∀ {i : Int} {m : Memory α}, 0 ≤ i →
    r.start + i + n ≤ r.stop → (∀ j, r.start ≤ j → j < r.start + i → m j = other j) →
    ∃ m1, r.assignFrom (fun _ i => r.get other i) n i m = .ok m1 ∧
      ∀ j, r.start ≤ j → j < r.start + i + n → m1 j = other j := by
  induction n with
  | zero =>
    intro i m _ _ hdone
    exact ⟨m, rfl, fun j hlow hhigh => hdone j hlow (by omega)⟩
  | succ n ih =>
    intro i m h0 hroom hdone
    obtain ⟨m1, hm, hcopied⟩ := @ih (i + 1)
      (MemRange.store m (r.start + i) (other (r.start + i))) (by omega) (by omega) (by
        intro j hlow hhigh
        unfold MemRange.store
        split
        · next heq => rw [heq]
        · exact hdone j hlow (by omega))
    refine ⟨m1, ?_, fun j hlow hhigh => hcopied j hlow (by omega)⟩
    rw [assignFrom, get_spec h0 (by omega), ok_bind, set_spec h0 (by omega), ok_bind]
    exact hm

theorem assignDisjunct_spec (hle : r.start ≤ r.stop) (hsmall : r.stop - r.start < 4294967296) :
    ∃ m1, r.assignDisjunct r m other = .ok m1 ∧ r.Agree m1 other := by
  have hsize := toNat_size hle hsmall
  have hmin : min r.size r.size = r.size := Std.min_self
  obtain ⟨m1, hm, hcopied⟩ := @assignFrom_copies _ r other r.size.toNat 0 m (Int.le_refl 0)
    (by omega) (fun j hlow hhigh => absurd hhigh (by omega))
  refine ⟨m1, ?_, fun i hlow hhigh => hcopied i hlow (by omega)⟩
  rw [assignDisjunct, hmin]
  exact hm

end MemRange

end Peos2.Support
