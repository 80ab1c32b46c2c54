/-
  Support.PoolCopy — what the implicitly generated copy of a `p2::fixed_pool` refers to
  (`libraries/support/pool.h`).

  A `fixed_pool` object is a header and its own array `_data`. The header reaches the
  storage through `_data_begin` and `_data_end`, which the constructor points at `_data`.
  The copy that C++ generates takes the header field by field and the array byte by byte,
  so it has the bytes of the original in its own block and the pointers of the original in
  its header.

  `view` is the pool an object gives access to: its header over the block it points at.

  Main results: the copy never refers to its own storage, and is never independent of the
  original (`copy_never_independent`); two runs in which one is seen through the other
  (`copy_writes_original`).
-/
import Peos2.Support.PoolMap

namespace Peos2.Support

open Peos2.Lib List

/-- The blocks of storage, each an array of nodes. -/
abbrev Blocks (α : Type) := Nat → Nat → Node α

/-- The fields of class `pool`; `dataBegin` is the block that `_data_begin`
and `_data_end` delimit. -/
structure Header where
  dataBegin : Nat
  watermark : Nat
  freeListHead : Nat
  freeListTail : Nat
  count : Nat

/-- A `fixed_pool` in memory; `own` is the block of its array `_data`. -/
structure Object (α : Type) (capacity endSentinel : Nat) where
  header : Header
  own : Nat

namespace Object

variable {α : Type} {capacity endSentinel : Nat}

/-! ## Objects, calls and copies -/

def view (o : Object α capacity endSentinel) (blocks : Blocks α) : Pool α capacity endSentinel :=
  ⟨blocks o.header.dataBegin, o.header.watermark, o.header.freeListHead, o.header.freeListTail,
    o.header.count⟩

/-- The object after its header was brought to the fields of `p`. -/
def adopt (o : Object α capacity endSentinel) (p : Pool α capacity endSentinel) :
    Object α capacity endSentinel :=
  ⟨⟨o.header.dataBegin, p.watermark, p.freeListHead, p.freeListTail, p.count⟩, o.own⟩

/-- `fixed_pool()`, at block `own`. -/
def construct (own : Nat) : Object α capacity endSentinel :=
  ⟨⟨own, 0, endSentinel, endSentinel, 0⟩, own⟩

/-- A call on an object: it reads and writes the block its header points at. -/
def call (o : Object α capacity endSentinel) (c : Pool.Call α) (blocks : Blocks α) :
    Checked (Option Nat × Blocks α × Object α capacity endSentinel) := do
  let (r, p) ← (o.view blocks).apply c
  .ok (r, storeAt blocks o.header.dataBegin p.nodes, o.adopt p)

/-- The implicitly generated copy, at block `own`: the header. -/
def copy (o : Object α capacity endSentinel) (own : Nat) : Object α capacity endSentinel :=
  ⟨o.header, own⟩

/-- The implicitly generated copy, at block `own`: the bytes of `_data`. -/
def copyData (o : Object α capacity endSentinel) (own : Nat) (blocks : Blocks α) : Blocks α :=
  storeAt blocks own (blocks o.own)

/-- The references of the object point to its own storage. -/
def RefersToOwn (o : Object α capacity endSentinel) : Prop := o.header.dataBegin = o.own

/-- Which of two objects a call is made on. -/
inductive Side where
  | original
  | copy

/-- Calls on an object and on its copy, in the order in which they are made. -/
def calls (p q : Object α capacity endSentinel) : List (Side × Pool.Call α) → Blocks α →
    Checked (List (Option Nat) × Blocks α × Object α capacity endSentinel
      × Object α capacity endSentinel)
  | [], blocks => .ok ([], blocks, p, q)
  | (.original, c) :: cs, blocks => do
      let (r, blocks, p) ← p.call c blocks
      let (rs, after) ← p.calls q cs blocks
      .ok (r :: rs, after)
  | (.copy, c) :: cs, blocks => do
      let (r, blocks, q) ← q.call c blocks
      let (rs, after) ← p.calls q cs blocks
      .ok (r :: rs, after)

end Object

namespace Pool

variable {α : Type} {capacity endSentinel : Nat}

/-- The same calls on two pools that have nothing in common. -/
def applyBoth (p q : Pool α capacity endSentinel) : List (Object.Side × Call α) →
    Checked (List (Option Nat) × Pool α capacity endSentinel × Pool α capacity endSentinel)
  | [] => .ok ([], p, q)
  | (.original, c) :: cs => do
      let (r, p) ← p.apply c
      let (rs, after) ← p.applyBoth q cs
      .ok (r :: rs, after)
  | (.copy, c) :: cs => do
      let (r, q) ← q.apply c
      let (rs, after) ← p.applyBoth q cs
      .ok (r :: rs, after)

/-- The two pools answer every question alike. -/
structure SameReads (p p' : Pool α capacity endSentinel) : Prop where
  valid : ∀ i, p'.valid i = p.valid i
  get : ∀ i, p'.get i = p.get i
  size : p'.size = p.size
  indices : p'.indices = p.indices

end Pool

namespace Object

variable {α : Type} {capacity endSentinel : Nat}

/-- Whatever is called on the two, in whatever order, they act as two separate pools with the
contents of `p`: if the calls go through there, they go through here, return the same, and
leave both objects with the same to read. -/
def Independent (p q : Object α capacity endSentinel) (blocks : Blocks α) : Prop :=
  ∀ cs rs p₁ q₁, (p.view blocks).applyBoth (p.view blocks) cs = .ok (rs, p₁, q₁) →
    ∃ blocks' p' q', p.calls q cs blocks = .ok (rs, blocks', p', q') ∧
      p₁.SameReads (p'.view blocks') ∧ q₁.SameReads (q'.view blocks')

/-! ## The copy -/

/-- Making the copy leaves the original as it is. -/
theorem view_copyData {p : Object α capacity endSentinel} {own : Nat}
    (hown : own ≠ p.header.dataBegin) (blocks : Blocks α) :
    p.view (p.copyData own blocks) = p.view blocks := by
  have hblock : p.copyData own blocks p.header.dataBegin = blocks p.header.dataBegin :=
    storeAt_ne _ _ (Ne.symm hown)
  unfold view
  rw [hblock]

/-- Two objects over one block are not independent: one stores `v` in slot 0, the other then
stores `w` there, and the first does not read `v`. -/
theorem not_independent {p q : Object α capacity endSentinel} {blocks : Blocks α}
    (hshare : p.header.dataBegin = q.header.dataBegin) (hwf : (p.view blocks).WF)
    (hcap : 0 < capacity) {v w : α} (hvw : v ≠ w) : ¬ p.Independent q blocks := by
  intro hind
  -- on separate pools both calls go through
  obtain ⟨q₁, hputq, _, hlookq⟩ := Pool.emplace_spec hwf hcap v
  obtain ⟨p₁, hputp, _, _⟩ := Pool.emplace_spec hwf hcap w
  have happart : (p.view blocks).applyBoth (p.view blocks)
      [(.copy, .emplace 0 v), (.original, .emplace 0 w)] = .ok ([none, none], p₁, q₁) := by
    simp only [Pool.applyBoth, Pool.apply, hputq, hputp, ok_bind]
  obtain ⟨blocks', p', q', hcalls, _, hreads⟩ := hind _ _ _ _ happart
  have hget : (q'.view blocks').get 0 = .ok v := by
    rw [hreads.get]
    exact Pool.get_spec ((hlookq 0).trans (if_pos rfl))
  -- here the second call writes the slot that the first has written
  obtain ⟨⟨r, blocks1, q1⟩, hcopy, hcalls⟩ := bind_ok.mp hcalls
  obtain ⟨⟨r1, q2⟩, _, hcopy⟩ := bind_ok.mp hcopy
  cases hcopy
  obtain ⟨⟨rs, blocks2, p2, q3⟩, hrest, hcalls⟩ := bind_ok.mp hcalls
  cases hcalls
  obtain ⟨⟨r2, blocks3, p3⟩, horiginal, hrest⟩ := bind_ok.mp hrest
  obtain ⟨⟨r3, p4⟩, happly, horiginal⟩ := bind_ok.mp horiginal
  cases horiginal
  obtain ⟨p5, hput, happly⟩ := bind_ok.mp happly
  cases happly
  cases hrest
  have hvalue := Pool.get_value hget
  have hnodes : (view (q.adopt q2) (storeAt (storeAt blocks q.header.dataBegin q2.nodes)
      p.header.dataBegin p4.nodes)).nodes = p4.nodes := by
    show storeAt _ p.header.dataBegin p4.nodes q.header.dataBegin = p4.nodes
    rw [hshare, storeAt_self]
  rw [hnodes, Pool.value_of_emplace hput] at hvalue
  exact hvw (Option.some.inj hvalue).symm

/-- **The copy never refers to its own storage**, and is never independent of the original,
whatever that holds, if there is a slot and two values to tell apart. -/
theorem copy_never_independent {p : Object α capacity endSentinel} {blocks : Blocks α} {own : Nat}
    (hp : p.RefersToOwn) (hwf : (p.view blocks).WF) (hown : own ≠ p.own) :
    ¬ (p.copy own).RefersToOwn
      ∧ (0 < capacity → (∃ v w : α, v ≠ w) →
        ¬ p.Independent (p.copy own) (p.copyData own blocks)) := by
  have hother : own ≠ p.header.dataBegin := by
    rw [hp]
    exact hown
  refine ⟨fun hc => hother hc.symm, ?_⟩
  rintro hcap ⟨v, w, hvw⟩
  exact not_independent rfl (by rw [view_copyData hother]; exact hwf) hcap hvw

/-- A pool of four slots that holds 5 in slot 0, over storage that was blank. -/
def holdsFive : Object Nat 4 65535 := ⟨⟨0, 1, 65535, 65535, 1⟩, 0⟩

def fiveStored : Blocks Nat :=
  storeAt (fun _ _ => ⟨65535, 65535, none⟩) 0 (storeAt (fun _ => ⟨65535, 65535, none⟩) 0
    ⟨65535, 65535, some 5⟩)

theorem copy_never_independent_five : ¬ (holdsFive.copy 1).RefersToOwn
    ∧ ¬ holdsFive.Independent (holdsFive.copy 1) (holdsFive.copyData 1 fiveStored) := by
  have hwf : (holdsFive.view fiveStored).WF := by
    obtain ⟨i, p', hput, hwf, _⟩ := Pool.emplaceAnywhere_spec
      (@Pool.blank_wf Nat 4 65535 (by decide)) rfl 5
    cases hput
    exact hwf
  obtain ⟨hrefers, hindep⟩ := @copy_never_independent _ _ _ holdsFive _ 1 rfl hwf (by decide)
  exact ⟨hrefers, hindep (by decide) ⟨0, 1, by decide⟩⟩

/-- **One is seen through the other.**  A pool holds 5 in slot 0, its copy stores 9 there,
and the pool then reads 9. An empty pool and its copy store 5 and 7, and the copy reads 7
where it stored 5. -/
theorem copy_writes_original :
    (construct 0 : Object Nat 4 65535).call (.emplaceAnywhere 5) (fun _ _ => ⟨65535, 65535, none⟩)
        = .ok (some 0, fiveStored, holdsFive)
      ∧ (holdsFive.view (holdsFive.copyData 1 fiveStored)).get 0 = .ok 5
      ∧ (∃ blocks q, holdsFive.calls (holdsFive.copy 1) [(.copy, .emplace 0 9)]
          (holdsFive.copyData 1 fiveStored) = .ok ([none], blocks, holdsFive, q)
        ∧ (holdsFive.view blocks).get 0 = .ok 9)
      ∧ ∃ blocks p q, (construct 0 : Object Nat 4 65535).calls (copy (construct 0) 1)
          [(.copy, .emplaceAnywhere 5), (.original, .emplaceAnywhere 7)]
          (copyData (construct 0 : Object Nat 4 65535) 1 fun _ _ => ⟨65535, 65535, none⟩)
            = .ok ([some 0, some 0], blocks, p, q)
        ∧ (q.view blocks).get 0 = .ok 7 :=
  ⟨rfl, rfl, ⟨_, _, rfl, rfl⟩, _, _, _, rfl, rfl⟩

end Object

end Peos2.Support
