/-
  Support.Queue — the bounded FIFO `p2::queue` (`libraries/support/queue.h`).

  The item of index `i` sits in slot `i % _MaxLen` of an array, and `normalize` takes
  whole turns off both `int` indices after a push. Every array access of the model is
  checked, so that an offset that leaves the array is a fault and not a silent wrap.

  `contents` is the abstract value, the list of queued items.

  Main result: `respectsBound_iff`.
-/
import Peos2.Lib.Checked
import Peos2.Lib.Cyclic
import Peos2.Lib.Overlay

namespace Peos2.Support

open Peos2.Lib List

/-- `p2::queue<T, _MaxLen>`. -/
structure Queue (α : Type) (maxLen : Nat) where
  /-- `T _items[_MaxLen]` -/
  items : Nat → α
  readIdx : Int
  writeIdx : Int

namespace Queue

variable {α : Type} {maxLen : Nat}

/-! ## The class -/

/-- `_items[i] = val`. -/
def store (q : Queue α maxLen) (i : Int) (val : α) : Checked (Queue α maxLen) :=
  if 0 ≤ i ∧ i < maxLen then .ok { q with items := storeAt q.items i.toNat val }
  else .error .outOfBounds

/-- `_items[i]`. -/
def load (q : Queue α maxLen) (i : Int) : Checked α :=
  if 0 ≤ i ∧ i < maxLen then .ok (q.items i.toNat) else .error .outOfBounds

/-- `a + b` on `int`. -/
def addInt (a b : Int) : Checked Int :=
  if -2147483648 ≤ a + b ∧ a + b < 2147483648 then .ok (a + b) else .error .overflow

/-- `int size() const` -/
def size (q : Queue α maxLen) : Int := q.writeIdx - q.readIdx

/-- `bool full() const` -/
def full (q : Queue α maxLen) : Bool := q.size == maxLen

/-- `int begin() const` -/
def begin (q : Queue α maxLen) : Int := q.readIdx

/-- `void normalize()`: take whole turns off both indices. -/
def normalize (q : Queue α maxLen) : Queue α maxLen :=
  let smallest := q.readIdx.tdiv maxLen
  { q with
    readIdx := q.readIdx - smallest * maxLen
    writeIdx := q.writeIdx - smallest * maxLen }

/-- `bool push_back(const T &val)`; false if the queue is full. -/
def pushBack (q : Queue α maxLen) (val : α) : Checked (Bool × Queue α maxLen) :=
  if q.writeIdx - q.readIdx ≥ maxLen then .ok (false, q)
  else do
    let q ← q.store (q.writeIdx.tmod maxLen) val
    .ok (true, normalize { q with writeIdx := q.writeIdx + 1 })

/-- The loop `while (_read_idx + offset >= _write_idx && push_back(T()));` of `replace`. A push
succeeds only below `_MaxLen` items, so the bound `replace` gives is enough. -/
def fill [Inhabited α] : Nat → Queue α maxLen → Int → Checked (Queue α maxLen)
  | 0, q, _ => .ok q
  | fuel + 1, q, offset => do
      let pos ← addInt q.readIdx offset
      if pos ≥ q.writeIdx then
        let (pushed, q) ← q.pushBack default
        if pushed then fill fuel q offset else .ok q
      else .ok q

/-- `bool replace(int offset, const T &val)` -/
def replace [Inhabited α] (q : Queue α maxLen) (offset : Int) (val : α) :
    Checked (Bool × Queue α maxLen) := do
  let q ← fill ((maxLen - q.size).toNat + 1) q offset
  let pos ← addInt q.readIdx offset
  if pos > q.writeIdx then .ok (false, q)
  else
    let q ← q.store (pos.tmod maxLen) val
    .ok (true, q)

/-- `T pop_front()`; not to be called on an empty queue. -/
def popFront (q : Queue α maxLen) : Checked (α × Queue α maxLen) := do
  let val ← q.load (q.readIdx.tmod maxLen)
  .ok (val, { q with readIdx := q.readIdx + 1 })

/-- `const T &front() const` -/
def front (q : Queue α maxLen) : Checked α := q.load (q.readIdx.tmod maxLen)

/-- `const T &operator [](int idx) const` -/
def index (q : Queue α maxLen) (idx : Int) : Checked α := q.load (idx.tmod maxLen)

/-- `void clear()` -/
def clear (q : Queue α maxLen) : Queue α maxLen := { q with readIdx := 0, writeIdx := 0 }

/-! ## Well-formedness and the abstract value -/

/-- The class invariant: `_write_idx` never falls behind `_read_idx`, at most
`_MaxLen` items lie between them, and `normalize` keeps both indices small. -/
structure WF (q : Queue α maxLen) : Prop where
  nonneg : 0 ≤ q.readIdx
  le : q.readIdx ≤ q.writeIdx
  bound : q.writeIdx - q.readIdx ≤ maxLen
  small : q.writeIdx ≤ 2 * maxLen

/-- A further push counts `_write_idx` up to two turns at most, before
`normalize` takes a turn off. -/
structure Compact (q : Queue α maxLen) : Prop extends WF q where
  inTurn : q.writeIdx ≤ ((2 * maxLen - 1 : Nat) : Int)

def contents (q : Queue α maxLen) : List α :=
  window q.items maxLen q.readIdx.toNat q.size.toNat

@[simp] theorem length_contents (q : Queue α maxLen) : q.contents.length = q.size.toNat := by
  simp [contents]

variable {q : Queue α maxLen} {a : Int} {val : α}

theorem WF.size_eq (h : q.WF) : q.size = q.contents.length := by
  rw [length_contents, size]
  have := h.le
  omega

theorem WF.length_le (h : q.WF) : q.contents.length ≤ maxLen := by
  rw [length_contents, size]
  have := h.bound
  omega

theorem clear_wf (q : Queue α maxLen) : q.clear.WF := by
  constructor <;> simp only [clear] <;> omega

theorem clear_compact (q : Queue α maxLen) : q.clear.Compact :=
  ⟨q.clear_wf, by simp only [clear]; omega⟩

@[simp] theorem contents_clear (q : Queue α maxLen) : q.clear.contents = [] := by
  simp [contents, clear, size, window]

/-! ## Array accesses that stay inside -/

theorem tmod_eq (h : 0 ≤ a) : a.tmod maxLen = ((a.toNat % maxLen : Nat) : Int) := by
  obtain ⟨n, rfl⟩ := Int.eq_ofNat_of_zero_le h
  rfl

theorem store_tmod (q : Queue α maxLen) (h : 0 ≤ a) (hm : 0 < maxLen) (val : α) :
    q.store (a.tmod maxLen) val
      = .ok { q with items := storeAt q.items (a.toNat % maxLen) val } := by
  rw [tmod_eq h, store, if_pos, Int.toNat_natCast]
  exact ⟨Int.natCast_nonneg _, by exact_mod_cast Nat.mod_lt _ hm⟩

theorem load_tmod (q : Queue α maxLen) (h : 0 ≤ a) (hm : 0 < maxLen) :
    q.load (a.tmod maxLen) = .ok (q.items (a.toNat % maxLen)) := by
  rw [tmod_eq h, load, if_pos, Int.toNat_natCast]
  exact ⟨Int.natCast_nonneg _, by exact_mod_cast Nat.mod_lt _ hm⟩

theorem addInt_ok {b : Int} (h1 : -2147483648 ≤ a + b) (h2 : a + b < 2147483648) :
    addInt a b = .ok (a + b) := if_pos ⟨h1, h2⟩

/-! ## `push_back` -/

theorem contents_normalize (h : 0 ≤ q.readIdx) : q.normalize.contents = q.contents := by
  obtain ⟨r, hr⟩ := Int.eq_ofNat_of_zero_le h
  have hd : q.readIdx.tdiv maxLen = ((r / maxLen : Nat) : Int) := by rw [hr]; rfl
  have hle : r / maxLen * maxLen ≤ r := Nat.div_mul_le_self r maxLen
  have hread : (q.readIdx - q.readIdx.tdiv maxLen * maxLen).toNat
      = q.readIdx.toNat - r / maxLen * maxLen := by
    rw [hd]
    omega
  have hrt : q.readIdx.toNat = r := by omega
  unfold contents normalize size
  rw [hread, show q.writeIdx - q.readIdx.tdiv maxLen * maxLen
        - (q.readIdx - q.readIdx.tdiv maxLen * maxLen) = q.writeIdx - q.readIdx by omega, hrt]
  exact window_sub_mul q.items maxLen r (r / maxLen) _ hle

theorem normalize_compact (h : 0 ≤ q.readIdx) (hle : q.readIdx ≤ q.writeIdx)
    (hb : q.writeIdx - q.readIdx ≤ maxLen) (hm : 0 < maxLen) : q.normalize.Compact := by
  obtain ⟨r, hr⟩ := Int.eq_ofNat_of_zero_le h
  have hd : q.readIdx.tdiv maxLen = ((r / maxLen : Nat) : Int) := by rw [hr]; rfl
  have hmul : r / maxLen * maxLen ≤ r := Nat.div_mul_le_self r maxLen
  have hlt : r < r / maxLen * maxLen + maxLen := by
    have := Nat.mod_lt r hm
    have := Nat.div_add_mod r maxLen
    rw [Nat.mul_comm] at this
    omega
  have hc : q.readIdx.tdiv maxLen * maxLen = ((r / maxLen * maxLen : Nat) : Int) := by
    rw [hd, Int.natCast_mul]
  refine ⟨?_, ?_⟩
  · constructor <;> simp only [normalize, hc] <;> omega
  · simp only [normalize, hc]
    omega

theorem pushBack_spec (h : q.WF) (hroom : q.contents.length < maxLen) (val : α) :
    ∃ q', q.pushBack val = .ok (true, q') ∧ q'.WF ∧ q'.contents = q.contents ++ [val] := by
  have hm : 0 < maxLen := by omega
  have hn := h.nonneg
  have hl := h.le
  have hsize := h.size_eq
  have hlt : ¬ q.writeIdx - q.readIdx ≥ maxLen := by
    have : q.size = q.writeIdx - q.readIdx := rfl
    omega
  rw [pushBack, if_neg hlt, store_tmod q (by omega) hm]
  refine ⟨_, rfl, ?_, ?_⟩
  · refine Compact.toWF ?_
    exact normalize_compact hn (show q.readIdx ≤ q.writeIdx + 1 by omega)
      (show q.writeIdx + 1 - q.readIdx ≤ maxLen by omega) hm
  · refine (contents_normalize (by exact hn)).trans ?_
    have hw : q.writeIdx.toNat = q.readIdx.toNat + q.size.toNat := by
      unfold size
      omega
    have hs : (q.writeIdx + 1 - q.readIdx).toNat = q.size.toNat + 1 := by
      omega
    unfold contents
    simp only [size] at hs ⊢
    rw [hs, hw]
    exact window_store_back q.items val (by rw [length_contents] at hroom; exact hroom)

theorem pushBack_full (h : q.WF) (hfull : q.contents.length = maxLen) (val : α) :
    q.pushBack val = .ok (false, q) := by
  have hsize := h.size_eq
  rw [pushBack, if_pos]
  have : q.size = q.writeIdx - q.readIdx := rfl
  omega

theorem pushBack_ok_wf {q' : Queue α maxLen} {b : Bool} (h : q.WF) (val : α)
    (he : q.pushBack val = .ok (b, q')) : q'.WF := by
  have hlen := h.length_le
  rcases Nat.lt_or_ge q.contents.length maxLen with hlt | _
  · obtain ⟨q1, h1, hwf, _⟩ := pushBack_spec h hlt val
    rw [h1] at he
    cases he
    exact hwf
  · rw [pushBack_full h (by omega)] at he
    cases he
    exact h

theorem pushBack_ok_compact {q' : Queue α maxLen} {b : Bool} (h : q.Compact) (val : α)
    (he : q.pushBack val = .ok (b, q')) : q'.Compact := by
  have hn := h.nonneg
  have hl := h.le
  unfold pushBack at he
  split at he
  · cases he
    exact h
  next hroom =>
    have hm : 0 < maxLen := by
      omega
    rw [store_tmod q (by omega) hm, ok_bind] at he
    cases he
    exact normalize_compact hn (show q.readIdx ≤ q.writeIdx + 1 by omega)
      (show q.writeIdx + 1 - q.readIdx ≤ maxLen by omega) hm

theorem pushBack_readIdx {q' : Queue α maxLen} {b : Bool} (h : 0 ≤ q.readIdx)
    (hpush : q.pushBack val = .ok (b, q')) : q'.readIdx ≤ q.readIdx := by
  unfold pushBack at hpush
  split at hpush
  · cases hpush
    exact Int.le_refl _
  · obtain ⟨q1, hstore, hpush⟩ := bind_ok.mp hpush
    unfold store at hstore
    split at hstore
    · cases hstore
      cases hpush
      have hturns : 0 ≤ q.readIdx.tdiv maxLen * maxLen :=
        Int.mul_nonneg (Int.tdiv_nonneg h (Int.natCast_nonneg _)) (Int.natCast_nonneg _)
      show q.readIdx - q.readIdx.tdiv maxLen * maxLen ≤ q.readIdx
      omega
    · cases hstore

/-! ## `pop_front`, `front`, `operator []` -/

theorem popFront_spec (h : q.WF) {rest : List α} (hc : q.contents = val :: rest) :
    ∃ q', q.popFront = .ok (val, q') ∧ q'.WF ∧ q'.contents = rest := by
  have hn := h.nonneg
  have hlen : q.size.toNat = rest.length + 1 := by
    rw [← length_contents, hc, length_cons]
  have hb := h.bound
  have hm : 0 < maxLen := by unfold size at hlen; omega
  have hread : (q.readIdx + 1).toNat = q.readIdx.toNat + 1 := by omega
  have hwin := window_cons q.items maxLen q.readIdx.toNat rest.length
  rw [← hlen] at hwin
  rw [contents, hwin] at hc
  obtain ⟨hval, hrest⟩ := cons.inj hc
  refine ⟨{ q with readIdx := q.readIdx + 1 }, ?_, ?_, ?_⟩
  · rw [popFront, load_tmod q hn hm, ok_bind, hval]
  · have := h.small
    constructor <;> simp only <;> unfold size at hlen <;> omega
  · rw [← hrest, contents]
    simp only [size] at hlen ⊢
    rw [hread, show (q.writeIdx - (q.readIdx + 1)).toNat = rest.length by omega]

theorem front_spec (h : q.WF) {rest : List α} (hc : q.contents = val :: rest) :
    q.front = .ok val := by
  obtain ⟨q', hp, _⟩ := popFront_spec h hc
  rw [popFront, bind_ok] at hp
  obtain ⟨v, hv, he⟩ := hp
  cases he
  exact hv

theorem index_spec (h : q.WF) {i : Nat} (hi : q.contents[i]? = some val) :
    q.index (q.readIdx + i) = .ok val := by
  have hn := h.nonneg
  have hlt : i < q.size.toNat := by
    rw [← length_contents]
    exact (List.getElem?_eq_some_iff.mp hi).1
  have hm : 0 < maxLen := by
    have := h.bound
    unfold size at hlt
    omega
  rw [contents, getElem?_window _ _ _ hlt] at hi
  rw [index, load_tmod q (by omega) hm, show (q.readIdx + (i : Int)).toNat
        = q.readIdx.toNat + i by omega]
  exact congrArg Except.ok (Option.some.inj hi)

/-! ## `replace` -/

section Replace

variable [Inhabited α]

/-- The loop pads up to the offset, or until the queue is full. -/
theorem fill_spec (off : Nat) :
    ∀ (fuel : Nat) (q : Queue α maxLen), q.WF → q.readIdx + off < 2147483648 →
      min (off + 1) maxLen - q.contents.length < fuel →
      ∃ q', fill fuel q off = .ok q' ∧ q'.WF ∧ q'.readIdx ≤ q.readIdx ∧
        q'.contents = q.contents
          ++ List.replicate (min (off + 1) maxLen - q.contents.length) default
  | 0, q, _, _, hf => absurd hf (by omega)
  | fuel + 1, q, h, hint, hf => by
      have hn := h.nonneg
      have hsize : q.writeIdx - q.readIdx = q.contents.length := h.size_eq
      have hlen := h.length_le
      rw [fill, addInt_ok (by omega) hint, ok_bind]
      by_cases hpos : q.readIdx + off ≥ q.writeIdx
      · rw [if_pos hpos]
        by_cases hfull : q.contents.length = maxLen
        · refine ⟨q, ?_, h, Int.le_refl _, ?_⟩
          · rw [pushBack_full h hfull]
            rfl
          · rw [show min (off + 1) maxLen - q.contents.length = 0 by omega, replicate_zero,
              append_nil]
        obtain ⟨q1, h1, hwf1, hc1⟩ := pushBack_spec h (by omega) (default : α)
        have hlen1 : q1.contents.length = q.contents.length + 1 := by
          rw [hc1, length_append, length_singleton]
        have hread1 := pushBack_readIdx hn h1
        obtain ⟨q2, h2, hwf2, hread2, hc2⟩ := fill_spec off fuel q1 hwf1 (by omega) (by omega)
        refine ⟨q2, ?_, hwf2, by omega, ?_⟩
        · rw [h1]
          exact h2
        · rw [hc2, hlen1, hc1, append_assoc]
          congr 1
          rw [show min (off + 1) maxLen - q.contents.length
                = (min (off + 1) maxLen - (q.contents.length + 1)) + 1 by omega, replicate_succ]
          rfl
      · refine ⟨q, ?_, h, Int.le_refl _, ?_⟩
        · rw [if_neg hpos]
        · rw [show min (off + 1) maxLen - q.contents.length = 0 by omega, replicate_zero,
            append_nil]

variable {q q' : Queue α maxLen} {off : Int} {b : Bool} {val : α}

theorem replace_inside (h : q.WF) {off : Nat} (hoff : off < maxLen)
    (hint : q.readIdx + off < 2147483648) (val : α) :
    ∃ q', q.replace off val = .ok (true, q') ∧ q'.WF ∧
      q'.contents = overlay q.contents off [val] := by
  have hsize := h.size_eq
  obtain ⟨q1, h1, hwf, hread, hc⟩ :=
    fill_spec off ((maxLen - q.size).toNat + 1) q h hint (by omega)
  rw [show min (off + 1) maxLen = off + 1 by omega] at hc
  have hn := hwf.nonneg
  have hlt : off < q1.contents.length := by
    rw [hc, length_append, length_replicate]
    omega
  have hlt' : off < q1.size.toNat := by rw [← length_contents]; exact hlt
  have hpos : ¬ q1.readIdx + off > q1.writeIdx := by
    unfold size at hlt'
    omega
  have hidx : (q1.readIdx + (off : Int)).toNat = q1.readIdx.toNat + off := by omega
  refine ⟨{ q1 with items := storeAt q1.items ((q1.readIdx.toNat + off) % maxLen) val },
    ?_, ⟨hwf.nonneg, hwf.le, hwf.bound, hwf.small⟩, ?_⟩
  · rw [replace, h1, ok_bind, addInt_ok (by omega) (by omega), ok_bind, if_neg hpos,
      store_tmod q1 (by omega) (by omega), hidx]
    rfl
  · have hwin : window (storeAt q1.items ((q1.readIdx.toNat + off) % maxLen) val) maxLen
        q1.readIdx.toNat q1.size.toNat = q1.contents.set off val :=
      window_store q1.items val (by rw [← length_contents]; exact hwf.length_le) hlt'
    show window (storeAt q1.items ((q1.readIdx.toNat + off) % maxLen) val) maxLen
        q1.readIdx.toNat q1.size.toNat = overlay q.contents off [val]
    rw [hwin, hc, pad_set_eq_overlay]

/-- `replace` at an offset inside the array overwrites, padding a gap with
default items. -/
theorem replace_spec (h : q.WF) {off : Nat} (hoff : off < maxLen) (hsmall : maxLen ≤ 268435456)
    (val : α) :
    ∃ q', q.replace off val = .ok (true, q') ∧ q'.WF ∧
      q'.contents = overlay q.contents off [val] := by
  have hle := h.le
  have hs := h.small
  exact replace_inside h hoff (by omega) val

/-- `replace` keeps to its bound: it succeeds at the offsets inside the array, where it
overwrites and pads, and elsewhere fails and changes no item that is there. -/
def RespectsBound (q : Queue α maxLen) (off : Nat) (val : α) : Prop :=
  ∃ b q', q.replace off val = .ok (b, q') ∧ (b = true ↔ off < maxLen)
    ∧ (b = true → q'.contents = overlay q.contents off [val])
    ∧ (b = false → q.contents <+: q'.contents)

/-- **The bound is off by one**: at the offset `_MaxLen` of the padded, full queue the
position is `_write_idx` itself, and the item goes to the slot of the first one. -/
theorem respectsBound_iff (h : q.WF) (off : Nat) (val : α) :
    q.RespectsBound off val ↔ off ≠ maxLen ∧ q.readIdx + off < 2147483648 := by
  have hsize := h.size_eq
  by_cases hint : q.readIdx + off < 2147483648
  · obtain ⟨q1, h1, hwf, hread, hc⟩ :=
      fill_spec off ((maxLen - q.size).toNat + 1) q h hint (by omega)
    have hn1 := hwf.nonneg
    have hsize1 : q1.writeIdx - q1.readIdx = q1.contents.length := hwf.size_eq
    have hlen1 := congrArg length hc
    have hle := h.length_le
    rw [length_append, length_replicate] at hlen1
    have hreplace : q.replace off val = if q1.readIdx + off > q1.writeIdx then .ok (false, q1)
        else q1.store ((q1.readIdx + off).tmod maxLen) val >>= fun q => .ok (true, q) := by
      rw [replace, h1, ok_bind, addInt_ok (by omega) (by omega), ok_bind]
    rcases Nat.lt_trichotomy off maxLen with hlt | heq | hgt
    · obtain ⟨q', hcall, _, hc'⟩ := replace_inside h hlt hint val
      exact iff_of_true ⟨true, q', hcall, by simp [hlt], fun _ => hc', by simp⟩ ⟨by omega, hint⟩
    · -- the queue is full, and the position is where the next item would go
      refine iff_of_false ?_ fun hcond => hcond.1 heq
      rintro ⟨b, q', hcall, hiff, _⟩
      rw [hreplace, if_neg (by omega)] at hcall
      obtain ⟨_, _, hcall⟩ := bind_ok.mp hcall
      cases hcall
      exact absurd (hiff.mp rfl) (by omega)
    · refine iff_of_true ⟨false, q1, ?_, by simp; omega, by simp, fun _ => ?_⟩ ⟨by omega, hint⟩
      · rw [hreplace, if_pos (by omega)]
      · rw [hc]
        exact prefix_append _ _
  · -- the sum of the first test is no `int`
    refine iff_of_false ?_ fun hcond => hint hcond.2
    rintro ⟨b, q', hcall, _⟩
    rw [replace, fill, addInt, if_neg (by omega)] at hcall
    cases hcall

def brimful : Queue Nat 2 := { items := fun i => 7 + i, readIdx := 0, writeIdx := 2 }

theorem respectsBound_iff_brimful : brimful.contents = [7, 8] ∧ brimful.RespectsBound 1 9 :=
  ⟨by decide, (respectsBound_iff ⟨by decide, by decide, by decide, by decide⟩ 1 9).2 (by decide)⟩

theorem replace_overwrites_first : brimful.contents = [7, 8]
    ∧ (brimful.replace 2 9).map (fun r => (r.1, r.2.contents)) = .ok (true, [9, 8]) := by
  decide

theorem fill_ok_of {P : Queue α maxLen → Prop}
    (hpush : ∀ q q' b, P q → q.pushBack default = .ok (b, q') → P q') :
    ∀ (fuel : Nat) (q q' : Queue α maxLen), P q → fill fuel q off = .ok q' → P q' := by
  intro fuel
  induction fuel with
  | zero =>
    intro q q' h he
    cases he
    exact h
  | succ fuel ih =>
    intro q q' h he
    rw [fill, bind_ok] at he
    obtain ⟨pos, _, he⟩ := he
    split at he
    · obtain ⟨⟨pushed, q1⟩, h1, he⟩ := bind_ok.mp he
      have hkept := hpush q q1 pushed h h1
      cases pushed with
      | true => exact ih q1 q' hkept he
      | false =>
        cases he
        exact hkept
    · cases he
      exact h

theorem replace_ok_of {P : Queue α maxLen → Prop}
    (hpush : ∀ q q' b, P q → q.pushBack default = .ok (b, q') → P q')
    (hstore : ∀ q items, P q → P { q with items := items }) (h : P q)
    (he : q.replace off val = .ok (b, q')) : P q' := by
  rw [replace, bind_ok] at he
  obtain ⟨q1, h1, he⟩ := he
  have hkept := fill_ok_of hpush _ q q1 h h1
  obtain ⟨pos, _, he⟩ := bind_ok.mp he
  split at he
  · cases he
    exact hkept
  obtain ⟨q2, h2, he⟩ := bind_ok.mp he
  cases he
  unfold store at h2
  split at h2
  · cases h2
    exact hstore q1 _ hkept
  · simp at h2

theorem replace_ok_compact (h : q.Compact) (he : q.replace off val = .ok (b, q')) : q'.Compact :=
  replace_ok_of (fun _ _ _ hq hpush => pushBack_ok_compact hq default hpush)
    (fun _ _ hq => ⟨⟨hq.nonneg, hq.le, hq.bound, hq.small⟩, hq.inTurn⟩) h he

theorem replace_ok_wf (h : q.WF) (he : q.replace off val = .ok (b, q')) : q'.WF :=
  replace_ok_of (fun _ _ _ hq hpush => pushBack_ok_wf hq default hpush)
    (fun _ _ hq => ⟨hq.nonneg, hq.le, hq.bound, hq.small⟩) h he

end Replace

end Queue

end Peos2.Support
