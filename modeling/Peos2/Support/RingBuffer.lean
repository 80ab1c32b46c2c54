/-
  Support.RingBuffer — the byte buffer `p2::ring_buffer` (`libraries/support/ring_buffer.h`).

  A ring buffer is a `queue<char, _MaxLen>` that is written at an offset from the read
  position. `write` mixes `int`, `size_t` and the sentinel -1, with the conversions where
  the source has them: the capacity test is a 32-bit unsigned sum, and the offset handed
  to `replace` is that sum read as an `int`.
-/
import Peos2.Lib.Word
import Peos2.Support.Queue

namespace Peos2.Support

open Peos2.Lib List Queue

/-- What a `const char *` points at. -/
abbrev Bytes := Nat → UInt8

def Bytes.first (data : Bytes) (n : Nat) : List UInt8 := (List.range n).map data

@[simp] theorem Bytes.length_first (data : Bytes) (n : Nat) : (data.first n).length = n := by
  simp [Bytes.first]

theorem Bytes.getElem?_first (data : Bytes) {n i : Nat} (h : i < n) :
    (data.first n)[i]? = some (data i) := by
  simp [Bytes.first, h]

theorem Bytes.first_succ (data : Bytes) (n : Nat) :
    data.first (n + 1) = data 0 :: Bytes.first (fun i => data (i + 1)) n := by
  unfold Bytes.first
  rw [range_succ_eq_map, map_cons, map_map]
  rfl

theorem Bytes.take_first (data : Bytes) (n k : Nat) :
    (data.first n).take k = data.first (min n k) := by
  rw [Bytes.first, Bytes.first, ← map_take, take_range, Nat.min_comm]

/-- The bytes of a list, as a pointer to them sees them. -/
def Bytes.ofList (l : List UInt8) : Bytes := fun i => l.getD i 0

theorem Bytes.first_ofList (l : List UInt8) (n : Nat) (h : n ≤ l.length) :
    (Bytes.ofList l).first n = l.take n := by
  refine ext_getElem? fun i => ?_
  by_cases hi : i < n
  · rw [Bytes.getElem?_first _ hi, getElem?_take_of_lt hi, Bytes.ofList,
      getD_eq_getElem?_getD, getElem?_eq_getElem (by omega)]
    rfl
  · rw [getElem?_eq_none (by simp; omega), getElem?_eq_none (by simp; omega)]

/-- `p2::ring_buffer<_MaxLen>`. -/
structure RingBuffer (maxLen : Nat) where
  queue : Queue UInt8 maxLen

namespace RingBuffer

variable {maxLen : Nat}

/-! ## The class -/

/-- `size_t size() const` -/
def size (b : RingBuffer maxLen) : UInt32 := unsigned b.queue.size

/-- `size_t capacity() const` -/
def capacity (_ : RingBuffer maxLen) : UInt32 := UInt32.ofNat maxLen

/-- The calls `_queue.replace(i + offset, data[i])` that the loop of `write`
makes: `i + offset` is a `size_t`, read as an `int` by the callee. -/
def writeCalls (data : Bytes) (length : UInt32) (offset : Int) : List (Int × UInt8) :=
  (List.range length.toNat).map fun i =>
    (signed (UInt32.ofNat i + unsigned offset), data i)

/-- The loop of `write` over these calls. -/
def replaceAll (q : Queue UInt8 maxLen) : List (Int × UInt8) → Checked (Queue UInt8 maxLen)
  | [] => .ok q
  | (offset, c) :: calls => do
      let (pushOk, q) ← q.replace offset c
      check pushOk "push_ok"
      replaceAll q calls

/-- The offset `write` starts at: the sentinel -1 stands for the current write
position. -/
def startOffset (b : RingBuffer maxLen) (offset : Int) : Int :=
  if offset = -1 then b.queue.size else offset

/-- `bool write(const char *data, size_t length, int offset = -1)` -/
def write (b : RingBuffer maxLen) (data : Bytes) (length : UInt32) (offset : Int) :
    Checked (Bool × RingBuffer maxLen) :=
  let offset := b.startOffset offset
  if unsigned offset + length > b.capacity then .ok (false, b)
  else do
    let queue ← replaceAll b.queue (writeCalls data length offset)
    .ok (true, { queue })

/-- `n` times `_queue.pop_front()`. -/
def popMany : Nat → Queue UInt8 maxLen → Checked (List UInt8 × Queue UInt8 maxLen)
  | 0, q => .ok ([], q)
  | n + 1, q => do
      let (c, q) ← q.popFront
      let (cs, q) ← popMany n q
      .ok (c :: cs, q)

/-- `size_t read_front(char *data, size_t max_length)`; the bytes copied to
`data` are returned, their number is the result. -/
def readFront (b : RingBuffer maxLen) (maxLength : UInt32) :
    Checked (List UInt8 × RingBuffer maxLen) := do
  let maxLength := if maxLength > b.size then b.size else maxLength
  let (cs, queue) ← popMany maxLength.toNat b.queue
  .ok (cs, { queue })

/-- The loop of `peek`, from byte `i` on. -/
def peekFrom (q : Queue UInt8 maxLen) (start : Int) : Nat → Nat → Checked (List UInt8)
  | _, 0 => .ok []
  | i, n + 1 => do
      let pos ← Queue.addInt q.begin start
      let c ← q.index (signed (unsigned pos + UInt32.ofNat i))
      let cs ← peekFrom q start (i + 1) n
      .ok (c :: cs)

/-- `size_t peek(char *data, int start, int length)`; the bytes copied are
returned, their number is the result. -/
def peek (b : RingBuffer maxLen) (start length : Int) : Checked (List UInt8) := do
  let stop ← Queue.addInt start length
  let maxLength := max (min stop (signed b.size) - start) 0
  peekFrom b.queue start 0 maxLength.toNat

/-- `size_t consume(size_t max_length)` -/
def consume (b : RingBuffer maxLen) (maxLength : UInt32) :
    Checked (UInt32 × RingBuffer maxLen) := do
  let maxLength := if maxLength > b.size then b.size else maxLength
  let (_, queue) ← popMany maxLength.toNat b.queue
  .ok (maxLength, { queue })

/-- `void clear()` -/
def clear (b : RingBuffer maxLen) : RingBuffer maxLen := { queue := b.queue.clear }

/-! ## Well-formedness and the abstract value -/

def WF (b : RingBuffer maxLen) : Prop := b.queue.WF

def contents (b : RingBuffer maxLen) : List UInt8 := b.queue.contents

theorem clear_wf (b : RingBuffer maxLen) : b.clear.WF := b.queue.clear_wf

@[simp] theorem contents_clear (b : RingBuffer maxLen) : b.clear.contents = [] :=
  b.queue.contents_clear

variable {b : RingBuffer maxLen}

theorem WF.length_le (h : b.WF) : b.contents.length ≤ maxLen :=
  Queue.WF.length_le h

theorem WF.toNat_size (h : b.WF) (hm : maxLen ≤ 268435456) : b.size.toNat = b.contents.length := by
  have hlen := h.length_le
  rw [size, Queue.WF.size_eq h, toNat_unsigned_of_nonneg (by omega)]
  · rfl
  · unfold contents at hlen
    omega

theorem toNat_capacity (b : RingBuffer maxLen) (hm : maxLen ≤ 268435456) :
    b.capacity.toNat = maxLen := toNat_ofNat_lt (by omega)

/-! ## `write` -/

/-- The calls of a run `ds` written from `off` on, without conversions. -/
def callsAt (off : Nat) : List UInt8 → List (Int × UInt8)
  | [] => []
  | d :: ds => ((off : Int), d) :: callsAt (off + 1) ds

theorem callsAt_eq_map (data : Bytes) :
    ∀ (n i off : Nat), callsAt (off + i) ((List.range' i n).map data)
      = (List.range' i n).map fun j => (((off + j : Nat) : Int), data j)
  | 0, _, _ => rfl
  | n + 1, i, off => by
      rw [List.range'_succ, List.map_cons, List.map_cons, callsAt, Nat.add_assoc,
          callsAt_eq_map data n (i + 1) off]

theorem writeCalls_eq (data : Bytes) (length : UInt32) (off : Nat)
    (h : off + length.toNat ≤ 2147483648) :
    writeCalls data length off = callsAt off (data.first length.toNat) := by
  have hmap := callsAt_eq_map data length.toNat 0 off
  rw [Nat.add_zero] at hmap
  rw [writeCalls, Bytes.first, range_eq_range', hmap]
  apply map_congr_left
  intro i hi
  have hi' : i < length.toNat := by
    rw [mem_range'_1] at hi
    omega
  have hsum : (UInt32.ofNat i + unsigned (off : Int)).toNat = off + i := by
    rw [toNat_add_eq, toNat_ofNat_lt (by omega), toNat_unsigned_of_nonneg (by omega) (by omega)]
    omega
  rw [signed_of_lt (by omega), hsum]

theorem replaceAll_spec (hm : maxLen ≤ 268435456) :
    ∀ (ds : List UInt8) (off : Nat) (q : Queue UInt8 maxLen), q.WF →
      off + ds.length ≤ maxLen →
      ∃ q', replaceAll q (callsAt off ds) = .ok q' ∧ q'.WF ∧
        q'.contents = overlay q.contents off ds
  | [], off, q, h, _ => ⟨q, rfl, h, by simp⟩
  | d :: ds, off, q, h, hfit => by
      rw [List.length_cons] at hfit
      obtain ⟨q1, h1, hwf1, hc1⟩ := replace_spec h (show off < maxLen by omega) hm d
      obtain ⟨q2, h2, hwf2, hc2⟩ := replaceAll_spec hm ds (off + 1) q1 hwf1 (by omega)
      refine ⟨q2, ?_, hwf2, ?_⟩
      · rw [callsAt, replaceAll, h1, ok_bind]
        exact h2
      · rw [hc2, hc1, overlay_cons]

theorem write_spec (h : b.WF) (hm : maxLen ≤ 268435456) (data : Bytes) (length : UInt32)
    (off : Nat) (hfit : off + length.toNat ≤ maxLen) :
    ∃ b', b.write data length off = .ok (true, b') ∧ b'.WF ∧
      b'.contents = overlay b.contents off (data.first length.toNat) := by
  have hstart : b.startOffset (off : Int) = off := if_neg (by omega)
  have hcap : ¬ unsigned (off : Int) + length > b.capacity := by
    rw [gt_iff_lt, lt_iff_toNat, toNat_add_eq, toNat_capacity b hm,
        toNat_unsigned_of_nonneg (by omega) (by omega)]
    omega
  obtain ⟨q', hq, hwf, hc⟩ := replaceAll_spec hm (data.first length.toNat) off b.queue h
    (by rw [Bytes.length_first]; exact hfit)
  refine ⟨{ queue := q' }, ?_, hwf, hc⟩
  rw [write]
  simp only [hstart]
  rw [if_neg hcap, writeCalls_eq data length off (by omega), hq, ok_bind]

theorem write_sentinel (h : b.WF) (data : Bytes) (length : UInt32) :
    b.write data length (-1) = b.write data length b.contents.length := by
  have h1 : b.startOffset (-1) = b.contents.length := by
    rw [startOffset, Queue.WF.size_eq h]
    rfl
  have h2 : b.startOffset (b.contents.length : Int) = b.contents.length := if_neg (by omega)
  rw [write, write, h1, h2]

theorem write_append (h : b.WF) (hm : maxLen ≤ 268435456) (data : Bytes) (length : UInt32)
    (hfit : b.contents.length + length.toNat ≤ maxLen) :
    ∃ b', b.write data length (-1) = .ok (true, b') ∧ b'.WF ∧
      b'.contents = b.contents ++ data.first length.toNat := by
  obtain ⟨b', hw, hwf, hc⟩ := write_spec h hm data length b.contents.length hfit
  refine ⟨b', ?_, hwf, ?_⟩
  · rw [write_sentinel h, hw]
  · rw [hc, overlay_length_eq_append]

theorem replaceAll_ok_of {P : Queue UInt8 maxLen → Prop}
    (hreplace : ∀ q q' off c b, P q → Queue.replace q off c = .ok (b, q') → P q') :
    ∀ (calls : List (Int × UInt8)) (q q' : Queue UInt8 maxLen), P q →
      replaceAll q calls = .ok q' → P q' := by
  intro calls
  induction calls with
  | nil =>
    intro q q' h he
    cases he
    exact h
  | cons call calls ih =>
    intro q q' h he
    obtain ⟨off, c⟩ := call
    rw [replaceAll, bind_ok] at he
    obtain ⟨⟨pushOk, q1⟩, h1, he⟩ := he
    obtain ⟨_, _, he⟩ := bind_ok.mp he
    exact ih q1 q' (hreplace q q1 off c pushOk h h1) he

theorem write_ok_of {P : Queue UInt8 maxLen → Prop}
    (hreplace : ∀ q q' off c b, P q → Queue.replace q off c = .ok (b, q') → P q')
    {b' : RingBuffer maxLen} {data : Bytes} {length : UInt32} {offset : Int} {r : Bool}
    (h : P b.queue) (he : b.write data length offset = .ok (r, b')) : P b'.queue := by
  rw [write] at he
  split at he
  · cases he
    exact h
  · obtain ⟨q, hq, he⟩ := bind_ok.mp he
    cases he
    exact replaceAll_ok_of hreplace _ b.queue q h hq

theorem write_ok_wf {b' : RingBuffer maxLen} {data : Bytes} {length : UInt32} {offset : Int}
    {r : Bool} (h : b.WF) (he : b.write data length offset = .ok (r, b')) : b'.WF :=
  write_ok_of (fun _ _ _ _ _ => replace_ok_wf) h he

theorem write_refused (hm : maxLen ≤ 268435456) (data : Bytes) (length : UInt32) (off : Nat)
    (hout : maxLen < off + length.toNat) (hwrap : off + length.toNat < 4294967296) :
    b.write data length off = .ok (false, b) := by
  have hstart : b.startOffset (off : Int) = off := if_neg (by omega)
  have hcap : unsigned (off : Int) + length > b.capacity := by
    rw [gt_iff_lt, lt_iff_toNat, toNat_add_eq, toNat_capacity b hm,
        toNat_unsigned_of_nonneg (by omega) (by omega)]
    omega
  rw [write]
  simp only [hstart]
  rw [if_pos hcap]

/-! ## The offsets handed to `replace` -/

/-- The offsets that the loop of `write` hands to `replace`, up to and with
the call that stops it. -/
def handed (q : Queue UInt8 maxLen) : List (Int × UInt8) → List Int
  | [] => []
  | (offset, c) :: calls =>
    offset :: match q.replace offset c with
      | .ok (true, q') => handed q' calls
      | _ => []

def writeHanded (b : RingBuffer maxLen) (data : Bytes) (length : UInt32) (offset : Int) :
    List Int :=
  let offset := b.startOffset offset
  if unsigned offset + length > b.capacity then []
  else handed b.queue (writeCalls data length offset)

theorem handed_append : ∀ (l1 l2 : List (Int × UInt8)) (q q' : Queue UInt8 maxLen),
    replaceAll q l1 = .ok q' → handed q (l1 ++ l2) = l1.map Prod.fst ++ handed q' l2
  | [], l2, q, q', h => by
      cases h
      rfl
  | (offset, c) :: l1, l2, q, q', h => by
      rw [replaceAll, bind_ok] at h
      obtain ⟨⟨pushOk, q1⟩, h1, h⟩ := h
      obtain ⟨_, hp, h⟩ := bind_ok.mp h
      rw [check_ok] at hp
      subst hp
      rw [cons_append, handed, h1]
      simp only [map_cons, cons_append]
      rw [handed_append l1 l2 q1 q' h]

theorem mem_callsAt_fst {o : Int} : ∀ (ds : List UInt8) (off : Nat),
    o ∈ (callsAt off ds).map Prod.fst → (off : Int) ≤ o ∧ o < (off + ds.length : Nat)
  | [], off, h => by simp [callsAt] at h
  | d :: ds, off, h => by
      rw [callsAt, List.map_cons, List.mem_cons] at h
      rw [List.length_cons]
      rcases h with rfl | h
      · exact ⟨Int.le_refl _, by show (off : Int) < _; omega⟩
      · obtain ⟨h1, h2⟩ := mem_callsAt_fst ds (off + 1) h
        omega

theorem writeHanded_inside (h : b.WF) (hm : maxLen ≤ 268435456) (data : Bytes) (length : UInt32)
    (off : Nat) (hfit : off + length.toNat ≤ maxLen) :
    ∀ o ∈ b.writeHanded data length off, 0 ≤ o ∧ o < maxLen := by
  have hstart : b.startOffset (off : Int) = off := if_neg (by omega)
  obtain ⟨q', hq, _⟩ := replaceAll_spec hm (data.first length.toNat) off b.queue h
    (by rw [Bytes.length_first]; exact hfit)
  intro o ho
  unfold writeHanded at ho
  simp only [hstart] at ho
  split at ho
  · simp at ho
  · rw [writeCalls_eq data length off (by omega), ← append_nil (callsAt _ _),
        handed_append _ [] _ _ hq, handed, append_nil] at ho
    obtain ⟨_, h2⟩ := mem_callsAt_fst _ _ ho
    rw [Bytes.length_first] at h2
    omega

theorem writeCalls_split (data : Bytes) (length : UInt32) (offset : Int) {k : Nat}
    (hk : k < length.toNat) :
    ∃ rest, writeCalls data length offset = writeCalls data (UInt32.ofNat k) offset
      ++ (signed (UInt32.ofNat k + unsigned offset), data k) :: rest := by
  have hl := toNat_lt_border length
  obtain ⟨m, hm⟩ : ∃ m, length.toNat = k + (m + 1) := ⟨length.toNat - k - 1, by omega⟩
  refine ⟨(range' (k + 1) m).map fun i =>
    (signed (UInt32.ofNat i + unsigned offset), data i), ?_⟩
  rw [writeCalls, writeCalls, toNat_ofNat_lt (show k < 4294967296 by omega), hm,
      range_eq_range', range_eq_range', ← range'_append_1, map_append,
      Nat.zero_add, range'_succ, map_cons]

/-- A write past the capacity that the 32-bit sum lets through leaves the
storage: it hands `replace` an offset that is no index. -/
theorem writeHanded_outside (h : b.WF) (hm : maxLen ≤ 268435456) (data : Bytes) (length : UInt32)
    (off : Nat) (hoff : off < 2147483648) (hlen : maxLen - off < length.toNat)
    (hpass : ¬ unsigned (off : Int) + length > b.capacity) :
    ∃ o ∈ b.writeHanded data length off, ¬ (0 ≤ o ∧ o < maxLen) := by
  have hstart : b.startOffset (off : Int) = off := if_neg (by omega)
  obtain ⟨rest, hrest⟩ := writeCalls_split data length off hlen
  have hk : (UInt32.ofNat (maxLen - off)).toNat = maxLen - off := toNat_ofNat_lt (by omega)
  -- the calls below the end of the storage go through
  obtain ⟨q', hq⟩ : ∃ q', replaceAll b.queue
      (writeCalls data (UInt32.ofNat (maxLen - off)) off) = .ok q' := by
    rw [writeCalls_eq data _ off (by omega), hk]
    rcases Nat.lt_or_ge off maxLen with _ | hge
    · obtain ⟨q', hq, _⟩ := replaceAll_spec hm (data.first (maxLen - off)) off b.queue h
        (by rw [Bytes.length_first]; omega)
      exact ⟨q', hq⟩
    · rw [Nat.sub_eq_zero_of_le hge]
      exact ⟨b.queue, rfl⟩
  have hsum : (UInt32.ofNat (maxLen - off) + unsigned (off : Int)).toNat = maxLen - off + off := by
    rw [toNat_add_eq, toNat_unsigned_of_nonneg (by omega) (by omega)]
    omega
  refine ⟨signed (UInt32.ofNat (maxLen - off) + unsigned (off : Int)), ?_, ?_⟩
  · unfold writeHanded
    simp only [hstart]
    rw [if_neg hpass, hrest, handed_append _ _ _ _ hq, mem_append, handed]
    exact Or.inr (by simp)
  · rw [signed_of_lt (by omega)]
    omega

/-! ## The readers -/

theorem popMany_spec : ∀ (n : Nat) (q : Queue UInt8 maxLen), q.WF → n ≤ q.contents.length →
    ∃ q', popMany n q = .ok (q.contents.take n, q') ∧ q'.WF ∧
      q'.contents = q.contents.drop n
  | 0, q, h, _ => ⟨q, rfl, h, rfl⟩
  | n + 1, q, h, hn => by
      cases hc : q.contents with
      | nil =>
        rw [hc] at hn
        exact absurd hn (by simp)
      | cons c cs =>
        rw [hc, List.length_cons] at hn
        obtain ⟨q1, h1, hwf1, hc1⟩ := popFront_spec h hc
        obtain ⟨q2, h2, hwf2, hc2⟩ := popMany_spec n q1 hwf1 (by rw [hc1]; omega)
        refine ⟨q2, ?_, hwf2, ?_⟩
        · rw [popMany, h1, ok_bind]
          simp only
          rw [h2, ok_bind, hc1, take_succ_cons]
        · rw [hc2, hc1, drop_succ_cons]

theorem toNat_clip (h : b.WF) (hm : maxLen ≤ 268435456) (maxLength : UInt32) :
    (if maxLength > b.size then b.size else maxLength).toNat
      = min maxLength.toNat b.contents.length := by
  have hs := h.toNat_size hm
  split
  next hgt =>
    rw [gt_iff_lt, lt_iff_toNat] at hgt
    omega
  next hgt =>
    rw [gt_iff_lt, lt_iff_toNat] at hgt
    omega

theorem popMany_clip (h : b.WF) (n : Nat) :
    ∃ q', popMany (min n b.contents.length) b.queue = .ok (b.contents.take n, q') ∧ q'.WF ∧
      q'.contents = b.contents.drop n := by
  obtain ⟨q', hq, hwf, hc⟩ :=
    popMany_spec (min n b.contents.length) b.queue h (Nat.min_le_right _ _)
  refine ⟨q', ?_, hwf, ?_⟩
  · rw [hq, take_eq_take_min (i := n)]
    rfl
  · rw [hc]
    rcases Nat.le_total n b.contents.length with hl | hl
    · rw [Nat.min_eq_left hl]
      rfl
    · rw [Nat.min_eq_right hl, drop_eq_nil_of_le hl]
      exact drop_length

theorem readFront_spec (h : b.WF) (hm : maxLen ≤ 268435456) (maxLength : UInt32) :
    ∃ b', b.readFront maxLength = .ok (b.contents.take maxLength.toNat, b') ∧ b'.WF ∧
      b'.contents = b.contents.drop maxLength.toNat := by
  obtain ⟨q', hq, hwf, hc⟩ := popMany_clip h maxLength.toNat
  refine ⟨{ queue := q' }, ?_, hwf, hc⟩
  rw [readFront]
  simp only [toNat_clip h hm]
  rw [hq, ok_bind]

theorem consume_spec (h : b.WF) (hm : maxLen ≤ 268435456) (maxLength : UInt32) :
    ∃ r b', b.consume maxLength = .ok (r, b') ∧ b'.WF ∧
      b'.contents = b.contents.drop maxLength.toNat
        ∧ r.toNat = min maxLength.toNat b.contents.length := by
  obtain ⟨q', hq, hwf, hc⟩ := popMany_clip h maxLength.toNat
  refine ⟨if maxLength > b.size then b.size else maxLength, { queue := q' }, ?_, hwf, hc,
    toNat_clip h hm maxLength⟩
  rw [consume]
  simp only [toNat_clip h hm]
  rw [hq, ok_bind]

theorem peekFrom_spec {q : Queue UInt8 maxLen} (h : q.WF) (hm : maxLen ≤ 268435456)
    (start : Nat) : ∀ (n i : Nat), start + i + n ≤ q.contents.length →
    peekFrom q start i n = .ok ((q.contents.drop (start + i)).take n)
  | 0, _, _ => by simp [peekFrom]
  | n + 1, i, hle => by
      have hn := h.nonneg
      have hs := h.small
      have hle' := h.le
      have hlen := h.length_le
      have hlt : start + i < q.contents.length := by omega
      have hadd : addInt q.begin start = .ok (q.readIdx + start) :=
        addInt_ok (by unfold begin; omega) (by unfold begin; omega)
      have hpos : signed (unsigned (q.readIdx + start) + UInt32.ofNat i)
          = q.readIdx + ((start + i : Nat) : Int) := by
        have hsum : (unsigned (q.readIdx + start) + UInt32.ofNat i).toNat
            = q.readIdx.toNat + (start + i) := by
          rw [toNat_add_eq, toNat_ofNat_lt (by omega),
              toNat_unsigned_of_nonneg (by omega) (by omega)]
          omega
        rw [signed_of_lt (by omega)]
        omega
      rw [peekFrom, hadd, ok_bind, hpos, index_spec h (getElem?_eq_getElem hlt),
          ok_bind, peekFrom_spec h hm start n (i + 1) (by omega), ok_bind,
          drop_eq_getElem_cons hlt, take_succ_cons]
      rfl

theorem peek_clipped (h : b.WF) (hm : maxLen ≤ 268435456) (start length : Nat)
    (hint : start + length < 2147483648) :
    b.peek start length = .ok ((b.contents.drop start).take length) := by
  have hlen := h.length_le
  have hsize := h.toNat_size hm
  have hadd : addInt (start : Int) length = .ok ((start : Int) + length) :=
    addInt_ok (by omega) (by omega)
  have hmax : (max (min ((start : Int) + length) (signed b.size) - start) 0).toNat
      = min length (b.contents.length - start) := by
    rw [signed_of_lt (by omega)]
    omega
  rw [peek, hadd, ok_bind]
  simp only [hmax]
  by_cases hstart : start ≤ b.contents.length
  · rw [peekFrom_spec h hm start _ 0 (by unfold contents at hstart ⊢; omega)]
    show Except.ok ((b.contents.drop start).take (min length (b.contents.length - start))) = _
    rw [← length_drop, ← take_eq_take_min]
  · -- nothing lies behind the end
    rw [drop_eq_nil_of_le (by omega), take_nil,
      show min length (b.contents.length - start) = 0 by omega]
    rfl

theorem peek_spec (h : b.WF) (hm : maxLen ≤ 268435456) (start length : Nat)
    (hfit : start + length ≤ b.contents.length) :
    b.peek start length = .ok ((b.contents.drop start).take length) := by
  have hlen := h.length_le
  exact peek_clipped h hm start length (by omega)

end RingBuffer

end Peos2.Support
