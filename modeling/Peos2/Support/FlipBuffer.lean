/-
  Support.FlipBuffer — `p2::flip_buffer` (`libraries/support/flip_buffer.h`).

  Two buffers are filled in turn. When one is full the other is emptied, which
  invalidates every handle into it: a handle holds the number of its buffer, the
  generation of the buffer and an offset.
-/
import Peos2.Support.RingBuffer

namespace Peos2.Support

open Peos2.Lib

/-! ## The class -/

/-- `flip_buffer::buffer` -/
structure FlipHalf where
  size : UInt32
  data : Bytes
  generation : UInt16

/-- `void reset()` of a buffer. -/
def FlipHalf.reset (half : FlipHalf) : FlipHalf :=
  { half with size := 0, generation := half.generation + 1 }

/-- `p2::flip_buffer<_MaxLen>` -/
structure FlipBuffer (maxLen : UInt32) where
  buffers : Fin 2 → FlipHalf
  curBuf : Fin 2

namespace FlipBuffer

variable {maxLen : UInt32}

/-- `flip_buffer()`, in storage that held `stale`. -/
def new (stale : Fin 2 → Bytes) : FlipBuffer maxLen where
  buffers i := ⟨0, stale i, if i = 0 then 1000 else 60000⟩
  curBuf := 0

/-- `uint8_t ptr_buffer(handle ptr)` -/
def ptrBuffer (ptr : UInt64) : UInt8 := (ptr >>> 62).toUInt8

/-- `uint16_t ptr_generation(handle ptr)` -/
def ptrGeneration (ptr : UInt64) : UInt16 := ((ptr &&& 0x0000FFFF00000000) >>> 32).toUInt16

/-- `uint32_t ptr_offset(handle ptr)` -/
def ptrOffset (ptr : UInt64) : UInt32 := (ptr &&& 0x00000000FFFFFFFF).toUInt32

/-- `handle create_ptr(uint8_t buffer, uint16_t gen, uint32_t offset)` -/
def createPtr (buffer : UInt8) (gen : UInt16) (offset : UInt32) : UInt64 :=
  (buffer.toUInt64 <<< 62) ||| (gen.toUInt64 <<< 32) ||| offset.toUInt64

/-- `*_cur_buf` -/
def cur (b : FlipBuffer maxLen) : FlipHalf := b.buffers b.curBuf

/-- `*_cur_buf = half` -/
def setCur (b : FlipBuffer maxLen) (half : FlipHalf) : FlipBuffer maxLen :=
  { b with buffers := fun i => if i = b.curBuf then half else b.buffers i }

/-- `void flip()` -/
def flip (b : FlipBuffer maxLen) : FlipBuffer maxLen :=
  { b with curBuf := if b.curBuf = 0 then 1 else 0 }

/-- The buffer an allocation of `length` bytes is made in. -/
def withSpace (b : FlipBuffer maxLen) (length : UInt32) : FlipBuffer maxLen :=
  if length > maxLen - b.cur.size then b.flip.setCur b.flip.cur.reset else b

/-- `handle alloc(size_t length)` -/
def alloc (b : FlipBuffer maxLen) (length : UInt32) : UInt64 × FlipBuffer maxLen :=
  if length > maxLen then (0, b)
  else
    let b := b.withSpace length
    (createPtr (if b.curBuf = 0 then 1 else 2) b.cur.generation b.cur.size,
      b.setCur { b.cur with size := b.cur.size + length })

/-- The offset a handle has in buffer `i`, if it is still good. -/
def dataIn (b : FlipBuffer maxLen) (handle : UInt64) (i : Fin 2) : Option (Fin 2 × UInt32) :=
  if ptrGeneration handle ≠ (b.buffers i).generation then none
  else if ptrOffset handle ≥ (b.buffers i).size then none
  else some (i, ptrOffset handle)

/-- `char *data(handle handle_)`: the buffer and the offset into it. -/
def data (b : FlipBuffer maxLen) (handle : UInt64) : Option (Fin 2 × UInt32) :=
  if ptrBuffer handle = 1 then b.dataIn handle 0
  else if ptrBuffer handle = 2 then b.dataIn handle 1
  else none

/-- `memcpy(ptr, src, length)`; `ptr` is what `data` returned. -/
def memcpy (b : FlipBuffer maxLen) (ptr : Option (Fin 2 × UInt32)) (src : Bytes)
    (length : UInt32) : Checked (FlipBuffer maxLen) :=
  match ptr with
  | none => if length = 0 then .ok b else .error .outOfBounds
  | some (i, offset) =>
    if offset.toNat + length.toNat ≤ maxLen.toNat then
      .ok { b with
        buffers := fun j => if j = i then
          { b.buffers i with data := fun k =>
              if offset.toNat ≤ k ∧ k < offset.toNat + length.toNat then src (k - offset.toNat)
              else (b.buffers i).data k }
          else b.buffers j }
    else .error .outOfBounds

/-! ## Handles -/

theorem toNat_createPtr {buffer : UInt8} (hbuffer : buffer.toNat < 4) (gen : UInt16)
    (offset : UInt32) : (createPtr buffer gen offset).toNat
      = buffer.toNat * 4611686018427387904 + gen.toNat * 4294967296 + offset.toNat := by
  have hgen : gen.toNat < 65536 := gen.toNat_lt
  have hoffset : offset.toNat < 4294967296 := offset.toNat_lt
  have hhigh : (buffer.toUInt64 <<< 62).toNat = buffer.toNat <<< 62 := by
    show buffer.toNat <<< 62 % 18446744073709551616 = _
    omega
  have hmiddle : (gen.toUInt64 <<< 32).toNat = gen.toNat <<< 32 := by
    show gen.toNat <<< 32 % 18446744073709551616 = _
    omega
  have hor : ∀ a b k : Nat, b < 2 ^ k → a <<< k ||| b = a * 2 ^ k + b := by
    intro a b k hb
    rw [← Nat.shiftLeft_add_eq_or_of_lt hb, Nat.shiftLeft_eq]
  unfold createPtr
  rw [UInt64.toNat_or, UInt64.toNat_or, hhigh, hmiddle, Nat.or_assoc]
  show buffer.toNat <<< 62 ||| (gen.toNat <<< 32 ||| offset.toNat) = _
  rw [hor gen.toNat offset.toNat 32 (by omega), hor _ _ 62 (by omega)]
  omega

theorem ptr_createPtr {buffer : UInt8} (hbuffer : buffer.toNat < 4) (gen : UInt16)
    (offset : UInt32) :
    ptrBuffer (createPtr buffer gen offset) = buffer ∧
    ptrGeneration (createPtr buffer gen offset) = gen ∧
    ptrOffset (createPtr buffer gen offset) = offset := by
  have hgen : gen.toNat < 65536 := gen.toNat_lt
  have hoffset : offset.toNat < 4294967296 := offset.toNat_lt
  have hptr := toNat_createPtr hbuffer gen offset
  refine ⟨?_, ?_, ?_⟩
  · apply UInt8.toNat_inj.mp
    unfold ptrBuffer
    rw [UInt64.toNat_toUInt8, UInt64.toNat_shiftRight, hptr]
    show (_ >>> 62) % 256 = _
    omega
  · apply UInt16.toNat_inj.mp
    unfold ptrGeneration
    rw [UInt64.toNat_toUInt16, UInt64.toNat_shiftRight, UInt64.toNat_and, hptr]
    show ((_ &&& 0x0000FFFF00000000) >>> 32) % 65536 = _
    rw [Nat.shiftRight_and_distrib]
    show (_ &&& (2 ^ 16 - 1)) % 65536 = _
    rw [Nat.and_two_pow_sub_one_eq_mod, Nat.shiftRight_eq_div_pow]
    omega
  · apply UInt32.toNat_inj.mp
    unfold ptrOffset
    rw [UInt64.toNat_toUInt32, UInt64.toNat_and, hptr]
    show (_ &&& (2 ^ 32 - 1)) % 4294967296 = _
    rw [Nat.and_two_pow_sub_one_eq_mod]
    omega

/-! ## Allocating -/

def WF (b : FlipBuffer maxLen) : Prop := ∀ i, (b.buffers i).size ≤ maxLen

theorem new_wf (stale : Fin 2 → Bytes) : (new stale : FlipBuffer maxLen).WF := by
  intro i
  exact Nat.zero_le _

theorem cur_setCur (b : FlipBuffer maxLen) (half : FlipHalf) : (b.setCur half).cur = half := by
  simp [cur, setCur]

variable {b : FlipBuffer maxLen}

theorem setCur_wf (h : b.WF) {half : FlipHalf} (hsize : half.size ≤ maxLen) :
    (b.setCur half).WF := by
  intro i
  unfold setCur
  simp only
  split
  · exact hsize
  · exact h i

theorem withSpace_spec (h : b.WF) {length : UInt32} (hlength : length ≤ maxLen) :
    (b.withSpace length).WF ∧
      (b.withSpace length).cur.size.toNat + length.toNat ≤ maxLen.toNat := by
  unfold withSpace
  split
  · refine ⟨setCur_wf (show b.flip.WF from h) ?_, ?_⟩
    · rw [le_iff_toNat]
      exact Nat.zero_le _
    · rw [cur_setCur]
      show 0 + length.toNat ≤ _
      rw [Nat.zero_add]
      exact le_iff_toNat.mp hlength
  next hspace =>
    have hle : b.cur.size ≤ maxLen := h b.curBuf
    have hsize := le_iff_toNat.mp hle
    rw [gt_iff_lt, lt_iff_toNat, UInt32.toNat_sub_of_le _ _ hle] at hspace
    exact ⟨h, by omega⟩

section Grown

variable {c : FlipBuffer maxLen} {length : UInt32}

/-- The handle `alloc` makes for the end of the current buffer. -/
def endHandle (c : FlipBuffer maxLen) : UInt64 :=
  createPtr (if c.curBuf = 0 then 1 else 2) c.cur.generation c.cur.size

/-- The current buffer with `length` bytes more. -/
def grown (c : FlipBuffer maxLen) (length : UInt32) : FlipBuffer maxLen :=
  c.setCur { c.cur with size := c.cur.size + length }

theorem toNat_grown_size (hroom : c.cur.size.toNat + length.toNat ≤ maxLen.toNat) :
    (c.cur.size + length).toNat = c.cur.size.toNat + length.toNat := by
  have hmax : maxLen.toNat < 4294967296 := maxLen.toNat_lt
  rw [toNat_add_eq]
  exact Nat.mod_eq_of_lt (by omega)

theorem grown_wf (hwf : c.WF) (hroom : c.cur.size.toNat + length.toNat ≤ maxLen.toNat) :
    (c.grown length).WF := by
  apply setCur_wf hwf
  rw [le_iff_toNat, toNat_grown_size hroom]
  exact hroom

theorem dataIn_grown (hroom : c.cur.size.toNat + length.toNat ≤ maxLen.toNat)
    (hg : ptrGeneration c.endHandle = c.cur.generation) (ho : ptrOffset c.endHandle = c.cur.size) :
    (c.grown length).dataIn c.endHandle c.curBuf
      = if length = 0 then none else some (c.curBuf, c.cur.size) := by
  have hself : (c.grown length).buffers c.curBuf
      = { c.cur with size := c.cur.size + length } := if_pos rfl
  unfold dataIn
  rw [hg, ho, hself, if_neg (by simp)]
  by_cases hzero : length = 0
  · rw [if_pos hzero, if_pos]
    rw [ge_iff_le, le_iff_toNat, toNat_grown_size hroom, hzero]
    exact Nat.le_refl _
  have hpos : length.toNat ≠ 0 := by
    intro h0
    exact hzero (eq_iff_toNat.mpr h0)
  rw [if_neg hzero, if_neg]
  rw [ge_iff_le, le_iff_toNat, toNat_grown_size hroom]
  omega

theorem data_grown (hroom : c.cur.size.toNat + length.toNat ≤ maxLen.toNat) :
    (c.grown length).data c.endHandle
      = if length = 0 then none else some (c.curBuf, c.cur.size) := by
  have hbuf : (if c.curBuf = 0 then (1 : UInt8) else 2).toNat < 4 := by split <;> decide
  obtain ⟨hb, hg, ho⟩ := ptr_createPtr hbuf c.cur.generation c.cur.size
  have hin := dataIn_grown hroom hg ho
  have hb : ptrBuffer c.endHandle = if c.curBuf = 0 then 1 else 2 := hb
  unfold data
  rw [hb]
  by_cases hcur : c.curBuf = 0
  · rw [if_pos hcur, if_pos rfl]
    rw [hcur] at hin ⊢
    exact hin
  · have hone : c.curBuf = 1 := by omega
    rw [hone] at hin ⊢
    exact hin

end Grown

theorem alloc_spec (h : b.WF) {length : UInt32} (hlength : length ≤ maxLen) (src : Bytes) :
    ∃ b', (b.alloc length).2.memcpy ((b.alloc length).2.data (b.alloc length).1) src length
      = .ok b' ∧ b'.WF := by
  obtain ⟨hwf, hroom⟩ := withSpace_spec h hlength
  have hfits : ¬ length > maxLen := by
    rw [gt_iff_lt, lt_iff_toNat, Nat.not_lt]
    exact le_iff_toNat.mp hlength
  have halloc : b.alloc length
      = ((b.withSpace length).endHandle, (b.withSpace length).grown length) := by
    rw [alloc, if_neg hfits]
    rfl
  have hwf' := grown_wf hwf hroom
  rw [halloc]
  rw [data_grown hroom]
  by_cases hzero : length = 0
  · rw [if_pos hzero]
    exact ⟨_, by rw [memcpy, if_pos hzero], hwf'⟩
  rw [if_neg hzero]
  refine ⟨_, by rw [memcpy, if_pos hroom], ?_⟩
  intro j
  simp only
  split
  · exact hwf' (b.withSpace length).curBuf
  · exact hwf' j

end FlipBuffer

end Peos2.Support
