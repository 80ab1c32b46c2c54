/-
  Kernel.Ramfs — reading and seeking in files of the RAM file system
  (`kernel/ramfs.cc`).

  A file is a range of memory; an opened file adds a position. Positions are
  words of 32 bits, offsets and lengths are of type `int`.

  Main results: `read_pieces`, `seek_clamps_iff`, `reach_alone`.
-/
import Mathlib.Algebra.GroupWithZero.Nat
import Peos2.Lib.Run
import Peos2.Lib.Word
import Peos2.Support.Pool

namespace Peos2.Kernel

open Peos2.Lib Peos2.Support

/-- `ramfs_opened_file` with the `mem_range_file` of its node; `data` is the
memory from `start` on. -/
structure RamFile where
  data : Nat → UInt8
  size : UInt32
  position : UInt32

/-- `SEEK_BEG` and `SEEK_CUR`. -/
inductive Whence where
  | beg
  | cur
  deriving DecidableEq

namespace RamFile

/-- `static int read(int handle, char *data, int length)`: the number of bytes
copied from the position on. A count below 0 or beyond the file would copy
memory that is not the file's. -/
def read (file : RamFile) (length : Int) : Checked (Nat × RamFile) :=
  let upTo := file.position + unsigned length
  let bytesToCopy := signed ((if upTo > file.size then file.size else upTo) - file.position)
  if bytesToCopy < 0 ∨ file.size.toNat < file.position.toNat + bytesToCopy.toNat then
    .error .outOfBounds
  else .ok (bytesToCopy.toNat, { file with position := file.position + unsigned bytesToCopy })

def src (file : RamFile) (i : Nat) : UInt8 := file.data (file.position.toNat + i)

/-- `static int seek(int handle, int offset, int relative)` -/
def seek (file : RamFile) (offset : Int) (relative : Whence) : RamFile :=
  let position := match relative with
    | .cur => file.position + unsigned offset
    | .beg => unsigned (max offset 0)
  { file with position := if position > file.size then file.size else position }

/-- A seek to an offset below 2^31 goes there, or to the end of the file;
any other offset is negative and goes to the start. -/
theorem position_seek (file : RamFile) (offset : UInt32) :
    (file.seek (signed offset) .beg).position.toNat
      = if offset.toNat < 2147483648 then min offset.toNat file.size.toNat else 0 := by
  show (if unsigned (max (signed offset) 0) > file.size then file.size
    else unsigned (max (signed offset) 0)).toNat = _
  have hborder := toNat_lt_border offset
  by_cases hsmall : offset.toNat < 2147483648
  · rw [signed_of_lt hsmall, Int.max_eq_left (by omega)]
    have hsame : (unsigned (offset.toNat : Int)).toNat = offset.toNat :=
      toNat_unsigned_of_nonneg (by omega) (by omega)
    split
    next hgt =>
      rw [gt_iff_lt, lt_iff_toNat] at hgt
      omega
    next hle =>
      rw [gt_iff_lt, lt_iff_toNat] at hle
      omega
  rw [signed_of_ge (by omega), Int.max_eq_right (by omega)]
  have hzero : (unsigned 0).toNat = 0 := by decide
  split
  next hgt =>
    rw [gt_iff_lt, lt_iff_toNat] at hgt
    omega
  · exact hzero

theorem position_seek_le (file : RamFile) (offset : UInt32) :
    (file.seek (signed offset) .beg).position.toNat ≤ file.size.toNat := by
  rw [position_seek]
  split <;> omega

/-- A read returns what is left of the file, up to the length, and advances by
it, unless the sum wraps around or the count is not an `int`. -/
theorem read_spec {file : RamFile} (length : Nat) (hpos : file.position.toNat ≤ file.size.toNat)
    (hlength : file.position.toNat + length < 4294967296)
    (hint : min length (file.size.toNat - file.position.toNat) < 2147483648) :
    ∃ position, file.read length = .ok (min length (file.size.toNat - file.position.toNat),
      { file with position := position }) ∧ position.toNat = file.position.toNat
        + min length (file.size.toNat - file.position.toNat) := by
  have hlen : (unsigned (length : Int)).toNat = length :=
    toNat_unsigned_of_nonneg (by omega) (by omega)
  have hsum : (file.position + unsigned (length : Int)).toNat = file.position.toNat + length := by
    rw [toNat_add_eq]
    omega
  -- the bytes up to the end of the file or of the request
  obtain ⟨upTo, hupTo⟩ : ∃ upTo, upTo = if file.position + unsigned (length : Int) > file.size
    then file.size else file.position + unsigned (length : Int) := ⟨_, rfl⟩
  have hend : upTo.toNat
      = file.position.toNat + min length (file.size.toNat - file.position.toNat) := by
    rw [hupTo]
    split <;> rename_i h <;> rw [gt_iff_lt, lt_iff_toNat] at h <;> omega
  have hcount : (upTo - file.position).toNat
      = min length (file.size.toNat - file.position.toNat) := by
    rw [UInt32.toNat_sub_of_le _ _ (le_iff_toNat.mpr (by omega))]
    omega
  have hsigned := signed_of_lt (u := upTo - file.position) (by omega)
  refine ⟨file.position + unsigned (signed (upTo - file.position)), ?_, ?_⟩
  · unfold read
    simp only [← hupTo]
    rw [hsigned, hcount, if_neg (by omega), Int.toNat_natCast]
  · rw [unsigned_signed, toNat_add_eq]
    omega

/-- A read of at most a page returns what is left of the file, up to the
length, for a file that ends a page below 2^32. -/
theorem read_eq {file : RamFile} {length : Nat} (hpos : file.position.toNat ≤ file.size.toNat)
    (hlength : length ≤ 0x1000) (hsize : file.size.toNat < 0xFFFFF000) :
    ∃ position, file.read length = .ok (min length (file.size.toNat - file.position.toNat),
      { file with position := position }) := by
  obtain ⟨position, hread, _⟩ := read_spec length hpos (by omega) (by omega)
  exact ⟨position, hread⟩

/-! ## Relative seeks -/

/-- Where a relative seek is to end. -/
def clamped (file : RamFile) (offset : Int) : Int :=
  min (max (file.position.toNat + offset) 0) file.size.toNat

theorem position_seek_cur (file : RamFile) (offset : Int) :
    ((file.seek offset .cur).position.toNat : Int)
      = min ((file.position.toNat + offset) % 4294967296) file.size.toNat := by
  have hsum : ((file.position + unsigned offset).toNat : Int)
      = (file.position.toNat + offset) % 4294967296 := by
    rw [toNat_add_eq, toNat_unsigned]
    omega
  show ((if file.position + unsigned offset > file.size then file.size
    else file.position + unsigned offset).toNat : Int) = _
  split <;> rename_i h <;> rw [gt_iff_lt, lt_iff_toNat] at h <;> omega

/-- **When a relative seek clamps in the integers**: a sum below 0 becomes one beyond every
size, and one from 2^32 on starts again at 0. A seek inside the file can be undone. -/
theorem seek_clamps_iff {file : RamFile} (hsize : file.size.toNat < 2147483648) {offset : Int}
    (hlow : -2147483648 ≤ offset) (hhigh : offset < 2147483648) :
    (((file.seek offset .cur).position.toNat : Int) = file.clamped offset ↔
      (0 ≤ file.position.toNat + offset ∨ file.size.toNat = 0) ∧
      (file.position.toNat + offset < 4294967296 ∨
        file.size.toNat ≤ file.position.toNat + offset - 4294967296)) ∧
    (0 ≤ offset → file.position.toNat + offset ≤ file.size.toNat →
      (file.seek offset .cur).seek (-offset) .cur = file) := by
  have hpos := toNat_lt_border file.position
  constructor
  · rw [position_seek_cur, clamped]
    omega
  · intro hpos' hin
    have hthere := position_seek_cur file offset
    have hback := position_seek_cur (file.seek offset .cur) (-offset)
    have hsame : ((file.seek offset .cur).seek (-offset) .cur).position = file.position := by
      rw [eq_iff_toNat]
      have hkeep : (file.seek offset .cur).size = file.size := rfl
      rw [hkeep] at hback
      omega
    show { file with position := ((file.seek offset .cur).seek (-offset) .cur).position } = file
    rw [hsame]

theorem seek_clamps_iff_two : ∃ file : RamFile, file.size.toNat < 2147483648 ∧
    ((file.seek (-1) .cur).position.toNat : Int) = file.clamped (-1) := by
  refine ⟨⟨fun _ => 0, 3, 2⟩, by decide, ?_⟩
  exact (seek_clamps_iff (by decide) (by decide) (by decide)).1.mpr ⟨by decide, by decide⟩

/-- **A seek back past the beginning ends at the end of the file.** -/
theorem seek_back_wraps : ((RamFile.seek ⟨fun _ => 0, 3, 1⟩ (-2) .cur).position.toNat : Int) = 3 ∧
    RamFile.clamped ⟨fun _ => 0, 3, 1⟩ (-2) = 0 := by
  decide

/-! ## Reading in pieces -/

def contents (file : RamFile) : List UInt8 := (List.range file.size.toNat).map file.data

/-- `read`, with the bytes that are copied. -/
def readBytes (file : RamFile) (length : Int) : Checked (List UInt8 × RamFile) := do
  let (count, file') ← file.read length
  .ok ((List.range count).map file.src, file')

inductive Call where
  | read (length : Int)
  | seek (offset : Int)

/-- Lengths that are not negative. -/
def Call.Admitted : Call → Prop
  | .read length => 0 ≤ length ∧ length < 2147483648
  | .seek _ => True

def call (file : RamFile) : Call → Checked (List UInt8 × RamFile)
  | .read length => file.readBytes length
  | .seek offset => .ok ([], file.seek offset .beg)

def readAll : List Int → RamFile → Checked (List UInt8 × RamFile)
  | [], file => .ok ([], file)
  | length :: lengths, file => do
    let (bytes, file) ← file.readBytes length
    let (rest, file) ← readAll lengths file
    .ok (bytes ++ rest, file)

def Opened (file : RamFile) : Prop :=
  file.position = 0 ∧ file.size.toNat < 2147483648

def Step (file file' : RamFile) : Prop :=
  ∃ c : Call, c.Admitted ∧ ∃ bytes, file.call c = .ok (bytes, file')

variable {file file' : RamFile}

theorem readBytes_eq (hpos : file.position.toNat ≤ file.size.toNat)
    (hsize : file.size.toNat < 2147483648) {length : Int} (h0 : 0 ≤ length)
    (hlength : length < 2147483648) :
    ∃ position, file.readBytes length
        = .ok ((file.contents.drop file.position.toNat).take length.toNat, { file with position }) ∧
      position.toNat = file.position.toNat
        + min length.toNat (file.size.toNat - file.position.toNat) := by
  obtain ⟨n, rfl⟩ := Int.eq_ofNat_of_zero_le h0
  obtain ⟨position, hread, hposition⟩ := read_spec n hpos (by omega) (by omega)
  refine ⟨position, ?_, hposition⟩
  rw [readBytes, hread, ok_bind]
  -- byte by byte
  show Except.ok (_, _) = _
  congr 2
  apply List.ext_getElem
  · simp [contents]
  · intro i _ _
    simp [contents, src]

theorem call_position {c : Call} {bytes : List UInt8} (h : file.call c = .ok (bytes, file')) :
    file' = { file with position := file'.position } := by
  cases c with
  | read length =>
    obtain ⟨⟨count, file1⟩, hread, h⟩ := bind_ok.mp h
    cases h
    simp only [read] at hread
    split_ifs at hread <;> cases hread <;> rfl
  | seek offset =>
    cases h
    rfl

theorem Step.keeps (h : Step file file') (hsize : file.size.toNat < 2147483648)
    (hpos : file.position.toNat ≤ file.size.toNat) :
    file'.size = file.size ∧ file'.position.toNat ≤ file'.size.toNat := by
  obtain ⟨c, hadmitted, bytes, hcall⟩ := h
  cases c with
  | read length =>
    obtain ⟨position, hread, _⟩ := readBytes_eq hpos hsize hadmitted.1 hadmitted.2
    cases hread.symm.trans hcall
    refine ⟨rfl, ?_⟩
    show position.toNat ≤ file.size.toNat
    omega
  | seek offset =>
    cases hcall
    refine ⟨rfl, ?_⟩
    show (if unsigned (max offset 0) > file.size then file.size
      else unsigned (max offset 0)).toNat ≤ file.size.toNat
    split
    · exact Nat.le_refl _
    · next hle => exact UInt32.not_lt.mp hle

theorem readAll_eq (lengths : List Int) (hlengths : ∀ n ∈ lengths, 0 ≤ n ∧ n < 2147483648) :
    ∀ file : RamFile, file.position.toNat ≤ file.size.toNat → file.size.toNat < 2147483648 →
    ∃ file', readAll lengths file = .ok ((file.contents.drop file.position.toNat).take
      (lengths.map Int.toNat).sum, file') := by
  induction lengths with
  | nil => exact fun file _ _ => ⟨file, by simp [readAll]⟩
  | cons n lengths ih =>
    intro file hpos hsize
    obtain ⟨hn, hlengths⟩ := List.forall_mem_cons.mp hlengths
    obtain ⟨position, hread, hposition⟩ := readBytes_eq hpos hsize hn.1 hn.2
    obtain ⟨file', hrest⟩ := ih hlengths { file with position }
      (show position.toNat ≤ file.size.toNat by omega) hsize
    refine ⟨file', ?_⟩
    rw [readAll, hread, ok_bind]
    simp only [hrest, ok_bind]
    -- the second read begins where the first one ended
    have hlen : file.contents.length = file.size.toNat := by simp [contents]
    have hskip : file.contents.drop position.toNat
        = (file.contents.drop file.position.toNat).drop n.toNat := by
      rw [List.drop_drop, hposition]
      by_cases hfit : n.toNat ≤ file.size.toNat - file.position.toNat
      · rw [Nat.min_eq_left hfit]
      · rw [List.drop_of_length_le (by omega), List.drop_of_length_le (by omega)]
    show Except.ok (_ ++ (file.contents.drop position.toNat).take _, file') = _
    rw [hskip, List.map_cons, List.sum_cons, List.take_add]

/-- **Reading a file in pieces gives the file**: after any reads and absolute seeks the position
is inside the file, a read returns what is left up to its length and advances by that, and reads
in a row return one piece of the file. -/
theorem read_pieces (h : Reach Opened Step file) :
    file.position.toNat ≤ file.size.toNat ∧
    (∀ length : Int, 0 ≤ length → length < 2147483648 → ∃ bytes file',
      file.readBytes length = .ok (bytes, file') ∧
      bytes.length = min length.toNat (file.size.toNat - file.position.toNat) ∧
      bytes = (file.contents.drop file.position.toNat).take length.toNat ∧
      file'.position.toNat = file.position.toNat + bytes.length) ∧
    ∀ lengths : List Int, (∀ n ∈ lengths, 0 ≤ n ∧ n < 2147483648) →
      ∃ file', readAll lengths file = .ok ((file.contents.drop file.position.toNat).take
        (lengths.map Int.toNat).sum, file') := by
  obtain ⟨hsize, hpos⟩ : file.size.toNat < 2147483648 ∧ file.position.toNat ≤ file.size.toNat := by
    induction h with
    | init hopened => exact ⟨hopened.2, by simp [hopened.1]⟩
    | step _ hstep ih =>
      obtain ⟨hsame, hpos⟩ := hstep.keeps ih.1 ih.2
      exact ⟨hsame ▸ ih.1, hpos⟩
  refine ⟨hpos, ?_, fun lengths hlengths => readAll_eq lengths hlengths file hpos hsize⟩
  intro length h0 hlength
  obtain ⟨position, hread, hposition⟩ := readBytes_eq hpos hsize h0 hlength
  have hcount : ((file.contents.drop file.position.toNat).take length.toNat).length
      = min length.toNat (file.size.toNat - file.position.toNat) := by simp [contents]
  exact ⟨_, _, hread, hcount, rfl, hposition.trans (by rw [hcount])⟩

theorem read_pieces_two : ∃ file : RamFile, Reach Opened Step file ∧ file.position = 2 ∧
    file.position.toNat ≤ file.size.toNat := by
  have hopened : Opened ⟨fun i => UInt8.ofNat i, 3, 0⟩ := ⟨rfl, by decide⟩
  have hread : Reach Opened Step ⟨fun i => UInt8.ofNat i, 3, 2⟩ :=
    (Reach.init hopened).step ⟨.read 2, ⟨by decide, by decide⟩, [0, 1], rfl⟩
  exact ⟨_, hread, rfl, (read_pieces hread).1⟩

end RamFile

/-! ## Handles that share a file -/

structure RamfsOpenedFile where
  node : Nat
  position : UInt32

/-- The memory and the size of each file, by its node, and `opened_files`. -/
structure Ramfs where
  files : Nat → (Nat → UInt8) × UInt32
  openedFiles : Pool RamfsOpenedFile 32 0xFFFF

namespace Ramfs

def file (fs : Ramfs) (fd : RamfsOpenedFile) : RamFile :=
  ⟨(fs.files fd.node).1, (fs.files fd.node).2, fd.position⟩

inductive Call where
  | openNode (node : Nat)
  | use (handle : Nat) (c : RamFile.Call)
  | close (handle : Nat)

/-- The end of `open`, where the path has led to a node; `read`, `seek` and `close`. -/
def exec (fs : Ramfs) : Call → Checked (Pool RamfsOpenedFile 32 0xFFFF)
  | .openNode node => do
    let (_, openedFiles) ← fs.openedFiles.emplaceAnywhere ⟨node, 0⟩
    .ok openedFiles
  | .use handle c => do
    let fd ← fs.openedFiles.get handle
    let (_, file) ← (fs.file fd).call c
    fs.openedFiles.set handle { fd with position := file.position }
  | .close handle => fs.openedFiles.erase handle

def Init (fs : Ramfs) : Prop :=
  fs.openedFiles = Pool.blank ∧ ∀ n, (fs.files n).2.toNat < 2147483648

def Step (fs fs' : Ramfs) : Prop :=
  ∃ c, (∀ handle call, c = .use handle call → call.Admitted) ∧
    ∃ openedFiles, fs.exec c = .ok openedFiles ∧ fs' = { fs with openedFiles }

/-- Every handle has been used as if its file were open once. -/
structure Alone (fs : Ramfs) : Prop where
  wf : fs.openedFiles.WF
  size : ∀ n, (fs.files n).2.toNat < 2147483648
  reach : ∀ i fd, fs.openedFiles.lookup i = some fd → Reach RamFile.Opened RamFile.Step (fs.file fd)

variable {fs fs' : Ramfs}

theorem Alone.change {openedFiles : Pool RamfsOpenedFile 32 0xFFFF} {i : Nat}
    {e : Option RamfsOpenedFile} (h : fs.Alone) (hwf : openedFiles.WF)
    (hlook : ∀ j, openedFiles.lookup j = if j = i then e else fs.openedFiles.lookup j)
    (he : ∀ fd ∈ e, Reach RamFile.Opened RamFile.Step (fs.file fd)) :
    { fs with openedFiles }.Alone := by
  refine ⟨hwf, h.size, fun j fd hj => ?_⟩
  rw [hlook] at hj
  split at hj
  · exact he fd hj
  · exact h.reach j fd hj

theorem Alone.step (h : fs.Alone) (hstep : fs.Step fs') : fs'.Alone := by
  obtain ⟨c, hc, openedFiles, hcall, rfl⟩ := hstep
  cases c with
  | openNode node =>
    obtain ⟨⟨i, pool⟩, hput, hcall⟩ := bind_ok.mp hcall
    cases hcall
    obtain ⟨_, hwf, _, hlook⟩ := Pool.emplaceAnywhere_ok h.wf hput
    refine h.change hwf hlook fun fd hfd => ?_
    cases hfd
    exact .init ⟨rfl, h.size node⟩
  | use handle call =>
    obtain ⟨fd, hget, hcall⟩ := bind_ok.mp hcall
    obtain ⟨⟨bytes, file'⟩, huse, hset⟩ := bind_ok.mp hcall
    obtain ⟨_, hwf, hlook⟩ := Pool.set_ok h.wf hset
    refine h.change hwf hlook fun fd' hfd => ?_
    cases hfd
    have hreach := (h.reach _ _ (Pool.get_ok hget)).step ⟨call, hc _ _ rfl, bytes, huse⟩
    rwa [RamFile.call_position huse] at hreach
  | close handle =>
    obtain ⟨_, hwf, hlook⟩ := Pool.erase_ok h.wf hcall
    exact h.change hwf hlook fun fd hfd => by cases hfd

/-- Handles that share a file do not disturb each other: each reads as `read_pieces` says. -/
theorem reach_alone (h : Reach Init Step fs) : fs.Alone := by
  refine h.invariant (fun fs hinit => ?_) (fun _ _ _ halone hstep => halone.step hstep)
  refine ⟨hinit.1 ▸ Pool.blank_wf (by decide), hinit.2, fun i fd hi => ?_⟩
  rw [hinit.1, Pool.lookup_blank] at hi
  cases hi

end Ramfs

end Peos2.Kernel
