/-
  Kernel.Elf — loading a program (`kernel/elf.cc`).

  Every segment of type `PT_LOAD` becomes a file area that starts at the page of the
  segment, but the offset into the file that is recorded is that of the segment: if it
  does not start at a page boundary its bytes are found below their addresses. And a
  page that starts behind the part that is in the file is not left at zero: the count
  of the bytes to read wraps around, and the page is read from what follows.

  Main results: `loads_iff`, `segments_not_loaded`.
-/
import Peos2.Kernel.Accesses

namespace Peos2.Kernel

open Peos2.Lib Peos2.Support

/-! ## Headers -/

def field16 (bytes : Nat → UInt8) (pos : Nat) : UInt16 :=
  (bytes pos).toUInt16 ||| (bytes (pos + 1)).toUInt16 <<< 8

def field32 (bytes : Nat → UInt8) (pos : Nat) : UInt32 :=
  (field16 bytes pos).toUInt32 ||| (field16 bytes (pos + 2)).toUInt32 <<< 16

/-- `elf_header`, as far as it is read. -/
structure ElfHeader where
  eIdent : Nat → UInt8
  eType : UInt16
  eEntry : UInt32
  ePhnum : UInt16

/-- `sizeof(elf_header)` and `sizeof(elf_program_header)` -/
def elfHeaderSize : Nat := 52
def elfProgramHeaderSize : Nat := 32

def ElfHeader.ofBytes (bytes : Nat → UInt8) : ElfHeader :=
  ⟨bytes, field16 bytes 16, field32 bytes 24, field16 bytes 44⟩

/-- `PT_LOAD` -/
def ptLoad : UInt32 := 1

/-- `PF_X`, `PF_W` and `PF_R` -/
def pfX : UInt32 := 1
def pfW : UInt32 := 2
def pfR : UInt32 := 4

/-- `elf_program_header`, as far as it is read. -/
structure ProgramHeader where
  pType : UInt32
  pOffset : UInt32
  pVaddr : UInt32
  pFilesz : UInt32
  pMemsz : UInt32
  pFlags : UInt32
  deriving Repr, DecidableEq

def ProgramHeader.ofBytes (bytes : Nat → UInt8) : ProgramHeader :=
  ⟨field32 bytes 0, field32 bytes 4, field32 bytes 8, field32 bytes 16, field32 bytes 20,
    field32 bytes 24⟩

/-- `pht[0]` to `pht[count - 1]` -/
def programHeaders (bytes : Nat → UInt8) (count : Nat) : List ProgramHeader :=
  (List.range count).map fun i => .ofBytes fun j => bytes (elfProgramHeaderSize * i + j)

/-- The tests of `elf_map_process` on the header. -/
def ElfHeader.verify (hdr : ElfHeader) : Checked Unit := do
  check (hdr.eIdent 0 == 0x7F && hdr.eIdent 1 == 0x45 && hdr.eIdent 2 == 0x4C
    && hdr.eIdent 3 == 0x46) "not elf format"
  check (hdr.eIdent 4 == 1) "only 32 bit supported"
  check (hdr.eIdent 5 == 1) "only little endian supported"
  check (hdr.eIdent 6 == 1) "only version 1 supported"
  check (hdr.eType == 2) "Only executable files supported"
  check (hdr.ePhnum < 32) "hdr.e_phnum < ARRAY_SIZE(pht)"

/-- The part of `elf_map_process` that reads the file: the entry point, the program headers
(from behind the header, whatever `e_phoff` says), and the file as the reads leave it. -/
def RamFile.readHeaders (file : RamFile) : Checked (UInt32 × List ProgramHeader × RamFile) := do
  let (bytesRead, afterHdr) ← file.read elfHeaderSize
  check (bytesRead = elfHeaderSize) "*read_result == sizeof(hdr)"
  let hdr := ElfHeader.ofBytes file.src
  hdr.verify
  let (bytesRead, afterPht) ← afterHdr.read (elfProgramHeaderSize * hdr.ePhnum.toNat)
  check (bytesRead = elfProgramHeaderSize * hdr.ePhnum.toNat)
    "bytes_read == sizeof(elf_program_header) * hdr.e_phnum"
  .ok (hdr.eEntry, programHeaders afterHdr.src hdr.ePhnum.toNat, afterPht)

/-- `flags` of a segment. -/
def ProgramHeader.areaFlags (ph : ProgramHeader) : UInt16 :=
  memAreaUser
    ||| (if ph.pFlags &&& pfX ≠ 0 then memAreaExecutable else 0)
    ||| (if ph.pFlags &&& pfW ≠ 0 then memAreaReadwrite else 0)
    ||| (if ph.pFlags &&& pfR ≠ 0 then memAreaSyscall else 0)

/-- The ends of the area of a segment. -/
def ProgramHeader.areaStart (ph : ProgramHeader) : UInt32 := alignDown ph.pVaddr
def ProgramHeader.areaStop (ph : ProgramHeader) : UInt32 := alignUp (ph.pVaddr + ph.pMemsz)

namespace Memory

/-- The body of the loop of `elf_map_process`. -/
def mapSegment (fd : Int) (m : Memory) (ph : ProgramHeader) : Checked Memory :=
  if ph.pType = ptLoad then do
    let (_, m) ← m.memMapFd m.currentSpace ph.areaStart ph.areaStop fd ph.pOffset ph.pFilesz
      ph.areaFlags
    .ok m
  else .ok m

/-- `int elf_map_process(proc_handle pid, const char *filename)` for the current process.
`opened` is what `vfs_open` returns, an error or a descriptor; the result is the error, or the
entry point that is set as the return value. -/
def elfMapProcess (m : Memory) (opened : Except Int (Int × RamFile)) :
    Checked (Except Int UInt32 × Memory) :=
  match opened with
  | .error error => .ok (.error error, m)
  | .ok (fd, file) => do
      let (entry, headers, file) ← file.readHeaders
      let m := { m with files := Function.update m.files fd (some file) }
      let m ← headers.foldlM (mapSegment fd) m
      .ok (.ok entry, m)

/-! ## Mapping the segments -/

variable {m m' : Memory} {fd : Int} {ph : ProgramHeader}

/-- The area of a segment whose file map is entry `k`. -/
def segmentArea (ph : ProgramHeader) (k : Nat) : AreaInfo :=
  ⟨ph.areaStart, ph.areaStop, areaFile, ph.areaFlags, UInt16.ofNat k⟩

/-- The segment is mapped in the current space. -/
structure Segment (m : Memory) (fd : Int) (ph : ProgramHeader) (i k : Nat) : Prop where
  small : k < 16
  area : m.area m.currentSpace i = some (segmentArea ph k)
  info : m.fileMap m.currentSpace k = some ⟨fd, ph.pOffset, ph.pFilesz⟩

structure Extends (m m' : Memory) : Prop where
  orderly : m'.Orderly
  same : m' = { m with spaces := m'.spaces }
  entry : m'.entry = m.entry
  maps : m.KeepsMaps m' m.currentSpace
  areas : ∀ j k area, m.area j k = some area → m'.area j k = some area

theorem Extends.refl (ho : m.Orderly) : m.Extends m :=
  ⟨ho, rfl, rfl, ⟨fun _ _ => rfl, fun _ _ h => h, fun _ _ h => h⟩, fun _ _ _ h => h⟩

theorem Extends.trans {m'' : Memory} (h1 : m.Extends m') (h2 : m'.Extends m'') : m.Extends m'' := by
  have hmaps := h2.maps
  rw [show m'.currentSpace = m.currentSpace by rw [h1.same]] at hmaps
  refine ⟨h2.orderly, ?_, h2.entry.trans h1.entry, h1.maps.trans hmaps,
    fun j k area harea => h2.areas j k area (h1.areas j k area harea)⟩
  rw [h2.same]
  rw [h1.same]

theorem Extends.segment {i k : Nat} (hext : m.Extends m') (hseg : m.Segment fd ph i k) :
    m'.Segment fd ph i k := by
  have hcurrent : m'.currentSpace = m.currentSpace := by rw [hext.same]
  refine ⟨hseg.small, ?_, ?_⟩
  · rw [hcurrent]
    exact hext.areas _ _ _ hseg.area
  · rw [hcurrent]
    exact hext.maps.file _ _ hseg.info

theorem toNat_alignUp_mod (v : UInt32) : (alignUp v).toNat % 0x1000 = 0 := by
  unfold alignUp
  rw [toNat_and_not_0xFFF]
  omega

theorem segment_aligned (ph : ProgramHeader) :
    AddressSpace.PageAligned ph.areaStart ph.areaStop := by
  refine ⟨?_, toNat_alignUp_mod _⟩
  show (alignDown ph.pVaddr).toNat % 0x1000 = 0
  rw [toNat_alignDown]
  omega

def Untouched (m : Memory) (ph : ProgramHeader) : Prop :=
  ∀ n, ph.areaStart.toNat ≤ n * 0x1000 → n * 0x1000 < ph.areaStop.toNat →
    m.entry m.currentSpace n = none

theorem mapSegment_ok (ho : m.Orderly) (hcall : mapSegment fd m ph = .ok m') :
    m.Extends m' ∧ (ph.pType = ptLoad → (∃ i k, m'.Segment fd ph i k) ∧ m'.Untouched ph) := by
  unfold mapSegment at hcall
  by_cases hload : ph.pType = ptLoad
  · rw [if_pos hload] at hcall
    obtain ⟨⟨i, m1⟩, hmap, hcall⟩ := bind_ok.mp hcall
    cases hcall
    obtain ⟨k, hk, hadds, hentry, hmaps, hinfo⟩ := memMapFd_records ho.shaped hmap
    have hcurrent : m'.currentSpace = m.currentSpace := by rw [hadds.same]
    have ho' := ho.addArea hadds (segment_aligned ph) fun j n => Or.inl (by rw [hentry])
    refine ⟨⟨ho', hadds.same, hentry, hmaps, fun j n area harea => hadds.area_old harea⟩,
      fun _ => ⟨⟨i, k, hk, ?_, ?_⟩, ?_⟩⟩
    · rw [hcurrent, hadds.areas, if_pos ⟨rfl, rfl⟩]
      rfl
    · rw [hcurrent]
      exact hinfo
    · -- a present page would lie in an area, and the new one overlaps none
      intro n hlow hhigh
      rw [hentry, hcurrent]
      exact ho.vacant hadds ⟨hlow, hhigh⟩
  · rw [if_neg hload] at hcall
    cases hcall
    exact ⟨.refl ho, fun h => absurd h hload⟩

theorem mapSegments_ok (headers : List ProgramHeader) : ∀ {m m' : Memory}, m.Orderly →
    headers.foldlM (mapSegment fd) m = .ok m' →
    m.Extends m' ∧ ∀ ph ∈ headers, ph.pType = ptLoad →
      (∃ i k, m'.Segment fd ph i k) ∧ m'.Untouched ph := by
  induction headers with
  | nil =>
    intro m m' ho hcall
    cases hcall
    exact ⟨.refl ho, fun ph hph => absurd hph (by simp)⟩
  | cons first rest ih =>
    intro m m' ho hcall
    obtain ⟨m1, hround, hcall⟩ := bind_ok.mp hcall
    obtain ⟨hext1, hfirst⟩ := mapSegment_ok ho hround
    obtain ⟨hext2, hrest⟩ := ih hext1.orderly hcall
    refine ⟨hext1.trans hext2, fun ph hph hload => ?_⟩
    rcases List.mem_cons.mp hph with rfl | hmem
    · obtain ⟨⟨i, k, hseg⟩, hvacant⟩ := hfirst hload
      refine ⟨⟨i, k, hext2.segment hseg⟩, fun n hlow hhigh => ?_⟩
      have hcurrent : m'.currentSpace = m1.currentSpace := by rw [hext2.same]
      rw [hext2.entry, hcurrent]
      exact hvacant n hlow hhigh
    · exact hrest ph hmem hload

theorem elfMapProcess_ok {file file' : RamFile} {entry entry' : UInt32}
    {headers : List ProgramHeader} (ho : m.Orderly)
    (hheaders : file.readHeaders = .ok (entry, headers, file'))
    (hcall : m.elfMapProcess (.ok (fd, file)) = .ok (.ok entry', m')) :
    m'.Orderly ∧ m'.allocator = m.allocator ∧ m'.files fd = some file' ∧
      ∀ ph ∈ headers, ph.pType = ptLoad → (∃ i k, m'.Segment fd ph i k) ∧ m'.Untouched ph := by
  unfold elfMapProcess at hcall
  simp only at hcall
  rw [hheaders, ok_bind] at hcall
  obtain ⟨m1, hloop, hcall⟩ := bind_ok.mp hcall
  cases hcall
  obtain ⟨hext, hall⟩ := mapSegments_ok headers
    (ho.outside m.ram (Function.update m.files fd (some file'))) hloop
  have hfiles : m'.files = Function.update m.files fd (some file') := by rw [hext.same]
  refine ⟨hext.orderly, by rw [hext.same], ?_, hall⟩
  rw [hfiles]
  exact Function.update_self fd (some file') m.files

end Memory

/-! ## The bytes of a segment -/

variable {file : RamFile}

theorem RamFile.read_ok {file' : RamFile} {length : Int} {count : Nat}
    (h : file.read length = .ok (count, file')) :
    ∃ position, file' = { file with position := position } := by
  unfold RamFile.read at h
  simp only at h
  generalize signed ((if file.position + unsigned length > file.size then file.size
    else file.position + unsigned length) - file.position) = bytesToCopy at h
  split at h
  · cases h
  · cases h
    exact ⟨_, rfl⟩

theorem RamFile.readHeaders_ok {file' : RamFile} {entry : UInt32} {headers : List ProgramHeader}
    (h : file.readHeaders = .ok (entry, headers, file')) :
    ∃ position, file' = { file with position := position } := by
  obtain ⟨⟨_, afterHdr⟩, hread1, h⟩ := bind_ok.mp h
  obtain ⟨_, _, h⟩ := bind_ok.mp h
  obtain ⟨_, _, h⟩ := bind_ok.mp h
  obtain ⟨⟨_, afterPht⟩, hread2, h⟩ := bind_ok.mp h
  obtain ⟨_, _, h⟩ := bind_ok.mp h
  cases h
  obtain ⟨_, rfl⟩ := RamFile.read_ok hread1
  obtain ⟨position, hafter⟩ := RamFile.read_ok hread2
  exact ⟨position, hafter⟩

/-- The byte of a file at an offset, zero behind its end. -/
def RamFile.byte (file : RamFile) (offset : Nat) : UInt8 :=
  if offset < file.size.toNat then file.data offset else 0

namespace ProgramHeader

variable (ph : ProgramHeader) (file : RamFile)

/-- What a segment holds at `i`: its part of the file, then zeros. -/
def segmentByte (i : Nat) : UInt8 :=
  if i < ph.pFilesz.toNat then file.data (ph.pOffset.toNat + i) else 0

/-- The address of byte `i` of the segment, counted from the start of its area. -/
def inArea (i : Nat) : Nat := ph.pVaddr.toNat % 0x1000 + i

/-- Where the page of byte `i` starts, counted from the start of the area. -/
def pageStart (i : Nat) : Nat := ph.inArea i / 0x1000 * 0x1000

/-- Where the file is read for the page of byte `i`; an offset of 2^31 and more is
negative, and the file is read from its start. -/
def readAt (i : Nat) : Nat :=
  if (ph.pOffset.toNat + ph.pageStart i) % 4294967296 < 2147483648 then
    (ph.pOffset.toNat + ph.pageStart i) % 4294967296
  else 0

/-- Byte `i` belongs to the segment, and lies in its area. It always does if the end of
the segment can be rounded up to a page. -/
def Reaches (i : Nat) : Prop :=
  i < ph.pMemsz.toNat ∧ ph.pVaddr.toNat + i < ph.areaStop.toNat

/-- The file is read for byte `i`: the byte is found in the file part, or its page starts
behind it. -/
def FromFile (i : Nat) : Prop :=
  ph.inArea i < ph.pFilesz.toNat ∨ ph.pFilesz.toNat < ph.pageStart i

instance (i : Nat) : Decidable (ph.FromFile i) := inferInstanceAs (Decidable (_ ∨ _))

/-- The file holds the segment where the pages are read, and the segment is zero where
they are not. -/
structure Faithful : Prop where
  read : ∀ i, ph.Reaches i → ph.FromFile i →
    file.byte (ph.readAt i + ph.inArea i % 0x1000) = ph.segmentByte file i
  zero : ∀ i, ph.Reaches i → ¬ ph.FromFile i → ph.segmentByte file i = 0

variable {ph file}

/-- Where the first page starts that lies behind the file part. -/
def firstBehind (ph : ProgramHeader) : Nat := (ph.pFilesz.toNat / 0x1000 + 1) * 0x1000

/-- **Whatever the file holds**, the segment is loaded if and only if it has no file part or
starts at a page boundary, and no page starts behind the file part, or the file ends before
such a page. The segment lies inside the file, and its area reaches to its end. -/
theorem faithful_all_iff {size position : UInt32} (hpart : ph.pFilesz.toNat ≤ ph.pMemsz.toNat)
    (hinside : ph.pOffset.toNat + ph.pFilesz.toNat ≤ size.toNat)
    (hsmall : ph.pOffset.toNat + ph.pVaddr.toNat % 0x1000 + ph.pMemsz.toNat < 2147483648)
    (harea : ph.pVaddr.toNat + ph.pMemsz.toNat ≤ ph.areaStop.toNat) :
    (∀ data, ph.Faithful ⟨data, size, position⟩) ↔
      (ph.pFilesz.toNat = 0 ∨ ph.pVaddr.toNat % 0x1000 = 0) ∧
      (ph.pVaddr.toNat % 0x1000 + ph.pMemsz.toNat ≤ ph.firstBehind ∨
        size.toNat ≤ ph.pOffset.toNat + ph.firstBehind) := by
  have hreach : ∀ i < ph.pMemsz.toNat, ph.Reaches i := fun i hi => ⟨hi, by omega⟩
  have hread : ∀ i < ph.pMemsz.toNat,
      ph.readAt i + ph.inArea i % 0x1000 = ph.pOffset.toNat + ph.inArea i := by
    intro i hi
    unfold readAt pageStart inArea
    rw [Nat.mod_eq_of_lt (by omega), if_pos (by omega)]
    omega
  have hbehind : ∀ i, ph.pFilesz.toNat < ph.pageStart i ↔ ph.firstBehind ≤ ph.inArea i := by
    intro i
    unfold pageStart firstBehind
    omega
  constructor
  · intro hall
    have hstart : ph.pFilesz.toNat = 0 ∨ ph.pVaddr.toNat % 0x1000 = 0 := by
      by_contra hnot
      -- a file that is zero but for the first byte of the segment
      have hfile := hall fun j => if j = ph.pOffset.toNat then 1 else 0
      have hone : ph.segmentByte ⟨fun j => if j = ph.pOffset.toNat then 1 else 0, size,
          position⟩ 0 = 1 := by
        unfold segmentByte
        rw [if_pos (by omega)]
        exact if_pos rfl
      by_cases hfrom : ph.FromFile 0
      · have hbyte := hfile.read 0 (hreach 0 (by omega)) hfrom
        rw [hone, hread 0 (by omega), RamFile.byte] at hbyte
        have hne : ph.inArea 0 ≠ 0 := by
          unfold inArea
          omega
        simp [hne] at hbyte
      · exact absurd (hone.symm.trans (hfile.zero 0 (hreach 0 (by omega)) hfrom)) (by decide)
    refine ⟨hstart, ?_⟩
    by_contra hnot
    -- the first byte of the page behind the file part
    obtain ⟨i, hi⟩ : ∃ i, ph.inArea i = ph.firstBehind :=
      ⟨ph.firstBehind - ph.pVaddr.toNat % 0x1000, by unfold inArea firstBehind; omega⟩
    have hlt : i < ph.pMemsz.toNat := by
      unfold inArea at hi
      omega
    have hbyte := (hall fun _ => 1).read i (hreach i hlt) (.inr ((hbehind i).mpr (by omega)))
    have hzero : ph.segmentByte ⟨fun _ => 1, size, position⟩ i = 0 := by
      refine if_neg ?_
      unfold inArea firstBehind at hi
      omega
    rw [hzero, hread i hlt, hi, RamFile.byte, if_pos (by simp only; omega)] at hbyte
    exact absurd (show (1 : UInt8) = 0 from hbyte) (by decide)
  · rintro ⟨hstart, hend⟩ data
    refine ⟨fun i hi hfrom => ?_, fun i hi hfrom => if_neg ?_⟩
    · have hlt := hi.1
      rw [hread i hlt, segmentByte, RamFile.byte]
      simp only
      rcases hfrom with hin | hout
      · have hsame : ph.inArea i = i := by
          unfold inArea at hin ⊢
          omega
        rw [hsame, if_pos (by omega), if_pos (by omega)]
      · rw [hbehind] at hout
        rw [if_neg (by unfold inArea at *; omega), if_neg ?_]
        unfold inArea firstBehind at hout
        omega
    · unfold FromFile inArea at hfrom
      omega

end ProgramHeader

namespace Memory

variable {m m' : Memory} {fd : Int} {ph : ProgramHeader} {file : RamFile} {address : UInt32}
  {i k : Nat}

theorem filePage_eq (fmInfo : FileMapInfo) (offset : UInt32) (r : Nat) :
    filePage file fmInfo offset r
      = if r < (readCount fmInfo offset).toNat then
          file.byte ((if offset.toNat < 2147483648 then offset.toNat else 0) + r)
        else 0 := by
  have hseek := file.position_seek offset
  show (if r < min (readCount fmInfo offset).toNat
      (file.size.toNat - (file.seek (signed offset) .beg).position.toNat)
    then file.data ((file.seek (signed offset) .beg).position.toNat + r) else 0) = _
  unfold RamFile.byte
  rw [hseek]
  by_cases hr : r < (readCount fmInfo offset).toNat
  · rw [if_pos hr]
    by_cases hsmall : offset.toNat < 2147483648
    · rw [if_pos hsmall, if_pos hsmall]
      by_cases hin : offset.toNat + r < file.size.toNat
      · rw [if_pos (by omega), if_pos hin, Nat.min_eq_left (by omega)]
      · rw [if_neg (by omega), if_neg hin]
    · rw [if_neg hsmall, if_neg hsmall]
      by_cases hin : 0 + r < file.size.toNat
      · rw [if_pos (by omega), if_pos hin]
      · rw [if_neg (by omega), if_neg hin]
  · rw [if_neg hr, if_neg (by omega)]

theorem toNat_fileOffset {i : Nat} (hi : ph.pVaddr.toNat + i = address.toNat) :
    (fileOffset (segmentArea ph k) ⟨fd, ph.pOffset, ph.pFilesz⟩ address).toNat
      = (ph.pOffset.toNat + ph.pageStart i) % 4294967296 := by
  have hstart : (alignDown ph.pVaddr).toNat = ph.pVaddr.toNat / 0x1000 * 0x1000 := toNat_alignDown _
  have hpage : (alignDown address).toNat = address.toNat / 0x1000 * 0x1000 := toNat_alignDown _
  have hoff : (alignDown address - alignDown ph.pVaddr).toNat = ph.pageStart i := by
    rw [UInt32.toNat_sub_of_le _ _ (le_iff_toNat.mpr (by omega))]
    unfold ProgramHeader.pageStart ProgramHeader.inArea
    omega
  show (alignDown address - alignDown ph.pVaddr + ph.pOffset).toNat = _
  rw [toNat_add_eq, hoff, Nat.add_comm]

theorem toNat_readCount {i : Nat} (hi : ph.pVaddr.toNat + i = address.toNat) :
    (readCount ⟨fd, ph.pOffset, ph.pFilesz⟩
        (fileOffset (segmentArea ph k) ⟨fd, ph.pOffset, ph.pFilesz⟩ address)).toNat
      = if ph.pageStart i ≤ ph.pFilesz.toNat then min (ph.pFilesz.toNat - ph.pageStart i) 0x1000
        else 0x1000 := by
  have hborder := toNat_lt_border address
  have hfilesz := toNat_lt_border ph.pFilesz
  have hpage : ph.pageStart i ≤ 0xFFFFF000 := by
    unfold ProgramHeader.pageStart ProgramHeader.inArea
    omega
  have hfo := @toNat_fileOffset fd ph address k i hi
  -- the difference of `p_offset + p_filesz` and the offset, on words
  have hleft : (ph.pOffset + ph.pFilesz
        - fileOffset (segmentArea ph k) ⟨fd, ph.pOffset, ph.pFilesz⟩ address).toNat
      = (4294967296 + ph.pFilesz.toNat - ph.pageStart i) % 4294967296 := by
    rw [UInt32.toNat_sub, toNat_add_eq]
    omega
  have hlimit : (0x1000 : UInt32).toNat = 0x1000 := rfl
  unfold readCount
  simp only
  split
  next hgt =>
    rw [gt_iff_lt, lt_iff_toNat] at hgt
    split <;> omega
  next hle =>
    rw [gt_iff_lt, lt_iff_toNat] at hle
    split <;> omega

theorem filePage_segment (hi : ph.pVaddr.toNat + i = address.toNat) :
    filePage file ⟨fd, ph.pOffset, ph.pFilesz⟩
        (fileOffset (segmentArea ph k) ⟨fd, ph.pOffset, ph.pFilesz⟩ address)
        (address.toNat % 0x1000)
      = if ph.FromFile i then file.byte (ph.readAt i + ph.inArea i % 0x1000) else 0 := by
  have hr : address.toNat % 0x1000 = ph.inArea i % 0x1000 := by
    unfold ProgramHeader.inArea
    omega
  have hsplit : ph.pageStart i + ph.inArea i % 0x1000 = ph.inArea i := by
    unfold ProgramHeader.pageStart
    omega
  -- the byte is among those that are read
  have hcount : (ph.inArea i % 0x1000 < if ph.pageStart i ≤ ph.pFilesz.toNat then
      min (ph.pFilesz.toNat - ph.pageStart i) 0x1000 else 0x1000) ↔ ph.FromFile i := by
    unfold ProgramHeader.FromFile
    split <;> omega
  rw [filePage_eq, toNat_readCount hi, toNat_fileOffset hi, hr]
  by_cases hfrom : ph.FromFile i
  · rw [if_pos hfrom, if_pos (hcount.mpr hfrom)]
    rfl
  · rw [if_neg hfrom, if_neg fun h => hfrom (hcount.mp h)]

/-! ## First accesses -/

/-- A state that comes later: the current space has the same areas, and the same files are
open, read to wherever. -/
structure Later (m m' : Memory) : Prop where
  orderly : m'.Orderly
  current : m'.currentSpace = m.currentSpace
  layout : m'.layout m.currentSpace = m.layout m.currentSpace
  files : ∀ fd file, m.files fd = some file →
    ∃ position, m'.files fd = some { file with position := position }

theorem Later.refl (ho : m.Orderly) : m.Later m :=
  ⟨ho, rfl, rfl, fun _ file hfile => ⟨file.position, hfile⟩⟩

theorem Later.segment (hlater : m.Later m') (hseg : m.Segment fd ph i k) :
    m'.Segment fd ph i k := by
  refine ⟨hseg.small, ?_, ?_⟩
  · rw [hlater.current, Memory.area, hlater.layout]
    exact hseg.area
  · rw [hlater.current, fileMap, hlater.layout]
    exact hseg.info

theorem segment_spans (hi : ph.pVaddr.toNat + i = address.toNat) (hreach : ph.Reaches i) :
    (segmentArea ph k).Spans address.toNat := by
  have hstop := hreach.2
  rw [hi] at hstop
  refine ⟨?_, hstop⟩
  show (alignDown ph.pVaddr).toNat ≤ address.toNat
  rw [toNat_alignDown]
  omega

theorem Segment.access {j : Nat} (hseg : m.Segment fd ph j k) (ho : m.Orderly)
    (hopen : m.files fd = some file) (hsize : file.size.toNat < 0xFFFFF000)
    (hi : ph.pVaddr.toNat + i = address.toNat) (hreach : ph.Reaches i)
    (habsent : m.entry m.currentSpace (address.toNat / 0x1000) = none)
    (hfree : 0 < m.allocator.freePages)
    (htable : m.TableFor m.currentSpace (address.toNat / 0x1000)) :
    ∃ m', m.access address
      = .ok (some (if ph.FromFile i then file.byte (ph.readAt i + ph.inArea i % 0x1000) else 0),
          m') := by
  have hinfo : m.fileMap m.currentSpace (segmentArea ph k).infoHandle.toNat
      = some ⟨fd, ph.pOffset, ph.pFilesz⟩ := by
    show m.fileMap m.currentSpace (UInt16.ofNat k).toNat = _
    rw [AddressSpace.toNat_ofNat_handle hseg.small]
    exact hseg.info
  obtain ⟨m', haccess⟩ := ho.access_file hseg.area (segment_spans hi hreach) rfl hinfo hopen
    hsize hfree htable habsent
  rw [filePage_segment hi] at haccess
  exact ⟨m', haccess⟩

/-! ## When the loader loads the segment -/

/-- The loader loads the segment: in every later state the first access to a page of
it, while a frame and a page table are left, finds its byte. -/
def Loads (m : Memory) (file : RamFile) (ph : ProgramHeader) : Prop :=
  ∀ (m' : Memory) (address : UInt32) (i : Nat), m.Later m' → ph.Reaches i →
    ph.pVaddr.toNat + i = address.toNat →
    m'.entry m'.currentSpace (address.toNat / 0x1000) = none → 0 < m'.allocator.freePages →
    m'.TableFor m'.currentSpace (address.toNat / 0x1000) →
    ∃ m'', m'.access address = .ok (some (ph.segmentByte file i), m'')

end Memory

open Memory in
/-- **When a segment is loaded.**  A file leaves at least one page of the address space to
the kernel. -/
theorem loads_iff {m m' : Memory} {fd : Int} {file file' : RamFile} {entry entry' : UInt32}
    {headers : List ProgramHeader} {ph : ProgramHeader} (ho : m.Orderly)
    (hfree : 0 < m.allocator.freePages) (hsize : file.size.toNat < 0xFFFFF000)
    (hheaders : file.readHeaders = .ok (entry, headers, file'))
    (hcall : m.elfMapProcess (.ok (fd, file)) = .ok (.ok entry', m'))
    (htables : 0 < m'.freeTables m'.currentSpace) (hph : ph ∈ headers)
    (hload : ph.pType = ptLoad) : m'.Loads file ph ↔ ph.Faithful file := by
  obtain ⟨ho', halloc, hopen, hall⟩ := elfMapProcess_ok ho hheaders hcall
  obtain ⟨⟨j, k, hseg⟩, hvacant⟩ := hall ph hph hload
  obtain ⟨position, rfl⟩ := RamFile.readHeaders_ok hheaders
  constructor
  · intro hloads
    -- the first access of all
    have hfirst : ∀ i, ph.Reaches i →
        (if ph.FromFile i then file.byte (ph.readAt i + ph.inArea i % 0x1000) else 0)
          = ph.segmentByte file i := by
      intro i hreach
      have hstop := hreach.2
      have hborder := toNat_lt_border ph.areaStop
      have hi : ph.pVaddr.toNat + i = (UInt32.ofNat (ph.pVaddr.toNat + i)).toNat := by
        rw [toNat_ofNat_lt (by omega)]
      have hspans : (segmentArea ph k).Spans _ := segment_spans hi hreach
      have hpage := spans_page (segment_aligned ph) hspans
      have habsent := hvacant _ hpage.1 hpage.2
      have hfree' : 0 < m'.allocator.freePages := by
        rw [halloc]
        exact hfree
      obtain ⟨m₁, hbyte⟩ := hloads m' _ i (.refl ho') hreach hi habsent hfree' (tableFor_of_free htables _)
      obtain ⟨m₂, hshown⟩ := hseg.access ho' hopen hsize hi hreach habsent hfree' (tableFor_of_free htables _)
      rw [hbyte] at hshown
      exact (Option.some.inj (congrArg Prod.fst (Except.ok.inj hshown))).symm
    refine ⟨fun i hreach hfrom => ?_, fun i hreach hfrom => ?_⟩
    · have hbyte := hfirst i hreach
      rw [if_pos hfrom] at hbyte
      exact hbyte
    · have hbyte := hfirst i hreach
      rw [if_neg hfrom] at hbyte
      exact hbyte.symm
  · intro hfaithful m₁ address i hlater hreach hi habsent hfree₁ htable₁
    obtain ⟨position', hopen'⟩ := hlater.files fd _ hopen
    obtain ⟨m₂, haccess⟩ := (hlater.segment hseg).access hlater.orderly hopen' hsize hi hreach
      habsent hfree₁ htable₁
    refine ⟨m₂, haccess.trans ?_⟩
    by_cases hfrom : ph.FromFile i
    · rw [if_pos hfrom]
      exact congrArg (fun b => Except.ok (some b, m₂)) (hfaithful.read i hreach hfrom)
    · rw [if_neg hfrom, hfaithful.zero i hreach hfrom]

def wordBytes (w : UInt32) : List UInt8 :=
  [w.toUInt8, (w >>> 8).toUInt8, (w >>> 16).toUInt8, (w >>> 24).toUInt8]

def programBytes (ph : ProgramHeader) : List UInt8 :=
  [0x7F, 0x45, 0x4C, 0x46, 1, 1, 1, 0, 0, 0, 0, 0, 0, 0, 0, 0, 2, 0, 3, 0, 1, 0, 0, 0]
    ++ wordBytes ph.pVaddr ++ wordBytes 52
    ++ [0, 0, 0, 0, 0, 0, 0, 0, 52, 0, 32, 0, 1, 0, 0, 0, 0, 0, 0, 0]
    ++ wordBytes ph.pType ++ wordBytes ph.pOffset ++ wordBytes ph.pVaddr ++ wordBytes ph.pVaddr
    ++ wordBytes ph.pFilesz ++ wordBytes ph.pMemsz ++ wordBytes ph.pFlags ++ wordBytes 0x1000

/-- A program that was just opened; behind the headers there are sevens. -/
def programFile (ph : ProgramHeader) (size : UInt32) : RamFile :=
  ⟨fun i => (programBytes ph).getD i 7, size, 0⟩

/-- The program is loaded into the only space of a small machine. -/
def launch (file : RamFile) : Checked (Memory × Except Int UInt32 × Memory) := do
  let (space, m) ← smallMachine.memCreateSpace
  let m := m.memSetCurrentSpace space
  let (result, m') ← m.elfMapProcess (.ok (4, file))
  .ok (m, result, m')

theorem launch_ok {m m' : Memory} {result : Except Int UInt32}
    (h : launch file = .ok (m, result, m')) :
    m.Orderly ∧ m.elfMapProcess (.ok (4, file)) = .ok (result, m') := by
  obtain ⟨⟨space, m1⟩, hcreate, h⟩ := bind_ok.mp h
  obtain ⟨⟨result', m2⟩, hmap, h⟩ := bind_ok.mp h
  cases h
  obtain ⟨ho, _, hlive, _⟩ := smallMachine_boots.orderly.memCreateSpace hcreate
  exact ⟨ho.memSetCurrentSpace hlive, hmap⟩

def alignedHeader : ProgramHeader := ⟨1, 0, 0x400000, 84, 84, 5⟩

theorem loads_iff_aligned :
    ∃ m m' entry, launch (programFile alignedHeader 84) = .ok (m, .ok entry, m') ∧
      (m'.Loads (programFile alignedHeader 84) alignedHeader
        ↔ alignedHeader.Faithful (programFile alignedHeader 84)) ∧
      m'.Loads (programFile alignedHeader 84) alignedHeader := by
  have hlaunch : (launch (programFile alignedHeader 84)).map
      (fun r => (r.2.1, r.1.allocator.freePages, r.2.2.freeTables r.2.2.currentSpace))
      = .ok (.ok 0x400000, 255, 99) := by decide +kernel
  obtain ⟨⟨m, result, m'⟩, hrun, hfacts⟩ := map_ok.mp hlaunch
  have hentry : result = .ok 0x400000 := congrArg (fun r => r.1) hfacts
  have hfree : m.allocator.freePages = 255 := congrArg (fun r => r.2.1) hfacts
  have htables : m'.freeTables m'.currentSpace = 99 := congrArg (fun r => r.2.2) hfacts
  subst hentry
  obtain ⟨ho, hcall⟩ := launch_ok hrun
  have hheaders : ((programFile alignedHeader 84).readHeaders).map (fun r => r.2.1)
      = .ok [alignedHeader] := by decide +kernel
  obtain ⟨⟨entry, headers, file'⟩, hread, hlist⟩ := map_ok.mp hheaders
  have hlist' : headers = [alignedHeader] := hlist
  have hiff := loads_iff ho (by omega) (by decide) hread hcall (by omega)
    (by rw [hlist']; exact List.mem_singleton_self alignedHeader) rfl
  refine ⟨m, m', 0x400000, hrun, hiff, hiff.mpr ?_⟩
  exact (ProgramHeader.faithful_all_iff (by decide) (by decide) (by decide) (by decide)).mpr
    ⟨.inr (by decide), .inl (by decide)⟩ _

def launchAndRead (file : RamFile) (address : UInt32) :
    Checked (Except Int UInt32 × Option UInt8 × Option PageTableEntry × Nat × Nat) := do
  let (_, result, m) ← launch file
  let (byte, _) ← m.access address
  .ok (result, byte, m.entry m.currentSpace (address.toNat / 0x1000), m.allocator.freePages,
    m.freeTables m.currentSpace)

theorem launchAndRead_not_loads {file : RamFile} {ph : ProgramHeader} {entry address : UInt32}
    {byte : UInt8} {i n k : Nat}
    (h : launchAndRead file address = .ok (.ok entry, some byte, none, n + 1, k + 1))
    (hheaders : (file.readHeaders).map (fun r => r.2.1) = .ok [ph]) (hreach : ph.Reaches i)
    (hi : ph.pVaddr.toNat + i = address.toNat) (hne : byte ≠ ph.segmentByte file i) :
    ∃ m m' m'', launch file = .ok (m, .ok entry, m') ∧ m'.access address = .ok (some byte, m'') ∧
      ¬ m'.Loads file ph := by
  obtain ⟨⟨m, result, m'⟩, hlaunch, h⟩ := bind_ok.mp h
  obtain ⟨⟨b, m''⟩, haccess, h⟩ := bind_ok.mp h
  simp only [Except.ok.injEq, Prod.mk.injEq] at h
  obtain ⟨rfl, rfl, habsent, _, _⟩ := h
  obtain ⟨ho, hcall⟩ := launch_ok hlaunch
  obtain ⟨⟨_, _, file'⟩, hread, _⟩ := map_ok.mp hheaders
  obtain ⟨ho', _⟩ := Memory.elfMapProcess_ok ho hread hcall
  refine ⟨m, m', m'', hlaunch, haccess, fun hloads => ?_⟩
  obtain ⟨m1, hbyte⟩ := hloads m' address i (.refl ho') hreach hi habsent (by omega)
    (Memory.tableFor_of_free (by omega) _)
  rw [haccess] at hbyte
  exact hne (Option.some.inj (congrArg Prod.fst (Except.ok.inj hbyte)))

/-- A segment of one byte that does not start at a page boundary. -/
def shiftedHeader : ProgramHeader := ⟨1, 0x54, 0x400054, 1, 1, 5⟩

def trailingHeader : ProgramHeader := ⟨1, 0, 0x400000, 84, 0x2000, 7⟩

/-- **Segments that are not loaded.**  The byte 7 of the first one reads as 0. The page
behind the file part of the second one is to be zero, and reads as what follows in the
file. -/
theorem segments_not_loaded :
    (shiftedHeader.pVaddr.toNat % 0x1000 = shiftedHeader.pOffset.toNat % 0x1000 ∧
      (programFile shiftedHeader 85).data 0x54 = 7 ∧
      ∃ m m' m'', launch (programFile shiftedHeader 85) = .ok (m, .ok 0x400054, m') ∧
        m'.access 0x400054 = .ok (some 0, m'') ∧
        ¬ m'.Loads (programFile shiftedHeader 85) shiftedHeader) ∧
    (trailingHeader.pVaddr.toNat % 0x1000 = trailingHeader.pOffset.toNat % 0x1000 ∧
      ∃ m m' m'', launch (programFile trailingHeader 0x2000) = .ok (m, .ok 0x400000, m') ∧
        m'.access 0x401000 = .ok (some 7, m'') ∧
        ¬ m'.Loads (programFile trailingHeader 0x2000) trailingHeader) := by
  have hshifted : launchAndRead (programFile shiftedHeader 85) 0x400054
      = .ok (.ok 0x400054, some 0, none, 254 + 1, 98 + 1) := by decide +kernel
  have htrailing : launchAndRead (programFile trailingHeader 0x2000) 0x401000
      = .ok (.ok 0x400000, some 7, none, 254 + 1, 98 + 1) := by decide +kernel
  refine ⟨⟨rfl, by decide, ?_⟩, ⟨rfl, ?_⟩⟩
  · exact @launchAndRead_not_loads _ shiftedHeader _ _ _ 0 _ _ hshifted (by decide +kernel)
      ⟨by decide, by decide⟩ rfl (by decide)
  · exact @launchAndRead_not_loads _ trailingHeader _ _ _ 0x1000 _ _ htrailing (by decide +kernel)
      ⟨by decide, by decide⟩ rfl (by decide)

end Peos2.Kernel
