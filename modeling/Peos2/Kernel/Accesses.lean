/-
  Kernel.Accesses — what a program finds at an address (`kernel/memory.cc`).

  An access to a present page goes to its frame. Any other goes through the
  page-fault handler first, which decides by the type of the area what the page holds.

  Main result: `Orderly.access_file`.
-/
import Peos2.Kernel.FrameRuns

namespace Peos2.Kernel

open Peos2.Lib Peos2.Support

namespace Memory

variable {m m' : Memory} {i : Nat} {area : AreaInfo} {address : UInt32}

/-- The byte at an address of a space, if its page is present. -/
def byteAt (m : Memory) (h a : Nat) : Option UInt8 :=
  (m.entry h (a / 0x1000)).map fun pte => m.ram pte.frame (a % 0x1000)

/-- The program reads a byte; there is none if it is killed instead. -/
def access (m : Memory) (address : UInt32) : Checked (Option UInt8 × Memory) := do
  let m ← if (m.entry m.currentSpace (address.toNat / 0x1000)).isSome then .ok m
    else m.intPageFault address
  .ok (m.byteAt m.currentSpace address.toNat, m)

theorem byteAt_of_entry {h a : Nat} {pte : PageTableEntry}
    (hentry : m.entry h (a / 0x1000) = some pte) :
    m.byteAt h a = some (m.ram pte.frame (a % 0x1000)) := by
  rw [byteAt, hentry]
  rfl

theorem access_absent (hentry : m.entry m.currentSpace (address.toNat / 0x1000) = none)
    (hfault : m.intPageFault address = .ok m') :
    m.access address = .ok (m'.byteAt m'.currentSpace address.toNat, m') := by
  rw [access, hentry]
  simp only [Option.isSome_none, Bool.false_eq_true, if_false]
  rw [hfault, ok_bind]

theorem Orderly.intPageFault_eq (ho : m.Orderly) (harea : m.area m.currentSpace i = some area)
    (hspans : area.Spans address.toNat) :
    m.intPageFault address
      = if area.type = areaLinearMap then m.pageFaultLinearMap area address
        else if area.type = areaAlloc then m.pageFaultAlloc area address
        else if area.type = areaFile then m.pageFaultFile area address
        else .error (.assertion "invalid area type") := by
  obtain ⟨maps, hlay, hmap⟩ := area_some harea
  obtain ⟨space, hlook, rfl⟩ := lookup_of_layout hlay
  have hdisj : space.toSpaceInfo.Disjoint := by
    intro j k area1 area2 n hj hk
    refine ho.disjoint m.currentSpace j k area1 area2 n ?_ ?_
    · rw [area_of_layout hlay]
      exact hj
    · rw [area_of_layout hlay]
      exact hk
  have hfind := memFindArea_of_spans (ho.shaped.pools _ _ hlay).areas hdisj hmap hspans
  rw [Memory.intPageFault, Pool.get_spec hlook, ok_bind, hfind, ok_bind]
  simp only
  rw [Pool.get_spec hmap, ok_bind]

theorem Orderly.exists_frame (ho : m.Orderly) (hfree : 0 < m.allocator.freePages) :
    ∃ page allocator, m.allocator.allocPage = .ok (page, allocator) ∧ page % 0x1000 = 0 := by
  obtain ⟨page, allocator, halloc⟩ := ho.frames.alloc_spec hfree
  obtain ⟨_, haligned, _⟩ := ho.frames.alloc halloc
  exact ⟨page, allocator, halloc, haligned⟩

theorem Grants.byteAt {page a : Nat} {bytes : Nat → UInt8}
    (hgrant : m.Grants m' m.currentSpace (a / 0x1000) page)
    (hram : m'.ram = storeAt m.ram (page / 0x1000) bytes) :
    m'.byteAt m'.currentSpace a = some (bytes (a % 0x1000)) := by
  obtain ⟨flags, hentry⟩ := hgrant.entry_self
  rw [hgrant.current, byteAt_of_entry hentry, hram]
  simp only [storeAt_self]

/-- What a page holds after it was read from a file at an offset. -/
def filePage (file : RamFile) (fmInfo : FileMapInfo) (fileOffset : UInt32) : Nat → UInt8 :=
  fileBytes file fileOffset (min (readCount fmInfo fileOffset).toNat
    (file.size.toNat - (file.seek (signed fileOffset) .beg).position.toNat))

theorem readCount_le (fmInfo : FileMapInfo) (fileOffset : UInt32) :
    (readCount fmInfo fileOffset).toNat ≤ 0x1000 := by
  unfold readCount
  split
  · decide
  next hle =>
    exact Nat.le_of_not_lt hle

/-- The first access to a page of a file area reads the file. -/
theorem Orderly.access_file {fmInfo : FileMapInfo} {file : RamFile} (ho : m.Orderly)
    (harea : m.area m.currentSpace i = some area) (hspans : area.Spans address.toNat)
    (htype : area.type = areaFile)
    (hinfo : m.fileMap m.currentSpace area.infoHandle.toNat = some fmInfo)
    (hopen : m.files fmInfo.fd = some file) (hsize : file.size.toNat < 0xFFFFF000)
    (hfree : 0 < m.allocator.freePages)
    (htable : m.TableFor m.currentSpace (address.toNat / 0x1000))
    (habsent : m.entry m.currentSpace (address.toNat / 0x1000) = none) :
    ∃ m', m.access address = .ok (some (filePage file fmInfo (fileOffset area fmInfo address)
      (address.toNat % 0x1000)), m') := by
  obtain ⟨page, allocator, halloc, haligned⟩ := ho.exists_frame hfree
  -- the read stays in the file
  obtain ⟨position, hread⟩ := RamFile.read_eq
    (file.position_seek_le (fileOffset area fmInfo address))
    (readCount_le fmInfo (fileOffset area fmInfo address)) hsize
  have hfile : m.FileRead area address fmInfo file _ _ := ⟨hinfo, hopen, hread⟩
  obtain ⟨m', hfault⟩ := pageFaultFile_spec ho.shaped.spaces hfile halloc haligned htable
  obtain ⟨page', fmInfo', file', file'', count, hread', hgrant, hram, _⟩ :=
    pageFaultFile_ok ho.shaped.spaces hfault
  cases hinfo.symm.trans hread'.info
  cases hopen.symm.trans hread'.opened
  cases hread.symm.trans hread'.read
  have hnot : area.type ≠ areaLinearMap ∧ area.type ≠ areaAlloc := by
    rw [htype]
    decide
  refine ⟨m', ?_⟩
  rw [access_absent habsent (by
    rw [ho.intPageFault_eq harea hspans, if_neg hnot.1, if_neg hnot.2, if_pos htype]
    exact hfault), hgrant.byteAt hram]
  rfl

end Memory

end Peos2.Kernel
