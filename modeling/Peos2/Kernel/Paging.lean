/-
  Kernel.Paging — page tables, areas and page faults
  (`kernel/memory.cc`, `kernel/memory_private.h`).

  Mapping an area writes no page table: a page gets its frame when it is first
  touched, from a physical range for a linear area, from the page allocator for an
  area of zeros, and with the bytes of a file for a file area. The kernel reaches
  frames of other spaces by mapping them at fixed addresses of the current space.

  Page tables and directories are values here, but counted. Physical memory is a
  function from frame and offset to bytes, and `log` is the debug output of
  `alloc_page` and `free_page`.
-/
import Peos2.Kernel.Memory
import Peos2.Kernel.Ramfs
import Peos2.Lib.Holdings
import Peos2.Lib.Stride
import Peos2.Support.PageAlloc

namespace Peos2.Kernel

open Peos2.Lib Peos2.Support

/-! ## Page tables -/

/-- `MEM_PE_P`, `MEM_PE_RW`, `MEM_PE_U`, `MEM_PE_W`, `MEM_PE_D` -/
def memPeP : UInt16 := 0x0001
def memPeRW : UInt16 := 0x0002
def memPeU : UInt16 := 0x0004
def memPeW : UInt16 := 0x0008
def memPeD : UInt16 := 0x0010

/-- `MEM_PDE_S`, `MEM_PTE_D` and `MEM_PTE_G` -/
def memPdeS : UInt16 := 0x0080
def memPteD : UInt16 := 0x0040
def memPteG : UInt16 := 0x0080

/-- `MEM_AREA_READWRITE` and so on. -/
def memAreaReadwrite : UInt16 := 0x0001
def memAreaExecutable : UInt16 := 0x0002
def memAreaUser : UInt16 := 0x0004
def memAreaCacheDisabled : UInt16 := 0x0008
def memAreaGlobal : UInt16 := 0x0010
def memAreaRetainExec : UInt16 := 0x0200
def memAreaNoFork : UInt16 := 0x0400

/-- `AREA_LINEAR_MAP`, `AREA_ALLOC` and `AREA_FILE` -/
def areaLinearMap : UInt16 := 1
def areaAlloc : UInt16 := 2
def areaFile : UInt16 := 3

/-- `page_table_entry` -/
structure PageTableEntry where
  flags : UInt16
  /-- `frame_11_31` -/
  frame : Nat
  deriving DecidableEq

/-- `page_dir_entry`, with the table it refers to. -/
structure PageDirEntry where
  flags : UInt16
  table : Nat → PageTableEntry

/-- A page table from `alloc_page_zero`. -/
def zeroTable : Nat → PageTableEntry := fun _ => ⟨0, 0⟩

/-- `linear_map_info` -/
structure LinearMapInfo where
  physStart : UInt32
  deriving DecidableEq

/-- `file_map_info` -/
structure FileMapInfo where
  fd : Int
  offset : UInt32
  size : UInt32
  deriving DecidableEq

/-- The areas of a `space_info` and what is recorded about them. -/
structure SpaceMaps extends SpaceInfo where
  linearMaps : Pool LinearMapInfo 16 0xFFFF
  fileMaps : Pool FileMapInfo 16 0xFFFF

/-- `space_info` -/
structure AddressSpace extends SpaceMaps where
  pageDir : Nat → PageDirEntry

/-- `ALIGN_DOWN(val, 0x1000)` -/
def alignDown (val : UInt32) : UInt32 := val &&& ~~~0xFFF

/-- `ALIGN_UP(val, 0x1000)` -/
def alignUp (val : UInt32) : UInt32 := (val + 0x1000 - 1) &&& ~~~0xFFF

/-- `static uint16_t page_flags(uint16_t mem_flags)` -/
def pageFlags (memFlags : UInt16) : UInt16 :=
  memPeP
    ||| (if memFlags &&& memAreaReadwrite ≠ 0 then memPeRW else 0)
    ||| (if memFlags &&& memAreaUser ≠ 0 then memPeU else 0)
    ||| (if memFlags &&& memAreaCacheDisabled ≠ 0 then memPeD else 0)
    ||| (if memFlags &&& memAreaGlobal ≠ 0 then memPteG else 0)

/-- `static uintptr_t pte_frame(const page_table_entry *pte)` -/
def pteFrame (pte : PageTableEntry) : Nat := pte.frame * 0x1000

namespace AddressSpace

/-- `space_info(page_dir_entry *page_dir)` on a page from `alloc_page_zero`. -/
def fresh : AddressSpace :=
  ⟨⟨⟨Pool.blank⟩, Pool.blank, Pool.blank⟩, fun _ => ⟨0, zeroTable⟩⟩

/-- `static page_table_entry *find_pte(const space_info &space, uintptr_t
virtual_address)`; the entry it returns is present. -/
def findPte (space : AddressSpace) (virtualAddress : Nat) : Option PageTableEntry :=
  let pde := space.pageDir (virtualAddress / 0x400000)
  if pde.flags &&& memPeP = 0 then none
  else
    let pte := pde.table (virtualAddress / 0x1000 % 0x400)
    if pte.flags &&& memPeP = 0 then none else some pte

/-- The page tables of a space. -/
def tables (space : AddressSpace) : Nat :=
  (List.range 0x400).countP fun i => (space.pageDir i).flags &&& memPeP ≠ 0

/-- `static void map_page(mem_space space, uint32_t virt, uint32_t phys,
uint16_t flags)`, on a space that can have `room` page tables. -/
def mapPage (space : AddressSpace) (room : Nat) (virt phys : Nat) (flags : UInt16) :
    Checked AddressSpace := do
  check (virt % 0x1000 = 0) "(virt & 0xFFF) == 0"
  check (phys % 0x1000 = 0) "(phys & 0xFFF) == 0"
  let directoryIdx := virt / 0x400000
  let pde := space.pageDir directoryIdx
  let pdeFlags := flags &&& ~~~(memPdeS ||| memPteD)
  let entry : PageTableEntry := ⟨flags, phys / 0x1000⟩
  if pde.flags &&& memPeP = 0 then
    -- no page table is created for a page that is unmapped
    if flags &&& memPeP = 0 then .ok space
    else
      check (space.tables < room) "(uintptr_t)_watermark < _phys_region.end"
      .ok { space with
        pageDir := storeAt space.pageDir directoryIdx
          ⟨pdeFlags, storeAt zeroTable (virt / 0x1000 % 0x400) entry⟩ }
  else .ok { space with
    pageDir := storeAt space.pageDir directoryIdx
      ⟨pde.flags ||| pdeFlags, storeAt pde.table (virt / 0x1000 % 0x400) entry⟩ }

/-- `static bool overlaps_existing_area(mem_space space_handle, uintptr_t start,
uintptr_t end)` -/
def overlapsExistingArea (space : AddressSpace) (start stop : UInt32) : Checked Bool := do
  let found ← space.areas.scan fun area => start < area.stop && stop > area.start
  .ok found.isSome

/-- `for (uintptr_t page = start; page < end; page += 0x1000)`; there are 2^20
pages. -/
def forPages {σ : Type} (start stop : UInt32) (body : Nat → σ → Checked σ) (s : σ) : Checked σ :=
  strideFrom 0x1000 0x100000000 body stop.toNat 0x100001 start.toNat s

/-- The last two statements of `mem_map_linear`. -/
def addLinear (space : AddressSpace) (start stop physStart : UInt32) (flags : UInt16) :
    Checked (Nat × AddressSpace) := do
  let (mapHandle, linearMaps) ← space.linearMaps.emplaceAnywhere ⟨physStart⟩
  let (handle, areas) ← space.areas.emplaceAnywhere
    ⟨start, stop, areaLinearMap, flags, UInt16.ofNat mapHandle⟩
  .ok (handle, { space with areas := areas, linearMaps := linearMaps })

/-- `mem_area mem_map_linear(mem_space space_handle, uintptr_t start, uintptr_t
end, uintptr_t phys_start, uint16_t flags)` -/
def mapLinear (space : AddressSpace) (start stop physStart : UInt32) (flags : UInt16) :
    Checked (Nat × AddressSpace) := do
  let overlaps ← space.overlapsExistingArea start stop
  check (!overlaps) "!overlaps_existing_area(space_handle, start, end)"
  space.addLinear start stop physStart flags

/-- `map_page(space_handle, virt_address, phys_address, page_flags(flags));
phys_address += 0x1000;` -/
def mapNext (room : Nat) (flags : UInt16) (virtAddress : Nat) (s : UInt32 × AddressSpace) :
    Checked (UInt32 × AddressSpace) := do
  let space ← s.2.mapPage room virtAddress s.1.toNat (pageFlags flags)
  .ok (s.1 + 0x1000, space)

/-- `mem_area mem_map_linear_eager(mem_space space_handle, uintptr_t start,
uintptr_t end, uintptr_t phys_start, uint16_t flags)` -/
def mapLinearEager (space : AddressSpace) (room : Nat) (start stop physStart : UInt32)
    (flags : UInt16) : Checked (Nat × AddressSpace) := do
  let overlaps ← space.overlapsExistingArea start stop
  check (!overlaps) "!overlaps_existing_area(space_handle, start, end)"
  let (_, space) ← forPages start stop (mapNext room flags) (physStart, space)
  space.addLinear start stop physStart flags

/-- `mem_area mem_map_alloc(mem_space space_handle, uintptr_t start, uintptr_t
end, uint16_t flags)` -/
def mapAlloc (space : AddressSpace) (start stop : UInt32) (flags : UInt16) :
    Checked (Nat × AddressSpace) := do
  let overlaps ← space.overlapsExistingArea start stop
  check (!overlaps) "!overlaps_existing_area(space_handle, start, end)"
  let (handle, areas) ← space.areas.emplaceAnywhere ⟨start, stop, areaAlloc, flags, 0⟩
  .ok (handle, { space with areas := areas })

/-- `mem_area mem_map_fd(mem_space space_handle, uintptr_t start, uintptr_t end,
int fd, uint32_t offset, uint32_t file_size, uint16_t flags)` -/
def mapFd (space : AddressSpace) (start stop : UInt32) (fd : Int) (offset fileSize : UInt32)
    (flags : UInt16) : Checked (Nat × AddressSpace) := do
  let overlaps ← space.overlapsExistingArea start stop
  check (!overlaps) "!overlaps_existing_area(space_handle, start, end)"
  check (fd > 2) "fd > 2"
  let (mapHandle, fileMaps) ← space.fileMaps.emplaceAnywhere ⟨fd, offset, fileSize⟩
  let (handle, areas) ← space.areas.emplaceAnywhere
    ⟨start, stop, areaFile, flags, UInt16.ofNat mapHandle⟩
  .ok (handle, { space with areas := areas, fileMaps := fileMaps })

end AddressSpace

/-! ## Memory -/

/-- The state of `memory.cc`, the contents of physical memory and the files
that the current process has open. -/
structure Memory where
  spaces : Pool AddressSpace 128 0xFFFF
  currentSpace : Nat
  /-- `user_space_allocator` -/
  allocator : PageAllocator
  ram : Nat → Nat → UInt8
  files : Int → Option RamFile
  log : List (Movement Nat)

namespace Memory

/-- The state once the page allocator is set up, before any space is
created. -/
def boot (allocator : PageAllocator) (ram : Nat → Nat → UInt8) (files : Int → Option RamFile) :
    Memory := ⟨Pool.blank, 0xFFFF, allocator, ram, files, []⟩

/-- The page tables that the other spaces leave to one: `page_table_allocator`
has 100 pages and needs one for its bookkeeping. -/
def tableRoom (m : Memory) (spaceHandle : Nat) : Nat :=
  99 - (((List.range 128).filter (· ≠ spaceHandle)).map fun i =>
    (m.spaces.lookup i).elim 0 AddressSpace.tables).sum

/-- An operation on `spaces[space_handle]`. -/
def withSpace {β : Type} (m : Memory) (spaceHandle : Nat)
    (f : AddressSpace → Checked (β × AddressSpace)) : Checked (β × Memory) := do
  let space ← m.spaces.get spaceHandle
  let (result, space) ← f space
  let spaces ← m.spaces.set spaceHandle space
  .ok (result, { m with spaces := spaces })

/-- `static void map_page(mem_space space, uint32_t virt, uint32_t phys,
uint16_t flags)` -/
def mapPage (m : Memory) (spaceHandle virt phys : Nat) (flags : UInt16) : Checked Memory := do
  let (_, m) ← m.withSpace spaceHandle fun space => do
    let space ← space.mapPage (m.tableRoom spaceHandle) virt phys flags
    .ok ((), space)
  .ok m

/-- `static void *alloc_page()` -/
def allocPage (m : Memory) : Checked (Nat × Memory) := do
  let (page, allocator) ← m.allocator.allocPage
  .ok (page, { m with allocator := allocator, log := m.log ++ [.taken page] })

/-- `static void free_page(void *page)` -/
def freePage (m : Memory) (page : Nat) : Checked Memory := do
  let allocator ← m.allocator.freePage page
  .ok { m with allocator := allocator, log := m.log ++ [.freed page] }

/-- The kernel reads the page at an address of the current space. -/
def loadPage (m : Memory) (page : Nat) : Checked (Nat → UInt8) := do
  let space ← m.spaces.get m.currentSpace
  match space.findPte page with
  | some pte => .ok (m.ram pte.frame)
  | none => .error .outOfBounds

/-- The kernel changes the page at an address of the current space. -/
def storePage (m : Memory) (page : Nat) (change : (Nat → UInt8) → Nat → UInt8) :
    Checked Memory := do
  let space ← m.spaces.get m.currentSpace
  match space.findPte page with
  | some pte => .ok { m with ram := storeAt m.ram pte.frame (change (m.ram pte.frame)) }
  | none => .error .outOfBounds

/-- `memset((void *)page, 0, 0x1000)` -/
def zeroPage (_ : Nat → UInt8) (_ : Nat) : UInt8 := 0

/-- `memcpy((void *)page, src, count)` -/
def copyInto (src : Nat → UInt8) (count : Nat) (old : Nat → UInt8) (i : Nat) : UInt8 :=
  if i < count then src i else old i

/-- `mem_space mem_create_space()` -/
def memCreateSpace (m : Memory) : Checked (Nat × Memory) := do
  -- `page_dir_allocator` has 100 pages too
  check (m.spaces.size < 99) "(uintptr_t)_watermark < _phys_region.end"
  let (handle, spaces) ← m.spaces.emplaceAnywhere AddressSpace.fresh
  .ok (handle, { m with spaces := spaces })

/-- `void mem_set_current_space(mem_space space_handle)` -/
def memSetCurrentSpace (m : Memory) (spaceHandle : Nat) : Memory :=
  { m with currentSpace := spaceHandle }

/-- `mem_map_linear` -/
def memMapLinear (m : Memory) (spaceHandle : Nat) (start stop physStart : UInt32)
    (flags : UInt16) : Checked (Nat × Memory) :=
  m.withSpace spaceHandle fun space => space.mapLinear start stop physStart flags

/-- `mem_map_linear_eager` -/
def memMapLinearEager (m : Memory) (spaceHandle : Nat) (start stop physStart : UInt32)
    (flags : UInt16) : Checked (Nat × Memory) :=
  m.withSpace spaceHandle fun space =>
    space.mapLinearEager (m.tableRoom spaceHandle) start stop physStart flags

/-- `mem_map_alloc` -/
def memMapAlloc (m : Memory) (spaceHandle : Nat) (start stop : UInt32) (flags : UInt16) :
    Checked (Nat × Memory) :=
  m.withSpace spaceHandle fun space => space.mapAlloc start stop flags

/-- `mem_map_fd` -/
def memMapFd (m : Memory) (spaceHandle : Nat) (start stop : UInt32) (fd : Int)
    (offset fileSize : UInt32) (flags : UInt16) : Checked (Nat × Memory) :=
  m.withSpace spaceHandle fun space => space.mapFd start stop fd offset fileSize flags

/-! ## Unmapping -/

/-- `if (area.type == AREA_ALLOC || area.type == AREA_FILE)
free_page((void *)pte_frame(pte));` -/
def freeBacking (m : Memory) (type : UInt16) (pte : PageTableEntry) : Checked Memory :=
  if type = areaAlloc ∨ type = areaFile then m.freePage (pteFrame pte) else .ok m

/-- The body of the loop of `unmap_area`. -/
def unmapPage (spaceHandle : Nat) (type : UInt16) (pageAddress : Nat) (m : Memory) :
    Checked Memory := do
  let space ← m.spaces.get spaceHandle
  match space.findPte pageAddress with
  | some pte => do
      let m ← m.freeBacking type pte
      m.mapPage spaceHandle pageAddress 0xDEAD000 0
  | none => .ok m

/-- `space.areas.erase(area_handle);` -/
def eraseArea (m : Memory) (spaceHandle areaHandle : Nat) : Checked Memory := do
  let (_, m) ← m.withSpace spaceHandle fun space => do
    let areas ← space.areas.erase areaHandle
    .ok ((), { space with areas := areas })
  .ok m

/-- `static void unmap_area(mem_space space_handle, mem_area area_handle)` -/
def unmapArea (m : Memory) (spaceHandle areaHandle : Nat) : Checked Memory := do
  let space ← m.spaces.get spaceHandle
  let area ← space.areas.get areaHandle
  let m ← AddressSpace.forPages area.start area.stop (unmapPage spaceHandle area.type) m
  m.eraseArea spaceHandle areaHandle

/-- `for (size_t i = 0; i < space->areas.watermark(); ++i) { if
(!space->areas.valid(i)) continue; body(i); }`, from `i` on. -/
def forAreasFrom (spaceHandle : Nat) (body : Nat → Memory → Checked Memory) :
    Nat → Nat → Memory → Checked Memory
  | 0, _, _ => .error .outOfFuel
  | fuel + 1, i, m => do
      let space ← m.spaces.get spaceHandle
      if i < space.areas.watermark then do
        let m ← if space.areas.valid i then body i m else .ok m
        forAreasFrom spaceHandle body fuel (i + 1) m
      else .ok m

/-- The loop; a space has 32 areas. -/
def forAreas (spaceHandle : Nat) (body : Nat → Memory → Checked Memory) (m : Memory) :
    Checked Memory :=
  forAreasFrom spaceHandle body 33 0 m

/-- `unmap_area(space_handle, i);` -/
def unmapEach (spaceHandle i : Nat) (m : Memory) : Checked Memory := m.unmapArea spaceHandle i

/-- `if (!(space.areas[i].flags & flags)) unmap_area(space_handle, i);` -/
def unmapUnflagged (spaceHandle : Nat) (flags : UInt16) (i : Nat) (m : Memory) :
    Checked Memory := do
  let space ← m.spaces.get spaceHandle
  let area ← space.areas.get i
  if area.flags &&& flags = 0 then m.unmapArea spaceHandle i else .ok m

/-- `void mem_unmap_not_matching(mem_space space_handle, uint16_t flags)` -/
def memUnmapNotMatching (m : Memory) (spaceHandle : Nat) (flags : UInt16) : Checked Memory := do
  let _ ← m.spaces.get spaceHandle
  forAreas spaceHandle (unmapUnflagged spaceHandle flags) m

/-- `void mem_destroy_space(mem_space space_handle)`; the page tables and the
directory go with the space. -/
def memDestroySpace (m : Memory) (spaceHandle : Nat) : Checked Memory := do
  check (spaceHandle ≠ m.currentSpace) "space_handle != current_space"
  let _ ← m.spaces.get spaceHandle
  let m ← forAreas spaceHandle (unmapEach spaceHandle) m
  let spaces ← m.spaces.erase spaceHandle
  .ok { m with spaces := spaces }

/-! ## Page faults -/

/-- `static void page_fault_linear_map(area_info &area, uintptr_t
faulted_address)` -/
def pageFaultLinearMap (m : Memory) (area : AreaInfo) (faultedAddress : UInt32) :
    Checked Memory := do
  let space ← m.spaces.get m.currentSpace
  let lmInfo ← space.linearMaps.get area.infoHandle.toNat
  let pageAddress := alignDown faultedAddress
  let areaOffset := pageAddress - area.start
  m.mapPage m.currentSpace pageAddress.toNat (lmInfo.physStart + areaOffset).toNat
    (pageFlags area.flags)

/-- `if (!writable) map_page(current_space, page_address, phys_block,
page_flags(area.flags & ~MEM_AREA_READWRITE));` -/
def protect (m : Memory) (area : AreaInfo) (pageAddress physBlock : Nat) : Checked Memory :=
  if area.flags &&& memAreaReadwrite = 0 then
    m.mapPage m.currentSpace pageAddress physBlock (pageFlags (area.flags &&& ~~~memAreaReadwrite))
  else .ok m

/-- The first statements of `page_fault_alloc` and `page_fault_file`: a page of
zeros, writable for now. -/
def mapZeroPage (m : Memory) (area : AreaInfo) (pageAddress : Nat) : Checked (Nat × Memory) := do
  let (physBlock, m) ← m.allocPage
  let m ← m.mapPage m.currentSpace pageAddress physBlock
    (pageFlags (area.flags ||| memAreaReadwrite))
  let m ← m.storePage pageAddress zeroPage
  .ok (physBlock, m)

/-- `static void page_fault_alloc(area_info &area, uintptr_t faulted_address)` -/
def pageFaultAlloc (m : Memory) (area : AreaInfo) (faultedAddress : UInt32) :
    Checked Memory := do
  let pageAddress := (alignDown faultedAddress).toNat
  let (physBlock, m) ← m.mapZeroPage area pageAddress
  m.protect area pageAddress physBlock

/-- `p2::min<uint32_t>(fm_info.offset + fm_info.size - file_offset, 0x1000)` -/
def readCount (fmInfo : FileMapInfo) (fileOffset : UInt32) : UInt32 :=
  if fmInfo.offset + fmInfo.size - fileOffset > 0x1000 then 0x1000
  else fmInfo.offset + fmInfo.size - fileOffset

/-- `vfs_seek` and `vfs_read` of `page_fault_file`: the page is filled from the file. A
descriptor that is not open or cannot seek stops the kernel. -/
def fillPage (m : Memory) (fmInfo : FileMapInfo) (fileOffset : UInt32) (pageAddress : Nat) :
    Checked Memory :=
  match m.files fmInfo.fd with
  | none => .error (.assertion "failed to seek")
  | some file => do
      let file := file.seek (signed fileOffset) .beg
      let (count, file') ← file.read (readCount fmInfo fileOffset).toNat
      let m : Memory := { m with files := Function.update m.files fmInfo.fd (some file') }
      m.storePage pageAddress (copyInto file.src count)

/-- `static void page_fault_file(area_info &area, uintptr_t faulted_address)` -/
def pageFaultFile (m : Memory) (area : AreaInfo) (faultedAddress : UInt32) :
    Checked Memory := do
  let pageAddress := alignDown faultedAddress
  let (physBlock, m) ← m.mapZeroPage area pageAddress.toNat
  let space ← m.spaces.get m.currentSpace
  let fmInfo ← space.fileMaps.get area.infoHandle.toNat
  let areaOffset := pageAddress - area.start
  let fileOffset := areaOffset + fmInfo.offset
  let m ← m.fillPage fmInfo fileOffset pageAddress.toNat
  m.protect area pageAddress.toNat physBlock

/-- `extern "C" void int_page_fault(isr_registers *regs)` for a page that is
not present. An address outside the areas only concerns the process, which is
killed. -/
def intPageFault (m : Memory) (faultedAddress : UInt32) : Checked Memory := do
  let space ← m.spaces.get m.currentSpace
  match ← memFindArea space.toSpaceInfo faultedAddress with
  | none => .ok m
  | some areaHandle => do
      let area ← space.areas.get areaHandle
      if area.type = areaLinearMap then m.pageFaultLinearMap area faultedAddress
      else if area.type = areaAlloc then m.pageFaultAlloc area faultedAddress
      else if area.type = areaFile then m.pageFaultFile area faultedAddress
      else .error (.assertion "invalid area type")

/-! ## Writing to and copying other spaces -/

/-- `KERNEL_SCRATCH_BASE` -/
def kernelScratchBase : Nat := 0xE0000000

/-- `source_virt` and `dest_virt` of `copy_page_contents` -/
def sourceVirt : Nat := 0xFFFE0000
def destVirt : Nat := 0xFFFE1000

/-- `if (!pte || !(pte->flags & MEM_PE_P)) map_page(space_handle, virt_addr,
(uintptr_t)alloc_page(), page_flags(dest_area.flags));`, with the frame of the
page. -/
def provide (m : Memory) (spaceHandle : Nat) (space : AddressSpace) (area : AreaInfo)
    (virtAddr : Nat) : Checked (Nat × Memory) :=
  match space.findPte virtAddr with
  | some pte => .ok (pteFrame pte, m)
  | none => do
      let (page, m) ← m.allocPage
      let m ← m.mapPage spaceHandle virtAddr page (pageFlags area.flags)
      .ok (page, m)

/-- `void mem_write_page(mem_space space_handle, uintptr_t virt_addr, const void
*data, size_t size)` -/
def memWritePage (m : Memory) (spaceHandle : Nat) (virtAddr : UInt32) (data : Nat → UInt8)
    (size : UInt32) : Checked Memory := do
  check (virtAddr.toNat % 0x1000 = 0) "!(virt_addr & 0xFFF)"
  let space ← m.spaces.get spaceHandle
  match ← memFindArea space.toSpaceInfo virtAddr with
  | none => .error (.assertion "address to map must be in a valid area")
  | some areaHandle => do
      let area ← space.areas.get areaHandle
      check (area.type = areaAlloc) "dest_area.type == AREA_ALLOC"
      let (frame, m) ← m.provide spaceHandle space area virtAddr.toNat
      check (size ≤ 0x1000) "size <= 0x1000"
      let m ← m.mapPage m.currentSpace kernelScratchBase frame
        (memPeP ||| memPeRW ||| memPeW ||| memPeD)
      let m ← m.storePage kernelScratchBase (copyInto data size.toNat)
      m.mapPage m.currentSpace kernelScratchBase 0 0

/-- `static void copy_page_contents(uintptr_t source_phys, uintptr_t
dest_phys)` -/
def copyPageContents (m : Memory) (sourcePhys destPhys : Nat) : Checked Memory := do
  check (sourcePhys % 0x1000 = 0) "!(source_phys & 0xFFF)"
  check (destPhys % 0x1000 = 0) "!(dest_phys & 0xFFF)"
  let m ← m.mapPage m.currentSpace sourceVirt sourcePhys (memPeP ||| memPeRW ||| memPeD)
  let m ← m.mapPage m.currentSpace destVirt destPhys (memPeP ||| memPeRW ||| memPeD)
  let source ← m.loadPage sourceVirt
  let m ← m.storePage destVirt (copyInto source 0x1000)
  let m ← m.mapPage m.currentSpace sourceVirt 0 0
  m.mapPage m.currentSpace destVirt 0 0

/-- The loop body of `copy_area` for linear areas. -/
def copyLinearPage (source dest pageAddress : Nat) (m : Memory) : Checked Memory := do
  let space ← m.spaces.get source
  match space.findPte pageAddress with
  | some pte => m.mapPage dest pageAddress (pteFrame pte) pte.flags
  | none => .ok m

/-- The loop body of `copy_area` for areas of zeros. -/
def copyAllocPage (source dest : Nat) (flags : UInt16) (pageAddress : Nat) (m : Memory) :
    Checked Memory := do
  let space ← m.spaces.get source
  match space.findPte pageAddress with
  | some pte => do
      let (physAddress, m) ← m.allocPage
      let m ← m.mapPage dest pageAddress physAddress (pageFlags flags)
      m.copyPageContents (pteFrame pte) physAddress
  | none => .ok m

/-- `copy_area` for a linear area. -/
def copyLinear (m : Memory) (area : AreaInfo) (source dest : Nat) : Checked Memory := do
  let space ← m.spaces.get source
  let info ← space.linearMaps.get area.infoHandle.toNat
  let (_, m) ← m.memMapLinear dest area.start area.stop info.physStart area.flags
  AddressSpace.forPages area.start area.stop (copyLinearPage source dest) m

/-- `copy_area` for a file area. -/
def copyFile (m : Memory) (area : AreaInfo) (source dest : Nat) : Checked Memory := do
  let space ← m.spaces.get source
  let info ← space.fileMaps.get area.infoHandle.toNat
  let (_, m) ← m.memMapFd dest area.start area.stop info.fd info.offset info.size area.flags
  .ok m

/-- `copy_area` for an area of zeros. -/
def copyAlloc (m : Memory) (area : AreaInfo) (source dest : Nat) : Checked Memory := do
  let (_, m) ← m.memMapAlloc dest area.start area.stop area.flags
  AddressSpace.forPages area.start area.stop (copyAllocPage source dest area.flags) m

/-- `static void copy_area(area_info &source_area, space_info &source_space,
mem_space dest_space_handle)` -/
def copyArea (m : Memory) (area : AreaInfo) (source dest : Nat) : Checked Memory :=
  if area.type = areaLinearMap then m.copyLinear area source dest
  else if area.type = areaFile then m.copyFile area source dest
  else if area.type = areaAlloc then m.copyAlloc area source dest
  else .ok m

/-- The loop body of `mem_fork_space`. -/
def forkArea (source dest : Nat) (m : Memory) (i : Nat) : Checked Memory := do
  let space ← m.spaces.get source
  let area ← space.areas.get i
  if area.flags &&& memAreaNoFork ≠ 0 then .ok m else m.copyArea area source dest

/-- `p2::res<mem_space> mem_fork_space(mem_space space_handle)`; the loop visits
the areas of the source, which it leaves as they are. -/
def memForkSpace (m : Memory) (spaceHandle : Nat) : Checked (Nat × Memory) := do
  let space ← m.spaces.get spaceHandle
  let (newSpace, m) ← m.memCreateSpace
  let m ← space.areas.indices.foldlM (forkArea spaceHandle newSpace) m
  .ok (newSpace, m)

end Memory

end Peos2.Kernel
