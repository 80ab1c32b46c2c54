/-
  Kernel.PageFaults — what the page-fault handlers and the copying of
  pages do (`kernel/memory.cc`).

  A handler for an area of zeros or of a file takes a frame, fills it and
  leaves one new entry. Copying a page goes through two entries of the
  current space that are absent afterwards, whatever they were before.

  Main result: `pageFaultFile_spec`.
-/
import Peos2.Kernel.AddressSpaces

namespace Peos2.Kernel

open Peos2.Lib Peos2.Support Pool

namespace Memory

variable {m m' : Memory} {h : Nat}

/-! ## Taking a frame -/

/-- A frame was taken and mapped at one page. -/
structure Grants (m m' : Memory) (h n page : Nat) : Prop where
  layout : m.SameLayout m'
  current : m'.currentSpace = m.currentSpace
  alloc : m.allocator.allocPage = .ok (page, m'.allocator)
  aligned : page % 0x1000 = 0
  log : m'.log = m.log ++ [.taken page]
  entry : ∃ flags : UInt16, ∀ j k, m'.entry j k
    = if j = h ∧ k = n then some ⟨flags, page / 0x1000⟩ else m.entry j k

variable {page virt n a i : Nat} {m₁ : Memory} {allocator : PageAllocator} {area : AreaInfo}
  {address start stop : UInt32} {flags : UInt16}

theorem allocPage_ok (hcall : m.allocPage = .ok (page, m')) :
    ∃ allocator, m.allocator.allocPage = .ok (page, allocator)
      ∧ m' = { m with allocator := allocator, log := m.log ++ [.taken page] } := by
  obtain ⟨⟨page', allocator⟩, halloc, hcall⟩ := bind_ok.mp hcall
  cases hcall
  exact ⟨allocator, halloc, rfl⟩

theorem grants_of_map {memFlags : UInt16} (hwf : m.spaces.WF)
    (halloc : m.allocPage = .ok (page, m₁))
    (hmap : m₁.mapPage h virt page (pageFlags memFlags) = .ok m') :
    m.Grants m' h (virt / 0x1000) page ∧ m'.ram = m.ram ∧ m'.files = m.files := by
  obtain ⟨allocator, hpage, rfl⟩ := allocPage_ok halloc
  obtain ⟨_, haligned, _, hmaps⟩ := mapPage_ok
    (m := { m with allocator := allocator, log := m.log ++ [.taken page] }) hwf hmap
  rw [presentEntry_pageFlags] at hmaps
  have hsame := hmaps.same
  refine ⟨⟨⟨hmaps.wf, hmaps.layout⟩, by rw [hsame], ?_, haligned, by rw [hsame],
    pageFlags memFlags, hmaps.entry⟩, by rw [hsame], by rw [hsame]⟩
  rw [hsame]
  exact hpage

theorem exists_grant (memFlags : UInt16) (hwf : m.spaces.WF) (hlive : (m.layout h).isSome)
    (halloc : m.allocator.allocPage = .ok (page, allocator)) (hpage : page % 0x1000 = 0)
    (hvirt : virt % 0x1000 = 0) (htable : m.TableFor h (virt / 0x1000)) :
    ∃ m₁ m', m.allocPage = .ok (page, m₁)
      ∧ m₁.mapPage h virt page (pageFlags memFlags) = .ok m' := by
  obtain ⟨m', hmap, _⟩ := mapPage_spec
    (m := { m with allocator := allocator, log := m.log ++ [.taken page] })
    (pageFlags memFlags) hwf hlive hvirt hpage (.inr htable)
  exact ⟨_, m', by rw [allocPage, halloc, ok_bind], hmap⟩

theorem Grants.entry_self (hgrant : m.Grants m' h n page) :
    ∃ flags : UInt16, m'.entry h n = some ⟨flags, page / 0x1000⟩ := by
  obtain ⟨flags, hentry⟩ := hgrant.entry
  exact ⟨flags, by rw [hentry, if_pos ⟨rfl, rfl⟩]⟩

theorem Grants.entry_ne {j k : Nat} (hgrant : m.Grants m' h n page) (hne : ¬ (j = h ∧ k = n)) :
    m'.entry j k = m.entry j k := by
  obtain ⟨flags, hentry⟩ := hgrant.entry
  rw [hentry, if_neg hne]

theorem Grants.of_ram (hgrant : m.Grants m₁ h n page) (ram : Nat → Nat → UInt8)
    (files : Int → Option RamFile) : m.Grants { m₁ with ram := ram, files := files } h n page :=
  ⟨⟨hgrant.layout.spaces, hgrant.layout.layout⟩, hgrant.current, hgrant.alloc, hgrant.aligned,
    hgrant.log, hgrant.entry⟩

theorem Grants.remap {memFlags : UInt16} (hgrant : m.Grants m₁ h n page) (hn : virt / 0x1000 = n)
    (hmap : m₁.mapPage h virt page (pageFlags memFlags) = .ok m') :
    m.Grants m' h n page ∧ m'.ram = m₁.ram ∧ m'.files = m₁.files := by
  obtain ⟨_, _, _, hmaps⟩ := mapPage_ok hgrant.layout.spaces hmap
  rw [presentEntry_pageFlags, hn] at hmaps
  have hsame := hmaps.same
  refine ⟨⟨hgrant.layout.trans hmaps.sameLayout, ?_, ?_, hgrant.aligned, ?_, pageFlags memFlags, ?_⟩,
    by rw [hsame], by rw [hsame]⟩
  · rw [hsame]
    exact hgrant.current
  · rw [hsame]
    exact hgrant.alloc
  · rw [hsame]
    exact hgrant.log
  · intro j k
    rw [hmaps.entry]
    by_cases hjk : j = h ∧ k = n
    · rw [if_pos hjk, if_pos hjk]
    · rw [if_neg hjk, if_neg hjk, hgrant.entry_ne hjk]

/-! ## The handlers -/

theorem Grants.storePage_eq {change : (Nat → UInt8) → Nat → UInt8}
    (hgrant : m.Grants m₁ m.currentSpace (a / 0x1000) page) :
    m₁.storePage a change = .ok { m₁ with
      ram := storeAt m₁.ram (page / 0x1000) (change (m₁.ram (page / 0x1000))) } := by
  obtain ⟨flags, hentry⟩ := hgrant.entry_self
  rw [← hgrant.current] at hentry
  exact Memory.storePage_eq hentry

theorem mapZeroPage_ok (hwf : m.spaces.WF) (hcall : m.mapZeroPage area a = .ok (page, m')) :
    m.Grants m' m.currentSpace (a / 0x1000) page
      ∧ m'.ram = storeAt m.ram (page / 0x1000) (fun _ => 0) ∧ m'.files = m.files := by
  obtain ⟨⟨page', m₁⟩, halloc, hcall⟩ := bind_ok.mp hcall
  obtain ⟨m2, hmap, hcall⟩ := bind_ok.mp hcall
  obtain ⟨m3, hstore, hcall⟩ := bind_ok.mp hcall
  cases hcall
  have hcurrent : m₁.currentSpace = m.currentSpace := by
    obtain ⟨_, _, rfl⟩ := allocPage_ok halloc
    rfl
  simp only [hcurrent] at hmap
  obtain ⟨hgrant, hram, hfiles⟩ := grants_of_map hwf halloc hmap
  rw [hgrant.storePage_eq] at hstore
  cases hstore
  exact ⟨hgrant.of_ram _ _, by rw [hram]; rfl, hfiles⟩

theorem mapZeroPage_spec (area : AreaInfo) (hwf : m.spaces.WF)
    (hlive : (m.layout m.currentSpace).isSome)
    (halloc : m.allocator.allocPage = .ok (page, allocator)) (hpage : page % 0x1000 = 0)
    (ha : a % 0x1000 = 0) (htable : m.TableFor m.currentSpace (a / 0x1000)) :
    ∃ m', m.mapZeroPage area a = .ok (page, m') := by
  obtain ⟨m₁, m2, hcall, hmap⟩ := exists_grant (area.flags ||| memAreaReadwrite)
    hwf hlive halloc hpage ha htable
  obtain ⟨hgrant, _⟩ := grants_of_map hwf hcall hmap
  have hcurrent : m₁.currentSpace = m.currentSpace := by
    obtain ⟨_, _, rfl⟩ := allocPage_ok hcall
    rfl
  refine ⟨{ m2 with ram := storeAt m2.ram (page / 0x1000) (zeroPage (m2.ram (page / 0x1000))) }, ?_⟩
  rw [mapZeroPage, hcall, ok_bind]
  simp only [hcurrent]
  rw [hmap, ok_bind, hgrant.storePage_eq, ok_bind]

theorem protect_ok (hgrant : m.Grants m₁ m.currentSpace (a / 0x1000) page)
    (hcall : m₁.protect area a page = .ok m') :
    m.Grants m' m.currentSpace (a / 0x1000) page ∧ m'.ram = m₁.ram ∧ m'.files = m₁.files := by
  unfold protect at hcall
  split at hcall
  · rw [hgrant.current] at hcall
    exact hgrant.remap rfl hcall
  · cases hcall
    exact ⟨hgrant, rfl, rfl⟩

theorem protect_spec (area : AreaInfo) (hgrant : m.Grants m₁ m.currentSpace (a / 0x1000) page)
    (hlive : (m.layout m.currentSpace).isSome) (ha : a % 0x1000 = 0) :
    ∃ m', m₁.protect area a page = .ok m' := by
  unfold protect
  split
  · -- the page has a table by now
    obtain ⟨_, hentry⟩ := hgrant.entry_self
    rw [← hgrant.current] at hentry
    obtain ⟨m', hmap, _⟩ := mapPage_spec (pageFlags (area.flags &&& ~~~memAreaReadwrite))
      hgrant.layout.spaces (h := m₁.currentSpace)
      (by rw [hgrant.layout.layout, hgrant.current]; exact hlive) ha hgrant.aligned
      (.inr (tableFor_of_entry hentry))
    exact ⟨m', hmap⟩
  · exact ⟨m₁, rfl⟩

theorem alignDown_page (address : UInt32) :
    (alignDown address).toNat / 0x1000 = address.toNat / 0x1000
      ∧ (alignDown address).toNat % 0x1000 = 0 := by
  rw [toNat_alignDown]
  omega

theorem pageFaultAlloc_ok (hwf : m.spaces.WF) (hcall : m.pageFaultAlloc area address = .ok m') :
    ∃ page, m.Grants m' m.currentSpace (address.toNat / 0x1000) page
      ∧ m'.ram = storeAt m.ram (page / 0x1000) (fun _ => 0) ∧ m'.files = m.files := by
  obtain ⟨⟨page, m₁⟩, hzero, hprotect⟩ := bind_ok.mp hcall
  obtain ⟨hgrant, hram, hfiles⟩ := mapZeroPage_ok hwf hzero
  obtain ⟨hgrant', hram', hfiles'⟩ := protect_ok hgrant hprotect
  rw [(alignDown_page address).1] at hgrant'
  exact ⟨page, hgrant', hram'.trans hram, hfiles'.trans hfiles⟩

def fileMap (m : Memory) (h k : Nat) : Option FileMapInfo :=
  (m.layout h).bind fun maps => maps.fileMaps.lookup k
def linearMap (m : Memory) (h k : Nat) : Option LinearMapInfo :=
  (m.layout h).bind fun maps => maps.linearMaps.lookup k

/-- The offset into the file of the page of an address. -/
def fileOffset (area : AreaInfo) (fmInfo : FileMapInfo) (address : UInt32) : UInt32 :=
  alignDown address - area.start + fmInfo.offset

/-- The page that a file area gets: bytes of the file, then zeros. -/
def fileBytes (file : RamFile) (fileOffset : UInt32) (count : Nat) : Nat → UInt8 :=
  copyInto (file.seek (signed fileOffset) .beg).src count (fun _ => 0)

/-- What `page_fault_file` finds in the file. -/
structure FileRead (m : Memory) (area : AreaInfo) (address : UInt32) (fmInfo : FileMapInfo)
    (file file' : RamFile) (count : Nat) : Prop where
  info : m.fileMap m.currentSpace area.infoHandle.toNat = some fmInfo
  opened : m.files fmInfo.fd = some file
  read : (file.seek (signed (fileOffset area fmInfo address)) .beg).read
    (readCount fmInfo (fileOffset area fmInfo address)).toNat = .ok (count, file')

theorem pageFaultFile_ok (hwf : m.spaces.WF) (hcall : m.pageFaultFile area address = .ok m') :
    ∃ page fmInfo file file' count, m.FileRead area address fmInfo file file' count
      ∧ m.Grants m' m.currentSpace (address.toNat / 0x1000) page
      ∧ m'.ram = storeAt m.ram (page / 0x1000)
        (fileBytes file (fileOffset area fmInfo address) count)
      ∧ m'.files = Function.update m.files fmInfo.fd (some file') := by
  obtain ⟨⟨page, m₁⟩, hzero, hcall⟩ := bind_ok.mp hcall
  obtain ⟨space, hspace, hcall⟩ := bind_ok.mp hcall
  obtain ⟨fmInfo, hinfo, hcall⟩ := bind_ok.mp hcall
  obtain ⟨m2, hfill, hprotect⟩ := bind_ok.mp hcall
  obtain ⟨hgrant, hram, hfiles⟩ := mapZeroPage_ok hwf hzero
  -- the space is as before but for the new page
  have hmap : m.fileMap m.currentSpace area.infoHandle.toNat = some fmInfo := by
    rw [fileMap, ← hgrant.layout.layout, ← hgrant.current, layout_of_lookup (get_ok hspace)]
    exact get_ok hinfo
  unfold fillPage at hfill
  split at hfill
  · cases hfill
  next file hfile =>
    obtain ⟨⟨count, file'⟩, hread, hfill⟩ := bind_ok.mp hfill
    rw [hfiles] at hfile
    simp only at hfill
    rw [(hgrant.of_ram m₁.ram (Function.update m₁.files fmInfo.fd (some file'))).storePage_eq]
      at hfill
    cases hfill
    obtain ⟨hgrant', hram', hfiles'⟩ := protect_ok (hgrant.of_ram _ _) hprotect
    rw [(alignDown_page address).1] at hgrant'
    refine ⟨page, fmInfo, file, file', count, ⟨hmap, hfile, hread⟩, hgrant', ?_, ?_⟩
    · rw [hram']
      show storeAt m₁.ram (page / 0x1000) _ = _
      rw [hram, storeAt_self, storeAt_storeAt]
      rfl
    · rw [hfiles']
      show Function.update m₁.files fmInfo.fd (some file') = _
      rw [hfiles]

theorem pageFaultFile_spec {count : Nat} {fmInfo : FileMapInfo} {file file' : RamFile}
    (hwf : m.spaces.WF) (hfile : m.FileRead area address fmInfo file file' count)
    (halloc : m.allocator.allocPage = .ok (page, allocator)) (hpage : page % 0x1000 = 0)
    (htable : m.TableFor m.currentSpace (address.toNat / 0x1000)) :
    ∃ m', m.pageFaultFile area address = .ok m' := by
  obtain ⟨maps, hlay, hmap⟩ := Option.bind_eq_some_iff.mp hfile.info
  obtain ⟨m₁, hzero⟩ := mapZeroPage_spec area hwf (by rw [hlay]; rfl) halloc hpage
    (alignDown_page address).2 (by rw [(alignDown_page address).1]; exact htable)
  obtain ⟨hgrant, _, hfiles⟩ := mapZeroPage_ok hwf hzero
  obtain ⟨space, hspace, hmaps⟩ := lookup_of_layout (m := m₁) (h := m₁.currentSpace)
    (by rw [hgrant.layout.layout, hgrant.current]; exact hlay)
  rw [← hmaps] at hmap
  -- the state after the page was filled
  have hfilled := hgrant.of_ram (storeAt m₁.ram (page / 0x1000)
    (copyInto (file.seek (signed (fileOffset area fmInfo address)) .beg).src count
      (m₁.ram (page / 0x1000)))) (Function.update m₁.files fmInfo.fd (some file'))
  obtain ⟨m', hprotect⟩ := protect_spec area hfilled (by rw [hlay]; rfl) (alignDown_page address).2
  refine ⟨m', ?_⟩
  rw [pageFaultFile, hzero, ok_bind]
  simp only
  rw [get_spec hspace, ok_bind, get_spec hmap, ok_bind, fillPage, hfiles, hfile.opened]
  simp only
  rw [show alignDown address - area.start + fmInfo.offset = fileOffset area fmInfo address from rfl,
    hfile.read, ok_bind]
  rw [← hfiles, (hgrant.of_ram m₁.ram (Function.update m₁.files fmInfo.fd
    (some file'))).storePage_eq, ok_bind]
  exact hprotect

def linearPhys (area : AreaInfo) (lmInfo : LinearMapInfo) (address : UInt32) : Nat :=
  (lmInfo.physStart + (alignDown address - area.start)).toNat

theorem pageFaultLinearMap_ok (hwf : m.spaces.WF)
    (hcall : m.pageFaultLinearMap area address = .ok m') :
    ∃ lmInfo, m.linearMap m.currentSpace area.infoHandle.toNat = some lmInfo
      ∧ linearPhys area lmInfo address % 0x1000 = 0
      ∧ m.Maps m' m.currentSpace (address.toNat / 0x1000)
        (some ⟨pageFlags area.flags, linearPhys area lmInfo address / 0x1000⟩) := by
  obtain ⟨space, hspace, hcall⟩ := bind_ok.mp hcall
  obtain ⟨lmInfo, hinfo, hmap⟩ := bind_ok.mp hcall
  obtain ⟨_, hphys, _, hmaps⟩ := mapPage_ok hwf hmap
  rw [presentEntry_pageFlags, (alignDown_page address).1] at hmaps
  refine ⟨lmInfo, ?_, hphys, hmaps⟩
  rw [linearMap, layout_of_lookup (get_ok hspace)]
  exact get_ok hinfo

/-! ## Temporary mappings -/

/-- Some pages of a space are absent; nothing else changed in tables and
allocator. -/
structure Clears (m m' : Memory) (h : Nat) (pages : List Nat) : Prop where
  layout : m.SameLayout m'
  current : m'.currentSpace = m.currentSpace
  allocator : m'.allocator = m.allocator
  log : m'.log = m.log
  entry : ∀ j k, m'.entry j k = if j = h ∧ k ∈ pages then none else m.entry j k

theorem copyPageContents_ok {src dst : Nat} (hwf : m.spaces.WF)
    (hcall : m.copyPageContents src dst = .ok m') :
    m.Clears m' m.currentSpace [sourceVirt / 0x1000, destVirt / 0x1000]
      ∧ m'.ram = storeAt m.ram (dst / 0x1000)
        (copyInto (m.ram (src / 0x1000)) 0x1000 (m.ram (dst / 0x1000)))
      ∧ m'.files = m.files := by
  have hpages : sourceVirt / 0x1000 ≠ destVirt / 0x1000 := by decide
  obtain ⟨_, _, hcall⟩ := bind_ok.mp hcall
  obtain ⟨_, _, hcall⟩ := bind_ok.mp hcall
  obtain ⟨m₁, hmap1, hcall⟩ := bind_ok.mp hcall
  obtain ⟨m2, hmap2, hcall⟩ := bind_ok.mp hcall
  obtain ⟨bytes, hload, hcall⟩ := bind_ok.mp hcall
  obtain ⟨m3, hstore, hcall⟩ := bind_ok.mp hcall
  obtain ⟨m4, hmap4, hmap₅⟩ := bind_ok.mp hcall
  obtain ⟨_, _, _, h1⟩ := mapPage_ok hwf hmap1
  obtain ⟨_, _, _, h2⟩ := mapPage_ok h1.wf hmap2
  rw [presentEntry_some (by decide)] at h1 h2
  have hcur1 : m₁.currentSpace = m.currentSpace := by rw [h1.same]
  have hcur2 : m2.currentSpace = m.currentSpace := by rw [h2.same]; exact hcur1
  have hram2 : m2.ram = m.ram := by rw [h2.same]; rw [h1.same]
  -- both frames are mapped when the bytes are copied
  have hsource : m2.entry m2.currentSpace (sourceVirt / 0x1000)
      = some ⟨memPeP ||| memPeRW ||| memPeD, src / 0x1000⟩ := by
    rw [h2.entry, if_neg fun hc => hpages hc.2, h1.entry, hcur2, if_pos ⟨rfl, rfl⟩]
  have hdest : m2.entry m2.currentSpace (destVirt / 0x1000)
      = some ⟨memPeP ||| memPeRW ||| memPeD, dst / 0x1000⟩ := by
    rw [h2.entry, hcur2, hcur1, if_pos ⟨rfl, rfl⟩]
  rw [loadPage_eq hsource] at hload
  cases hload
  rw [Memory.storePage_eq hdest] at hstore
  have hm3 := (Except.ok.inj hstore).symm
  have hcur3 : m3.currentSpace = m.currentSpace := by rw [hm3]; exact hcur2
  have hspaces3 : m3.spaces = m2.spaces := by rw [hm3]
  obtain ⟨_, _, _, h4⟩ := mapPage_ok (by rw [hspaces3]; exact h2.wf) hmap4
  obtain ⟨_, _, _, h₅⟩ := mapPage_ok h4.wf hmap₅
  have hcur4 : m4.currentSpace = m.currentSpace := by rw [h4.same]; exact hcur3
  have hrest : ∀ {β : Type} (f : Memory → β), (∀ (s : Memory) spaces, f { s with spaces := spaces }
      = f s) → f m' = f m3 ∧ f m2 = f m := by
    intro β f hf
    refine ⟨?_, ?_⟩
    · rw [h₅.same, hf, h4.same, hf]
    · rw [h2.same, hf, h1.same, hf]
  refine ⟨⟨⟨h₅.wf, ?_⟩, ?_, ?_, ?_, ?_⟩, ?_, ?_⟩
  · rw [h₅.layout, h4.layout, layout_of_spaces hspaces3]
    exact h2.layout.trans h1.layout
  · rw [(hrest currentSpace fun _ _ => rfl).1, hcur3]
  · rw [(hrest allocator fun _ _ => rfl).1, hm3]
    exact (hrest allocator fun _ _ => rfl).2
  · rw [(hrest log fun _ _ => rfl).1, hm3]
    exact (hrest log fun _ _ => rfl).2
  · intro j k
    rw [h₅.entry, h4.entry, hcur4, hcur3, entry_of_spaces hspaces3, h2.entry, h1.entry, hcur1]
    by_cases hj : j = m.currentSpace
    · by_cases hd : k = destVirt / 0x1000
      · simp [hj, hd]
      · by_cases hs : k = sourceVirt / 0x1000
        · simp [hj, hs]
        · simp [hj, hd, hs]
    · simp [hj]
  · rw [(hrest ram fun _ _ => rfl).1, hm3, hram2]
  · rw [(hrest files fun _ _ => rfl).1, hm3]
    exact (hrest files fun _ _ => rfl).2

/-! ## The entries recorded for new areas -/

theorem fileMap_of_layout {maps : SpaceMaps} (hlay : m.layout h = some maps) (k : Nat) :
    m.fileMap h k = maps.fileMaps.lookup k := by
  rw [fileMap, hlay]
  rfl

theorem linearMap_of_layout {maps : SpaceMaps} (hlay : m.layout h = some maps) (k : Nat) :
    m.linearMap h k = maps.linearMaps.lookup k := by
  rw [linearMap, hlay]
  rfl

/-- What is recorded about the areas of a space stays recorded, and the other spaces have
the same areas. -/
structure KeepsMaps (m m' : Memory) (h : Nat) : Prop where
  others : ∀ j, j ≠ h → m'.layout j = m.layout j
  file : ∀ k info, m.fileMap h k = some info → m'.fileMap h k = some info
  linear : ∀ k info, m.linearMap h k = some info → m'.linearMap h k = some info

theorem KeepsMaps.trans {m'' : Memory} (h1 : m.KeepsMaps m' h) (h2 : m'.KeepsMaps m'' h) :
    m.KeepsMaps m'' h :=
  ⟨fun j hj => (h2.others j hj).trans (h1.others j hj),
    fun k info hinfo => h2.file k info (h1.file k info hinfo),
    fun k info hinfo => h2.linear k info (h1.linear k info hinfo)⟩

theorem lookup_emplaced {α : Type} {capacity sentinel k : Nat} {p p' : Pool α capacity sentinel}
    {v w : α} (hwf : p.WF) (hput : p.emplaceAnywhere v = .ok (i, p')) (hk : p.lookup k = some w) :
    p'.lookup k = some w := by
  obtain ⟨_, _, hfree, hlook⟩ := emplaceAnywhere_ok hwf hput
  rw [hlook, if_neg, hk]
  rintro rfl
  rw [hfree] at hk
  cases hk

theorem Edits.keepsMaps {space space' : AddressSpace} (hedit : m.Edits m' h space')
    (hlook : m.spaces.lookup h = some space)
    (hfile : ∀ k info, space.fileMaps.lookup k = some info → space'.fileMaps.lookup k = some info)
    (hlinear : ∀ k info, space.linearMaps.lookup k = some info →
      space'.linearMaps.lookup k = some info) : m.KeepsMaps m' h := by
  have hlay := layout_of_lookup hlook
  have hlay' : m'.layout h = some space'.toSpaceMaps := by rw [hedit.layout, if_pos rfl]
  refine ⟨?_, ?_, ?_⟩
  · intro j hj
    rw [hedit.layout, if_neg hj]
  · intro k info hinfo
    rw [fileMap_of_layout hlay] at hinfo
    rw [fileMap_of_layout hlay']
    exact hfile k info hinfo
  · intro k info hinfo
    rw [linearMap_of_layout hlay] at hinfo
    rw [linearMap_of_layout hlay']
    exact hlinear k info hinfo

theorem memMapFd_records {fd : Int} {offset fileSize : UInt32} (hshape : m.Shaped)
    (hcall : m.memMapFd h start stop fd offset fileSize flags = .ok (i, m')) :
    ∃ k < 16, m.Adds m' h i ⟨start, stop, areaFile, flags, UInt16.ofNat k⟩
      ∧ m'.entry = m.entry ∧ m.KeepsMaps m' h ∧ m'.fileMap h k = some ⟨fd, offset, fileSize⟩ := by
  obtain ⟨space, space', hlook, hmap, hedit⟩ := withSpace_ok hshape.spaces hcall
  have hpools := hshape.pools h _ (layout_of_lookup hlook)
  obtain ⟨_, k, hk, hadd, hlinear, hput⟩ := AddressSpace.mapFd_ok hpools hmap
  refine ⟨k, hk, hedit.adds hshape hlook rfl hadd, hedit.entry_eq hlook hadd.pageDir,
    hedit.keepsMaps hlook ?_ ?_, ?_⟩
  · exact fun n info hinfo => lookup_emplaced hpools.fileMaps hput hinfo
  · intro n info hinfo
    rw [hlinear]
    exact hinfo
  · obtain ⟨_, _, _, hmaps⟩ := emplaceAnywhere_ok hpools.fileMaps hput
    rw [fileMap_of_layout (by rw [hedit.layout, if_pos rfl]), hmaps, if_pos rfl]

theorem memMapLinear_records {physStart : UInt32} (hshape : m.Shaped)
    (hcall : m.memMapLinear h start stop physStart flags = .ok (i, m')) :
    ∃ k < 16, m.Adds m' h i ⟨start, stop, areaLinearMap, flags, UInt16.ofNat k⟩
      ∧ m'.entry = m.entry ∧ m.KeepsMaps m' h ∧ m'.linearMap h k = some ⟨physStart⟩ := by
  obtain ⟨space, space', hlook, hmap, hedit⟩ := withSpace_ok hshape.spaces hcall
  have hpools := hshape.pools h _ (layout_of_lookup hlook)
  obtain ⟨k, hk, hadd, hfile, hput⟩ := AddressSpace.mapLinear_ok hpools hmap
  refine ⟨k, hk, hedit.adds hshape hlook rfl hadd, hedit.entry_eq hlook hadd.pageDir,
    hedit.keepsMaps hlook ?_ ?_, ?_⟩
  · intro n info hinfo
    rw [hfile]
    exact hinfo
  · exact fun n info hinfo => lookup_emplaced hpools.linearMaps hput hinfo
  · obtain ⟨_, _, _, hmaps⟩ := emplaceAnywhere_ok hpools.linearMaps hput
    rw [linearMap_of_layout (by rw [hedit.layout, if_pos rfl]), hmaps, if_pos rfl]

theorem memMapAlloc_records (hshape : m.Shaped)
    (hcall : m.memMapAlloc h start stop flags = .ok (i, m')) :
    m.Adds m' h i ⟨start, stop, areaAlloc, flags, 0⟩ ∧ m'.entry = m.entry ∧ m.KeepsMaps m' h := by
  obtain ⟨space, space', hlook, hmap, hedit⟩ := withSpace_ok hshape.spaces hcall
  obtain ⟨hadd, hlinear, hfile⟩ := AddressSpace.mapAlloc_ok
    (hshape.pools h _ (layout_of_lookup hlook)) hmap
  refine ⟨hedit.adds hshape hlook rfl hadd, hedit.entry_eq hlook hadd.pageDir,
    hedit.keepsMaps hlook ?_ ?_⟩
  · intro n info hinfo
    rw [hfile]
    exact hinfo
  · intro n info hinfo
    rw [hlinear]
    exact hinfo

end Memory

end Peos2.Kernel
