/-
  Kernel.FrameRuns — every physical frame has one owner (`kernel/memory.cc`).

  The calls on spaces keep the books of the frames in order, with one exception.
  `mem_write_page` and `copy_page_contents` reach a frame through fixed pages of the
  current space and leave these absent. If the current space had a page of zeros or
  of a file there, its entry is lost and its frame never comes back.

  Main results: `frames_owned`, `frame_lost`.
-/
import Peos2.Kernel.Frames

namespace Peos2.Kernel

open Peos2.Lib Peos2.Support List Pool AddressSpace Option

/-! ## The calls -/

inductive MemoryCall where
  | createSpace
  | setCurrentSpace (h : Nat)
  | mapLinear (h : Nat) (start stop physStart : UInt32) (flags : UInt16)
  | mapLinearEager (h : Nat) (start stop physStart : UInt32) (flags : UInt16)
  | mapAlloc (h : Nat) (start stop : UInt32) (flags : UInt16)
  | mapFd (h : Nat) (start stop : UInt32) (fd : Int) (offset fileSize : UInt32) (flags : UInt16)
  | pageFault (address : UInt32)
  | writePage (h : Nat) (virtAddr : UInt32) (data : Nat → UInt8) (size : UInt32)
  | forkSpace (h : Nat)
  | unmapNotMatching (h : Nat) (flags : UInt16)
  | destroySpace (h : Nat)
  /-- Programs write to memory; files are opened, read and closed. -/
  | outside (ram : Nat → Nat → UInt8) (files : Int → Option RamFile)

def MemoryCall.exec (m : Memory) : MemoryCall → Checked Memory
  | .createSpace => do
      let (_, m) ← m.memCreateSpace
      .ok m
  | .setCurrentSpace h => .ok (m.memSetCurrentSpace h)
  | .mapLinear h start stop physStart flags => do
      let (_, m) ← m.memMapLinear h start stop physStart flags
      .ok m
  | .mapLinearEager h start stop physStart flags => do
      let (_, m) ← m.memMapLinearEager h start stop physStart flags
      .ok m
  | .mapAlloc h start stop flags => do
      let (_, m) ← m.memMapAlloc h start stop flags
      .ok m
  | .mapFd h start stop fd offset fileSize flags => do
      let (_, m) ← m.memMapFd h start stop fd offset fileSize flags
      .ok m
  | .pageFault address => m.intPageFault address
  | .writePage h virtAddr data size => m.memWritePage h virtAddr data size
  | .forkSpace h => do
      let (_, m) ← m.memForkSpace h
      .ok m
  | .unmapNotMatching h flags => m.memUnmapNotMatching h flags
  | .destroySpace h => m.memDestroySpace h
  | .outside ram files => .ok { m with ram := ram, files := files }

/-- The calls the kernel makes: spaces that are switched to exist, ranges are
aligned, and the processor faults on pages that are absent. -/
def MemoryCall.Made (m : Memory) : MemoryCall → Prop
  | .setCurrentSpace h => (m.layout h).isSome
  | .mapLinear _ start stop _ _ => AddressSpace.PageAligned start stop
  | .mapLinearEager _ start stop _ _ => AddressSpace.PageAligned start stop
  | .mapAlloc _ start stop _ => AddressSpace.PageAligned start stop
  | .mapFd _ start stop _ _ _ _ => AddressSpace.PageAligned start stop
  | .pageFault address => m.entry m.currentSpace (address.toNat / 0x1000) = none
  | _ => True

def Memory.Unowned (m : Memory) (h : Nat) (pages : List Nat) : Prop :=
  ∀ k ∈ pages, ∀ page, ¬ m.Owns h k page

/-- The temporary mappings of the call hit no page that a frame backs, now or
by the time they are made. -/
def MemoryCall.Clear (m : Memory) : MemoryCall → Prop
  | .writePage h virtAddr _ _ => m.Unowned m.currentSpace [Memory.kernelScratchBase / 0x1000]
      ∧ ¬ (h = m.currentSpace ∧ virtAddr.toNat = Memory.kernelScratchBase)
  | .forkSpace _ =>
    m.Unowned m.currentSpace [Memory.sourceVirt / 0x1000, Memory.destVirt / 0x1000]
  | _ => True

namespace Memory

variable {m m' : Memory} {h i n page : Nat} {area : AreaInfo}

/-! ## Spaces and areas -/

theorem Orderly.memCreateSpace (ho : m.Orderly) (hcall : m.memCreateSpace = .ok (h, m')) :
    m'.Orderly ∧ m.layout h = none ∧ (m'.layout h).isSome ∧ m'.currentSpace = m.currentSpace
      ∧ m'.area = m.area ∧ m'.entry = m.entry := by
  obtain ⟨hshape, hdead, hsame, hlook⟩ := memCreateSpace_ok ho.shaped hcall
  have hlayout : ∀ j, m'.layout j = if j = h then some fresh.toSpaceMaps else m.layout j := by
    intro j
    rw [layout, hlook]
    split <;> rfl
  have harea : m'.area = m.area := by
    funext j k
    rw [Memory.area, hlayout]
    split
    next hj =>
      rw [Memory.area, hj, hdead]
      exact lookup_blank k
    · rfl
  have hentry : m'.entry = m.entry := by
    funext j k
    rw [Memory.entry, hlook]
    split
    next hj =>
      rw [hj, entry_of_dead hdead]
      exact page_fresh k
    · rfl
  have hcurrent : m'.currentSpace = m.currentSpace := by rw [hsame]
  refine ⟨?_, hdead, by rw [hlayout, if_pos rfl]; rfl, hcurrent, harea, hentry⟩
  refine ho.same hshape harea ?_ (fun _ _ _ => by rw [hentry]) ?_ (by rw [hsame]) (by rw [hsame])
  · rw [hcurrent, hlayout]
    split
    · exact .inl rfl
    · exact ho.current
  · rw [hentry]
    exact ho.inside

theorem Orderly.current_ne_created (ho : m.Orderly) (hcall : m.memCreateSpace = .ok (h, m')) :
    m.currentSpace ≠ h := by
  obtain ⟨ho', hdead, hlive, _⟩ := ho.memCreateSpace hcall
  rintro rfl
  rcases ho.current with hcur | hcur
  · rw [hdead] at hcur
    cases hcur
  · obtain ⟨maps, hmaps⟩ := isSome_iff_exists.mp hlive
    obtain ⟨space', hlook, _⟩ := lookup_of_layout hmaps
    have hlt := lookup_lt_watermark hlook
    have hroom := ho'.shaped.spaces.room
    omega

theorem Orderly.memSetCurrentSpace (ho : m.Orderly) (hlive : (m.layout h).isSome) :
    (m.memSetCurrentSpace h).Orderly :=
  ho.same ⟨ho.shaped.spaces, ho.shaped.pools⟩ rfl (.inl hlive) (fun _ _ _ => rfl) ho.inside
    rfl rfl

theorem Orderly.outside (ho : m.Orderly) (ram : Nat → Nat → UInt8)
    (files : Int → Option RamFile) : Orderly { m with ram := ram, files := files } :=
  ho.same ⟨ho.shaped.spaces, ho.shaped.pools⟩ rfl ho.current (fun _ _ _ => rfl) ho.inside rfl rfl

/-! ## Page faults -/

theorem spans_page (halign : AddressSpace.PageAligned area.start area.stop) {a : Nat}
    (hspans : area.Spans a) : area.Spans (a / 0x1000 * 0x1000) := by
  have h1 := halign.start
  have h3 := hspans.1
  have h4 := hspans.2
  exact ⟨by omega, by omega⟩

theorem Orderly.found (ho : m.Orderly) {space : AddressSpace} {address : UInt32}
    (hget : m.spaces.get h = .ok space)
    (hfind : memFindArea space.toSpaceInfo address = .ok (some i))
    (hgetarea : space.areas.get i = .ok area) :
    m.area h i = some area ∧ area.Spans (address.toNat / 0x1000 * 0x1000) := by
  have harea := area_of_get hget hgetarea
  refine ⟨harea, spans_page (ho.aligned _ _ _ harea) ?_⟩
  rcases memFindArea_spec (ho.shaped.pools _ _ (layout_of_lookup (get_ok hget))).areas address with
    ⟨j, area', hsome, hhas, hspans⟩ | ⟨hnone, _⟩
  · cases hsome.symm.trans hfind
    cases (get_ok hgetarea).symm.trans hhas
    exact hspans
  · cases hnone.symm.trans hfind

theorem Orderly.intPageFault (ho : m.Orderly) {address : UInt32}
    (habsent : m.entry m.currentSpace (address.toNat / 0x1000) = none)
    (hcall : m.intPageFault address = .ok m') : m'.Orderly := by
  obtain ⟨space, hget, hcall⟩ := bind_ok.mp hcall
  obtain ⟨found, hfind, hcall⟩ := bind_ok.mp hcall
  cases found with
  | some i =>
    obtain ⟨area, hgetarea, hcall⟩ := bind_ok.mp hcall
    obtain ⟨harea, hpage⟩ := ho.found hget hfind hgetarea
    split at hcall
    next hlinear =>
      obtain ⟨lmInfo, _, _, hmaps⟩ := pageFaultLinearMap_ok ho.shaped.spaces hcall
      exact ho.mapLinearPage harea hpage hlinear hmaps
    split at hcall
    next halloc =>
      obtain ⟨page, hgrant, _⟩ := pageFaultAlloc_ok ho.shaped.spaces hcall
      exact ho.grant hgrant ((ho.backed_iff harea hpage).mpr (.inl halloc)) habsent
    · split at hcall
      next hfile =>
        obtain ⟨page, _, _, _, _, _, hgrant, _⟩ := pageFaultFile_ok ho.shaped.spaces hcall
        exact ho.grant hgrant ((ho.backed_iff harea hpage).mpr (.inr hfile)) habsent
      · cases hcall
  | none =>
    cases hcall
    exact ho

/-! ## Writing a page -/

variable {flags : UInt16}

theorem clears_scratch {m1 m2 : Memory} {frame virt : Nat} {change : (Nat → UInt8) → Nat → UInt8}
    (hwf : m.spaces.WF) (hmap : m.mapPage m.currentSpace virt frame flags = .ok m1)
    (hstore : m1.storePage virt change = .ok m2)
    (hunmap : m2.mapPage m2.currentSpace virt 0 0 = .ok m') :
    m.Clears m' m.currentSpace [virt / 0x1000] := by
  obtain ⟨_, _, _, h1⟩ := mapPage_ok hwf hmap
  have hm2 : ∃ ram, m2 = { m1 with ram := ram } := by
    obtain ⟨space, _, hstore⟩ := bind_ok.mp hstore
    split at hstore
    · exact ⟨_, (Except.ok.inj hstore).symm⟩
    · cases hstore
  obtain ⟨ram, hm2⟩ := hm2
  have hspaces : m2.spaces = m1.spaces := by rw [hm2]
  have hcurrent : m2.currentSpace = m.currentSpace := by
    rw [hm2]
    show m1.currentSpace = m.currentSpace
    rw [h1.same]
  obtain ⟨_, _, _, h2⟩ := mapPage_ok (by rw [hspaces]; exact h1.wf) hunmap
  rw [presentEntry_zero] at h2
  refine ⟨⟨h2.wf, ?_⟩, ?_, ?_, ?_, ?_⟩
  · rw [h2.layout, layout_of_spaces hspaces, h1.layout]
  · rw [h2.same]
    exact hcurrent
  · rw [h2.same, hm2]
    show m1.allocator = m.allocator
    rw [h1.same]
  · rw [h2.same, hm2]
    show m1.log = m.log
    rw [h1.same]
  · intro j k
    rw [h2.entry, hcurrent, entry_of_spaces hspaces, h1.entry]
    by_cases hjk : j = m.currentSpace ∧ k = virt / 0x1000
    · rw [if_pos hjk, if_pos ⟨hjk.1, by rw [hjk.2]; exact mem_singleton_self _⟩]
    · rw [if_neg hjk, if_neg hjk, if_neg fun hc => hjk ⟨hc.1, mem_singleton.mp hc.2⟩]

theorem provide_ok {space : AddressSpace} {virt : Nat} (hwf : m.spaces.WF)
    (hlook : m.spaces.lookup h = some space)
    (hcall : m.provide h space area virt = .ok (page, m')) :
    m' = m ∨ (m.entry h (virt / 0x1000) = none ∧ m.Grants m' h (virt / 0x1000) page) := by
  unfold provide at hcall
  rw [findPte_eq, ← entry_of_lookup hlook] at hcall
  split at hcall
  · cases hcall
    exact .inl rfl
  next hnone =>
    obtain ⟨⟨page', m1⟩, halloc, hcall⟩ := bind_ok.mp hcall
    obtain ⟨m2, hmap, hcall⟩ := bind_ok.mp hcall
    cases hcall
    exact .inr ⟨hnone, (grants_of_map hwf halloc hmap).1⟩

theorem Orderly.memWritePage (ho : m.Orderly) {virtAddr : UInt32} {data : Nat → UInt8}
    {size : UInt32} (hfree : m.Unowned m.currentSpace [kernelScratchBase / 0x1000])
    (hother : ¬ (h = m.currentSpace ∧ virtAddr.toNat = kernelScratchBase))
    (hcall : m.memWritePage h virtAddr data size = .ok m') : m'.Orderly := by
  obtain ⟨_, hvirt, hcall⟩ := bind_ok.mp hcall
  rw [check_ok, decide_eq_true_eq] at hvirt
  obtain ⟨space, hget, hcall⟩ := bind_ok.mp hcall
  obtain ⟨found, hfind, hcall⟩ := bind_ok.mp hcall
  cases found with
  | some i =>
    obtain ⟨area, hgetarea, hcall⟩ := bind_ok.mp hcall
    obtain ⟨harea, hpage⟩ := ho.found hget hfind hgetarea
    obtain ⟨_, htype, hcall⟩ := bind_ok.mp hcall
    rw [check_ok, decide_eq_true_eq] at htype
    obtain ⟨⟨frame, m1⟩, hprovide, hcall⟩ := bind_ok.mp hcall
    obtain ⟨_, _, hcall⟩ := bind_ok.mp hcall
    obtain ⟨m2, hmap, hcall⟩ := bind_ok.mp hcall
    obtain ⟨m3, hstore, hunmap⟩ := bind_ok.mp hcall
    -- the books with the frame provided, and nothing behind the scratch page still
    have hmid : m1.Orderly ∧ m1.Unowned m1.currentSpace [kernelScratchBase / 0x1000] := by
      rcases provide_ok ho.shaped.spaces (get_ok hget) hprovide with rfl | ⟨habsent, hgrant⟩
      · exact ⟨ho, hfree⟩
      refine ⟨ho.grant hgrant ((ho.backed_iff harea hpage).mpr (.inl htype)) habsent, ?_⟩
      intro k hk page hown
      rw [hgrant.current] at hown
      have hne : ¬ (m.currentSpace = h ∧ k = virtAddr.toNat / 0x1000) := by
        rintro ⟨hcur, hkv⟩
        rw [mem_singleton.mp hk] at hkv
        have hbase : kernelScratchBase = 0xE0000000 := rfl
        exact hother ⟨hcur.symm, by omega⟩
      obtain ⟨hbacked, hentry⟩ := hown
      rw [hgrant.entry_ne hne] at hentry
      exact hfree k hk page
        ⟨(Backed.of_area (area_of_layout_eq hgrant.layout.layout)).mp hbacked, hentry⟩
    exact hmid.1.clears (clears_scratch hmid.1.shaped.spaces hmap hstore hunmap) hmid.2
  | none => cases hcall

/-! ## Copying a space -/

/-- A fork of space `h` copies a page: one that is present in an area of zeros. -/
def Copies (m : Memory) (h : Nat) : Prop :=
  ∃ i area n, m.area h i = some area ∧ area.flags &&& memAreaNoFork = 0 ∧ area.type = areaAlloc ∧
    area.Spans (n * 0x1000) ∧ (m.entry h n).isSome

/-- In the middle of a fork into space `dest` that started from `m`: the other spaces have lost
at most entries. -/
structure Forking (m s : Memory) (dest : Nat) : Prop where
  orderly : s.Orderly
  current : s.currentSpace = m.currentSpace
  areas : ∀ j k, j ≠ dest → s.area j k = m.area j k
  entries : ∀ j k, j ≠ dest → s.entry j k = m.entry j k ∨ s.entry j k = none

variable {s s' : Memory} {source dest : Nat}

section

variable (hf : Forking m s dest)

include hf

theorem Forking.unowned (hdest : m.currentSpace ≠ dest) {pages : List Nat}
    (hfree : m.Unowned m.currentSpace pages) : s.Unowned s.currentSpace pages := by
  intro k hk page hown
  rw [hf.current] at hown
  obtain ⟨⟨i, area, harea, hspans, htype⟩, pte, hpte, hframe⟩ := hown
  refine hfree k hk page ⟨⟨i, area, by rw [← hf.areas _ _ hdest]; exact harea, hspans, htype⟩, pte, ?_,
    hframe⟩
  rcases hf.entries _ k hdest with heq | hnone
  · rw [← heq]
    exact hpte
  · rw [hnone] at hpte
    cases hpte

theorem Forking.add (hadds : s.Adds s' dest i area) (hentry : s'.entry = s.entry)
    (halign : AddressSpace.PageAligned area.start area.stop) : Forking m s' dest := by
  refine ⟨hf.orderly.addArea hadds halign fun j n => .inl (by rw [hentry]), ?_, ?_, ?_⟩
  · rw [hadds.same]
    exact hf.current
  · intro j k hj
    rw [hadds.areas, if_neg fun hc => hj hc.1, hf.areas j k hj]
  · rw [hentry]
    exact hf.entries

theorem Forking.copyLinearPage
    (harea : s.area dest i = some area) (hspans : area.Spans (n * 0x1000))
    (hlinear : area.type = areaLinearMap)
    (hcall : Memory.copyLinearPage source dest (n * 0x1000) s = .ok s') :
    Forking m s' dest ∧ s'.area = s.area := by
  obtain ⟨space, _, hcall⟩ := bind_ok.mp hcall
  split at hcall
  · obtain ⟨_, _, _, hmaps⟩ := mapPage_ok hf.orderly.shaped.spaces hcall
    rw [show n * 0x1000 / 0x1000 = n by omega] at hmaps
    have harea' := area_of_layout_eq hmaps.layout
    refine ⟨⟨hf.orderly.mapLinearPage harea hspans hlinear hmaps, ?_, ?_, ?_⟩, harea'⟩
    · rw [hmaps.same]
      exact hf.current
    · rw [harea']
      exact hf.areas
    · intro j k hj
      rw [hmaps.entry, if_neg fun hc => hj hc.1]
      exact hf.entries j k hj
  · cases hcall
    exact ⟨hf, rfl⟩

theorem Forking.copyAllocPage (hdest : m.currentSpace ≠ dest) (hsource : source ≠ dest)
    (hfree : (m.entry source n).isSome →
      m.Unowned m.currentSpace [sourceVirt / 0x1000, destVirt / 0x1000])
    (harea : s.area dest i = some area) (hspans : area.Spans (n * 0x1000))
    (halloc : area.type = areaAlloc) (habsent : s.entry dest n = none)
    (hcall : Memory.copyAllocPage source dest flags (n * 0x1000) s = .ok s') :
    Forking m s' dest ∧ s'.area = s.area ∧ ∀ k, k ≠ n → s'.entry dest k = s.entry dest k := by
  obtain ⟨space, hget, hcall⟩ := bind_ok.mp hcall
  split at hcall
  next pte hpte =>
    obtain ⟨⟨page, s1⟩, halloc', hcall⟩ := bind_ok.mp hcall
    obtain ⟨s2, hmap, hcopy⟩ := bind_ok.mp hcall
    obtain ⟨hgrant, _⟩ := grants_of_map hf.orderly.shaped.spaces halloc' hmap
    rw [show n * 0x1000 / 0x1000 = n by omega] at hgrant
    have harea2 := area_of_layout_eq hgrant.layout.layout
    have hpresent : (m.entry source n).isSome := by
      rw [findPte_eq, show n * 0x1000 / 0x1000 = n by omega,
        ← entry_of_lookup (get_ok hget)] at hpte
      rcases hf.entries source n hsource with heq | hnone
      · rw [← heq, hpte]
        rfl
      · rw [hnone] at hpte
        cases hpte
    have hf2 : Forking m s2 dest := by
      refine ⟨hf.orderly.grant hgrant ((hf.orderly.backed_iff harea hspans).mpr (.inl halloc))
        habsent, hgrant.current.trans hf.current, by rw [harea2]; exact hf.areas, ?_⟩
      intro j k hj
      rw [hgrant.entry_ne fun hc => hj hc.1]
      exact hf.entries j k hj
    obtain ⟨hclears, _⟩ := copyPageContents_ok hf2.orderly.shaped.spaces hcopy
    have harea' := area_of_layout_eq hclears.layout.layout
    rw [hf2.current] at hclears
    refine ⟨⟨hf2.orderly.clears hclears
        (by rw [← hf2.current]; exact hf2.unowned hdest (hfree hpresent)),
      hclears.current.trans hf2.current, by rw [harea']; exact hf2.areas, ?_⟩,
      harea'.trans harea2, ?_⟩
    · intro j k hj
      rw [hclears.entry]
      split
      · exact .inr rfl
      · exact hf2.entries j k hj
    · intro k hk
      rw [hclears.entry, if_neg fun hc => hdest hc.1.symm, hgrant.entry_ne fun hc => hk hc.2]
  · cases hcall
    exact ⟨hf, rfl, fun _ _ => rfl⟩

theorem Forking.copyLinear (halign : AddressSpace.PageAligned area.start area.stop)
    (hcall : s.copyLinear area source dest = .ok s') : Forking m s' dest := by
  obtain ⟨space, _, hcall⟩ := bind_ok.mp hcall
  obtain ⟨info, _, hcall⟩ := bind_ok.mp hcall
  obtain ⟨⟨i, s1⟩, hmap, hloop⟩ := bind_ok.mp hcall
  obtain ⟨k, _, hadds, hentry, _⟩ := memMapLinear_records hf.orderly.shaped hmap
  have harea : s1.area dest i
      = some ⟨area.start, area.stop, areaLinearMap, area.flags, UInt16.ofNat k⟩ := by
    rw [hadds.areas, if_pos ⟨rfl, rfl⟩]
  have hdone := forPages_ok (fun _ s2 => Forking m s2 dest ∧ s2.area = s1.area) halign
    (fun r s2 s3 hr hs hround => by
      rw [page_address halign] at hround
      obtain ⟨hf3, hsame⟩ := hs.1.copyLinearPage (by rw [hs.2]; exact harea)
        ((page_of_spans ⟨area.start, area.stop, areaLinearMap, area.flags,
          UInt16.ofNat k⟩ halign).mpr ⟨r, hr, rfl⟩) rfl hround
      exact ⟨hf3, hsame.trans hs.2⟩)
    ⟨hf.add hadds hentry halign, rfl⟩ hloop
  exact hdone.1

theorem Forking.copyFile (halign : AddressSpace.PageAligned area.start area.stop)
    (hcall : s.copyFile area source dest = .ok s') : Forking m s' dest := by
  obtain ⟨space, _, hcall⟩ := bind_ok.mp hcall
  obtain ⟨info, _, hcall⟩ := bind_ok.mp hcall
  obtain ⟨⟨i, s1⟩, hmap, hcall⟩ := bind_ok.mp hcall
  cases hcall
  obtain ⟨k, _, hadds, hentry, _⟩ := memMapFd_records hf.orderly.shaped hmap
  exact hf.add hadds hentry halign

theorem Forking.copyAlloc (hdest : m.currentSpace ≠ dest) (hsource : source ≠ dest)
    (hfree : ∀ n, area.Spans (n * 0x1000) → (m.entry source n).isSome →
      m.Unowned m.currentSpace [sourceVirt / 0x1000, destVirt / 0x1000])
    (halign : AddressSpace.PageAligned area.start area.stop)
    (hcall : s.copyAlloc area source dest = .ok s') : Forking m s' dest := by
  obtain ⟨⟨i, s1⟩, hmap, hloop⟩ := bind_ok.mp hcall
  obtain ⟨hadds, hentry, _⟩ := memMapAlloc_records hf.orderly.shaped hmap
  have harea : s1.area dest i = some ⟨area.start, area.stop, areaAlloc, area.flags, 0⟩ := by
    rw [hadds.areas, if_pos ⟨rfl, rfl⟩]
  have hpage : ∀ {k}, AreaInfo.Spans ⟨area.start, area.stop, areaAlloc, area.flags, 0⟩ (k * 0x1000)
      ↔ ∃ r < pageCount area.start area.stop, k = area.start.toNat / 0x1000 + r :=
    page_of_spans ⟨area.start, area.stop, areaAlloc, area.flags, 0⟩ halign
  -- the pages still to come are absent in the copy
  have hdone := forPages_ok (fun r s2 => Forking m s2 dest ∧ s2.area = s1.area
      ∧ ∀ q, r ≤ q → q < pageCount area.start area.stop →
        s2.entry dest (area.start.toNat / 0x1000 + q) = none) halign
    (fun r s2 s3 hr hs hround => by
      obtain ⟨hf2, hsame2, habsent⟩ := hs
      rw [page_address halign] at hround
      have hspans := hpage.mpr ⟨r, hr, rfl⟩
      obtain ⟨hf3, hsame3, hkept⟩ := hf2.copyAllocPage hdest hsource (hfree _ hspans)
        (by rw [hsame2]; exact harea) hspans rfl (habsent r (Nat.le_refl r) hr) hround
      refine ⟨hf3, hsame3.trans hsame2, ?_⟩
      intro q hrq hq
      rw [hkept _ (by omega)]
      exact habsent q (by omega) hq)
    ⟨hf.add hadds hentry halign, rfl, fun q _ hq => by
      rw [hentry]
      exact hf.orderly.vacant hadds (hpage.mpr ⟨q, hq, rfl⟩)⟩ hloop
  exact hdone.1

theorem Forking.forkArea (hdest : m.currentSpace ≠ dest) (hsource : source ≠ dest)
    (hfree : m.Copies source →
      m.Unowned m.currentSpace [sourceVirt / 0x1000, destVirt / 0x1000])
    (hcall : Memory.forkArea source dest s i = .ok s') : Forking m s' dest := by
  obtain ⟨space, hget, hcall⟩ := bind_ok.mp hcall
  obtain ⟨area, hgetarea, hcall⟩ := bind_ok.mp hcall
  have harea := area_of_get hget hgetarea
  have halign := hf.orderly.aligned source i area harea
  by_cases hflags : area.flags &&& memAreaNoFork ≠ 0
  · rw [if_pos hflags] at hcall
    cases hcall
    exact hf
  rw [if_neg hflags] at hcall
  unfold Memory.copyArea at hcall
  split at hcall
  · exact hf.copyLinear halign hcall
  split at hcall
  · exact hf.copyFile halign hcall
  · split at hcall
    next htype =>
      rw [hf.areas _ _ hsource] at harea
      exact hf.copyAlloc hdest hsource (fun n hn hpresent =>
        hfree ⟨i, area, n, harea, not_not.mp hflags, htype, hn, hpresent⟩) halign hcall
    · cases hcall
      exact hf

end

theorem forking_start (ho : m.Orderly) (hcreate : m.memCreateSpace = .ok (h, m')) :
    Forking m m' h := by
  obtain ⟨ho', _, _, hcurrent, harea, hentry⟩ := ho.memCreateSpace hcreate
  exact ⟨ho', hcurrent, fun j k _ => by rw [harea], fun j k _ => .inl (by rw [hentry])⟩

/-- A space that is in use is not the one that is created. -/
theorem Orderly.ne_created (ho : m.Orderly) {new : Nat} {space : AddressSpace}
    (hget : m.spaces.get h = .ok space) (hcreate : m.memCreateSpace = .ok (new, m')) : h ≠ new := by
  obtain ⟨_, hdead, _⟩ := ho.memCreateSpace hcreate
  rintro rfl
  rw [layout_of_lookup (get_ok hget)] at hdead
  cases hdead

theorem Orderly.memForkSpace (ho : m.Orderly) {new : Nat}
    (hfree : m.Unowned m.currentSpace [sourceVirt / 0x1000, destVirt / 0x1000])
    (hcall : m.memForkSpace h = .ok (new, m')) : m'.Orderly := by
  obtain ⟨space, hget, hcall⟩ := bind_ok.mp hcall
  obtain ⟨⟨new', m1⟩, hcreate, hcall⟩ := bind_ok.mp hcall
  obtain ⟨m2, hloop, hcall⟩ := bind_ok.mp hcall
  cases hcall
  have hdest := ho.current_ne_created hcreate
  have hsource := ho.ne_created hget hcreate
  exact (foldlM_keeps (P := (Forking m · new))
    (fun s i s' hf hround => hf.forkArea hdest hsource (fun _ => hfree) hround)
    (forking_start ho hcreate) hloop).orderly

/-! ## Unmapping areas and destroying spaces -/

theorem Orderly.memUnmapNotMatching (ho : m.Orderly)
    (hcall : m.memUnmapNotMatching h flags = .ok m') : m'.Orderly := by
  obtain ⟨space, _, hloop⟩ := bind_ok.mp hcall
  obtain ⟨_, ho', _⟩ := forAreas_ok (fun _ s => s.Orderly) (fun _ s hs => hs.shaped)
    (fun _ s hs _ => hs)
    (fun i s s' area hs harea hround => by
      obtain ⟨space, _, hround⟩ := bind_ok.mp hround
      obtain ⟨area', _, hround⟩ := bind_ok.mp hround
      split at hround
      · obtain ⟨s1, hunmap, hun⟩ := hs.unmapArea harea
        rw [hunmap] at hround
        cases hround
        exact hun.orderly
      · cases hround
        exact hs) ho hloop
  exact ho'

/-- In the middle of destroying space `h` of `m`: the areas below `i` are
gone, the other spaces are as they were. -/
structure Destroying (m s : Memory) (h i : Nat) : Prop where
  orderly : s.Orderly
  current : s.currentSpace = m.currentSpace
  live : (s.layout h).isSome
  freed : ∃ freed : List Nat, s.log = m.log ++ freed.map .freed
  gone : ∀ k < i, s.area h k = none
  areas : ∀ j k, j ≠ h → s.area j k = m.area j k
  entries : ∀ j k, j ≠ h → s.entry j k = m.entry j k

theorem Destroying.unmapArea (hd : Destroying m s h i) (harea : s.area h i = some area) :
    ∃ s', s.unmapArea h i = .ok s' ∧ Destroying m s' h (i + 1) := by
  obtain ⟨s', hunmap, hun⟩ := hd.orderly.unmapArea harea
  obtain ⟨freed, hfreed⟩ := hd.freed
  obtain ⟨freed', hfreed'⟩ := hun.freed
  refine ⟨s', hunmap, hun.orderly, hun.current.trans hd.current, by rw [hun.live]; exact hd.live,
    ⟨freed ++ freed', by rw [hfreed', hfreed, map_append, append_assoc]⟩, ?_, ?_, ?_⟩
  · intro k hk
    rw [hun.areas]
    split
    · rfl
    · next hne => exact hd.gone k (by omega)
  · intro j k hj
    rw [hun.areas, if_neg fun hc => hj hc.1, hd.areas j k hj]
  · intro j k hj
    rw [hun.others j k hj, hd.entries j k hj]

theorem Destroying.erase (hd : Destroying m s h i) (hne : h ≠ m.currentSpace)
    (hrest : ∀ k, i ≤ k → s.area h k = none) :
    ∃ spaces, s.spaces.erase h = .ok spaces ∧ Orderly { s with spaces := spaces }
      ∧ ∀ x : Nat × Nat, backing { s with spaces := spaces } x
        = if x.1 = h then none else m.backing x := by
  have hnoarea : ∀ k, s.area h k = none := by
    intro k
    by_cases hk : k < i
    · exact hd.gone k hk
    · exact hrest k (by omega)
  have hnopage : ∀ k, s.entry h k = none := by
    intro k
    cases hpte : s.entry h k with
    | none => rfl
    | some pte =>
      obtain ⟨j, area, harea, _⟩ := hd.orderly.inside h k pte hpte
      rw [hnoarea] at harea
      cases harea
  obtain ⟨maps, hmaps⟩ := isSome_iff_exists.mp hd.live
  obtain ⟨space, hspace, _⟩ := lookup_of_layout hmaps
  obtain ⟨spaces, herase, hwf, hlook⟩ := erase_spec hd.orderly.shaped.spaces hspace
  have hlayout : ∀ j, layout { s with spaces := spaces } j
      = if j = h then none else s.layout j := by
    intro j
    show (spaces.lookup j).map _ = _
    rw [hlook]
    split <;> rfl
  have harea : Memory.area { s with spaces := spaces } = s.area := by
    funext j k
    rw [Memory.area, hlayout]
    split
    · next hj => rw [hj, hnoarea]; rfl
    · rfl
  have hentry : entry { s with spaces := spaces } = s.entry := by
    funext j k
    show (spaces.lookup j).bind _ = _
    rw [hlook]
    split
    · next hj => rw [hj, hnopage]; rfl
    · rfl
  refine ⟨spaces, herase, ?_, ?_⟩
  · refine hd.orderly.same ⟨hwf, ?_⟩ harea ?_ (fun _ _ _ => by rw [hentry])
      (by rw [hentry]; exact hd.orderly.inside) rfl rfl
    · intro j maps hlay
      rw [hlayout] at hlay
      split at hlay
      · cases hlay
      · exact hd.orderly.shaped.pools j maps hlay
    · show (layout { s with spaces := spaces } s.currentSpace).isSome ∨ 128 ≤ s.currentSpace
      rw [hlayout, if_neg (by rw [hd.current]; exact hne.symm)]
      exact hd.orderly.current
  · rintro ⟨j, k⟩
    have hbacked : Backed { s with spaces := spaces } j k ↔ s.Backed j k := Backed.of_area harea
    by_cases hj : j = h
    · rw [if_pos hj, backing, hentry, hj, hnopage]
      split <;> rfl
    have hsame : s.Backed j k ↔ m.Backed j k := by
      unfold Backed
      simp only [hd.areas j _ hj]
    rw [if_neg hj]
    by_cases hb : m.Backed j k
    · rw [backing_of_backed hb, backing_of_backed (hbacked.mpr (hsame.mpr hb)), hentry,
        hd.entries j k hj]
    · rw [backing_of_not hb, backing_of_not fun hc => hb (hsame.mp (hbacked.mp hc))]

/-- Destroying a space that is not the current one returns, and gives back
each of its frames once and no other. -/
theorem Orderly.memDestroySpace (ho : m.Orderly) (hlive : (m.layout h).isSome)
    (hne : h ≠ m.currentSpace) :
    ∃ (m' : Memory) (freed : List Nat), m.memDestroySpace h = .ok m' ∧ m'.Orderly
      ∧ m'.log = m.log ++ freed.map .freed
      ∧ (∀ page, (∃ n, m.Owns h n page) → freed.count page = 1)
      ∧ ∀ page, (¬ ∃ n, m.Owns h n page) → freed.count page = 0 := by
  obtain ⟨maps, hmaps⟩ := isSome_iff_exists.mp hlive
  obtain ⟨space, hspace, _⟩ := lookup_of_layout hmaps
  obtain ⟨s, j, hloop, hd, hrest⟩ := forAreas_spec (h := h)
    (fun i s => Destroying m s h i) (fun i s hs => ⟨hs.orderly.shaped, hs.live⟩)
    (fun i s hs hnone => ⟨hs.orderly, hs.current, hs.live, hs.freed, fun k hk => by
      by_cases hki : k = i
      · rw [hki, hnone]
      · exact hs.gone k (by omega), hs.areas, hs.entries⟩)
    (fun i s area hs harea => hs.unmapArea harea)
    ⟨ho, rfl, hlive, ⟨[], by simp⟩, fun k hk => absurd hk (Nat.not_lt_zero k),
      fun _ _ _ => rfl, fun _ _ _ => rfl⟩
  change forAreas h (unmapEach h) m = .ok s at hloop
  obtain ⟨spaces, herase, ho', hbacking⟩ := hd.erase hne hrest
  obtain ⟨freed, hfreed⟩ := hd.freed
  have hbooks : Accounted (backing { s with spaces := spaces }) (m.log ++ freed.map .freed) := by
    rw [← hfreed]
    exact ho'.books
  obtain ⟨hone, hzero⟩ := ho.books.freed_once hbooks
  refine ⟨{ s with spaces := spaces }, freed, ?_, ho', hfreed, ?_, ?_⟩
  · rw [Memory.memDestroySpace, decide_eq_true hne, check_true, ok_bind, get_spec hspace,
      ok_bind, hloop, ok_bind, herase, ok_bind]
  · rintro page ⟨n, hown⟩
    have hheld := backing_eq_some.mpr hown
    refine hone page ⟨(h, n), hheld⟩ ?_
    -- who else had the frame would have had it before
    intro x hx
    rw [hbacking] at hx
    split at hx
    · cases hx
    · next hxh => exact hxh (congrArg Prod.fst (ho.books.sole x (h, n) page hx hheld))
  · intro page hnot
    refine hzero page ?_
    rintro ⟨⟨j, k⟩, hx⟩
    refine ⟨(j, k), ?_⟩
    rw [hbacking, if_neg, hx]
    rintro rfl
    exact hnot ⟨k, backing_eq_some.mp hx⟩

end Memory

/-! ## Runs -/

variable {call : MemoryCall}

variable {m : Memory}

/-- A call that meets no backed page with its temporary mappings keeps the
books in order. -/
theorem MemoryCall.orderly {m' : Memory} (ho : m.Orderly) (hmade : call.Made m)
    (hclear : call.Clear m) (hcall : call.exec m = .ok m') : m'.Orderly := by
  cases call with
  | createSpace =>
    obtain ⟨⟨h, m1⟩, hcreate, hcall⟩ := bind_ok.mp hcall
    cases hcall
    exact (ho.memCreateSpace hcreate).1
  | setCurrentSpace h =>
    cases hcall
    exact ho.memSetCurrentSpace hmade
  | mapLinear h start stop physStart flags =>
    obtain ⟨⟨i, m1⟩, hmap, hcall⟩ := bind_ok.mp hcall
    cases hcall
    obtain ⟨k, _, hadds, hentry, _⟩ := Memory.memMapLinear_records ho.shaped hmap
    exact ho.addArea hadds hmade fun j n => .inl (by rw [hentry])
  | mapLinearEager h start stop physStart flags =>
    obtain ⟨⟨i, m1⟩, hmap, hcall⟩ := bind_ok.mp hcall
    cases hcall
    obtain ⟨k, _, hadds, hentry⟩ := Memory.memMapLinearEager_ok ho.shaped hmade hmap
    exact ho.addArea hadds hmade fun j n =>
      (hentry j n).imp_right fun hin => ⟨hin.1, ⟨hin.2.1, hin.2.2⟩, rfl⟩
  | mapAlloc h start stop flags =>
    obtain ⟨⟨i, m1⟩, hmap, hcall⟩ := bind_ok.mp hcall
    cases hcall
    obtain ⟨hadds, hentry, _⟩ := Memory.memMapAlloc_records ho.shaped hmap
    exact ho.addArea hadds hmade fun j n => .inl (by rw [hentry])
  | mapFd h start stop fd offset fileSize flags =>
    obtain ⟨⟨i, m1⟩, hmap, hcall⟩ := bind_ok.mp hcall
    cases hcall
    obtain ⟨k, _, hadds, hentry, _⟩ := Memory.memMapFd_records ho.shaped hmap
    exact ho.addArea hadds hmade fun j n => .inl (by rw [hentry])
  | pageFault address => exact ho.intPageFault hmade hcall
  | writePage h virtAddr data size => exact ho.memWritePage hclear.1 hclear.2 hcall
  | forkSpace h =>
    obtain ⟨⟨new, m1⟩, hfork, hcall⟩ := bind_ok.mp hcall
    cases hcall
    exact ho.memForkSpace hclear hfork
  | unmapNotMatching h flags => exact ho.memUnmapNotMatching hcall
  | destroySpace h =>
    have hcall' := hcall
    obtain ⟨_, hne, hcall'⟩ := bind_ok.mp hcall'
    obtain ⟨space, hget, _⟩ := bind_ok.mp hcall'
    rw [check_ok, decide_eq_true_eq] at hne
    obtain ⟨m1, _, hdestroy, ho', _⟩ := ho.memDestroySpace
      (by rw [Memory.layout_of_lookup (get_ok hget)]; rfl) hne
    rw [MemoryCall.exec, hdestroy] at hcall
    cases hcall
    exact ho'
  | outside ram files =>
    cases hcall
    exact ho.outside ram files

/-- The allocator was set up on a region of memory; there are no spaces. -/
def Memory.Boots (m : Memory) : Prop :=
  ∃ start stop allocator ram files, PageAllocator.create start stop = .ok allocator
    ∧ m = Memory.boot allocator ram files

theorem Memory.Boots.orderly (hboots : m.Boots) : m.Orderly := by
  obtain ⟨start, stop, allocator, ram, files, hcreate, rfl⟩ := hboots
  have hnone : (Memory.boot allocator ram files).backing = fun _ => none := by
    funext x
    apply Memory.backing_of_not
    rintro ⟨i, area, harea, _⟩
    cases harea
  refine ⟨Memory.shaped_boot, ?_, ?_, ?_, .inr (show 128 ≤ 0xFFFF by decide), ?_, ?_⟩
  · intro h i area harea
    cases harea
  · intro h i j area area' a harea
    cases harea
  · intro h n pte hpte
    cases hpte
  · have hempty : {page | ∃ x, (Memory.boot allocator ram files).backing x = some page}
        = (∅ : Set Nat) := by
      rw [hnone]
      simp
    rw [hempty]
    exact PageAllocator.tracks_create hcreate
  · rw [hnone]
    exact accounted_nil

/-- A call of the kernel that meets no backed page with its temporary
mappings. -/
def Memory.Step (m m' : Memory) : Prop :=
  ∃ call : MemoryCall, call.Made m ∧ call.Clear m ∧ call.exec m = .ok m'

theorem Memory.orderly_of_reach (hreach : Reach Memory.Boots Memory.Step m) : m.Orderly := by
  refine @Reach.invariant _ _ _ (fun s => s.Orderly) ?_ ?_ m hreach
  · intro s hboots
    exact hboots.orderly
  · rintro s s' _ ho ⟨call, hmade, hclear, hcall⟩
    exact call.orderly ho hmade hclear hcall

/-- Frames are owned once. What was taken and not given back backs one present page of one
space, in an area of zeros or of a file; and a space that is not the current one can be
destroyed, which gives back each of its frames once. -/
structure Memory.OwnedOnce (m : Memory) : Prop where
  out : ∀ h n page, m.Owns h n page → balance m.log page = 1
  back : ∀ page, (∀ h n, ¬ m.Owns h n page) → balance m.log page = 0
  sole : ∀ h n h' n' page, m.Owns h n page → m.Owns h' n' page → h = h' ∧ n = n'
  destroys : ∀ h, (m.layout h).isSome → h ≠ m.currentSpace →
    ∃ (m' : Memory) (freed : List Nat), m.memDestroySpace h = .ok m'
      ∧ m'.log = m.log ++ freed.map .freed
      ∧ (∀ page, (∃ n, m.Owns h n page) → freed.count page = 1)
      ∧ ∀ page, (¬ ∃ n, m.Owns h n page) → freed.count page = 0

theorem Memory.Orderly.ownedOnce (ho : m.Orderly) : m.OwnedOnce := by
  refine ⟨?_, ?_, ?_, ?_⟩
  · intro h n page hown
    exact ho.books.out (h, n) page (Memory.backing_eq_some.mpr hown)
  · intro page hnot
    refine ho.books.back page ?_
    rintro ⟨h, n⟩ hx
    exact hnot h n (Memory.backing_eq_some.mp hx)
  · intro h n h' n' page hown hown'
    have hpair := ho.books.sole (h, n) (h', n') page (Memory.backing_eq_some.mpr hown)
      (Memory.backing_eq_some.mpr hown')
    exact ⟨congrArg Prod.fst hpair, congrArg Prod.snd hpair⟩
  · intro h hlive hne
    obtain ⟨m', freed, hcall, _, hlog, hone, hzero⟩ := ho.memDestroySpace hlive hne
    exact ⟨m', freed, hcall, hlog, hone, hzero⟩

/-- **In every run whose temporary mappings meet no backed page, frames are
owned once.** -/
theorem frames_owned {m : Memory} (hreach : Reach Memory.Boots Memory.Step m) :
    m.OwnedOnce := by
  exact (Memory.orderly_of_reach hreach).ownedOnce

def MemoryCall.made (m : Memory) : MemoryCall → Bool
  | .setCurrentSpace h => (m.layout h).isSome
  | .mapLinear _ start stop _ _ => start.toNat % 0x1000 == 0 && stop.toNat % 0x1000 == 0
  | .mapLinearEager _ start stop _ _ => start.toNat % 0x1000 == 0 && stop.toNat % 0x1000 == 0
  | .mapAlloc _ start stop _ => start.toNat % 0x1000 == 0 && stop.toNat % 0x1000 == 0
  | .mapFd _ start stop _ _ _ _ => start.toNat % 0x1000 == 0 && stop.toNat % 0x1000 == 0
  | .pageFault address => (m.entry m.currentSpace (address.toNat / 0x1000)).isNone
  | _ => true

theorem MemoryCall.made_iff : call.made m = true ↔ call.Made m := by
  have haligned : ∀ start stop : UInt32,
      (start.toNat % 0x1000 == 0 && stop.toNat % 0x1000 == 0) = true
        ↔ AddressSpace.PageAligned start stop := by
    intro start stop
    rw [Bool.and_eq_true, beq_iff_eq, beq_iff_eq]
    exact ⟨fun h => ⟨h.1, h.2⟩, fun h => ⟨h.1, h.2⟩⟩
  cases call with
  | setCurrentSpace h => exact Iff.rfl
  | mapLinear h start stop _ _ => exact haligned start stop
  | mapLinearEager h start stop _ _ => exact haligned start stop
  | mapAlloc h start stop _ => exact haligned start stop
  | mapFd h start stop _ _ _ _ => exact haligned start stop
  | pageFault address => exact isNone_iff_eq_none
  | _ => exact ⟨fun _ => trivial, fun _ => rfl⟩

/-- The temporary mappings of the call hit absent pages. -/
def MemoryCall.absent (m : Memory) : MemoryCall → Bool
  | .writePage h virtAddr _ _ =>
    (m.entry m.currentSpace (Memory.kernelScratchBase / 0x1000)).isNone
      && !(h == m.currentSpace && virtAddr.toNat == Memory.kernelScratchBase)
  | .forkSpace _ => (m.entry m.currentSpace (Memory.sourceVirt / 0x1000)).isNone
      && (m.entry m.currentSpace (Memory.destVirt / 0x1000)).isNone
  | _ => true

theorem MemoryCall.clear_of_absent (habsent : call.absent m = true) : call.Clear m := by
  have hnone : ∀ {k page}, m.entry m.currentSpace k = none → ¬ m.Owns m.currentSpace k page := by
    rintro k page hk ⟨_, pte, hpte, _⟩
    rw [hk] at hpte
    cases hpte
  cases call with
  | writePage h virtAddr _ _ =>
    rw [MemoryCall.absent, Bool.and_eq_true, isNone_iff_eq_none] at habsent
    refine ⟨?_, ?_⟩
    · intro k hk page
      rw [mem_singleton.mp hk]
      exact hnone habsent.1
    · rintro ⟨rfl, hbase⟩
      rw [hbase] at habsent
      simp at habsent
  | forkSpace h =>
    rw [MemoryCall.absent, Bool.and_eq_true, isNone_iff_eq_none, isNone_iff_eq_none] at habsent
    intro k hk page
    rcases mem_cons.mp hk with rfl | hk
    · exact hnone habsent.1
    · rw [mem_singleton.mp hk]
      exact hnone habsent.2
  | _ => trivial

/-- A machine with 2 MB of memory, and a file open as descriptor 3. -/
def smallMachine : Memory :=
  Memory.boot ⟨0x200000, 0x101000, 0x101000, [], 0x400⟩ (fun _ _ => 0)
    (fun fd => if fd = 3 then some ⟨fun _ => 7, 0x2000, 0⟩ else none)

theorem smallMachine_boots : smallMachine.Boots :=
  ⟨0x100000, 0x200000, _, _, _, rfl, rfl⟩

theorem reach_of_run {calls : List MemoryCall}
    (hrun : runGuarded (fun m call => call.made m = true ∧ call.absent m = true)
      (fun m call => call.exec m) calls smallMachine = .ok m) :
    Reach Memory.Boots Memory.Step m := by
  refine Reach.runGuarded ?_ (.init smallMachine_boots) hrun
  intro s call s' _ hguard hcall
  exact ⟨call, MemoryCall.made_iff.mp hguard.1, MemoryCall.clear_of_absent hguard.2, hcall⟩

/-- A program with a stack and a file runs, another one is written to, the
first one forks and then executes another program. -/
def sampleCalls : List MemoryCall :=
  [.createSpace, .createSpace, .setCurrentSpace 0, .mapAlloc 0 0x1000 0x3000 0x5,
    .pageFault 0x1800, .mapFd 0 0x8000 0x9000 3 0 0x1000 0x5, .pageFault 0x8123,
    .mapAlloc 1 0x1000 0x2000 0x5, .writePage 1 0x1000 (fun _ => 1) 16, .forkSpace 0,
    .unmapNotMatching 0 memAreaRetainExec]

/-- The books after the calls: of four frames two are still out. -/
theorem frames_owned_sample :
    ∃ m, runGuarded (fun m call => call.made m = true ∧ call.absent m = true)
        (fun m call => call.exec m) sampleCalls smallMachine = .ok m
      ∧ m.log = [.taken 0x101000, .taken 0x102000, .taken 0x103000, .taken 0x104000,
          .freed 0x101000, .freed 0x102000]
      ∧ m.OwnedOnce := by
  have hrun : (runGuarded (fun m call => call.made m = true ∧ call.absent m = true)
      (fun m (call : MemoryCall) => call.exec m) sampleCalls smallMachine).map (fun m => m.log)
      = .ok [.taken 0x101000, .taken 0x102000, .taken 0x103000, .taken 0x104000,
          .freed 0x101000, .freed 0x102000] := by decide +kernel
  obtain ⟨m, hm, hlog⟩ := map_ok.mp hrun
  exact ⟨m, hm, hlog, frames_owned (reach_of_run hm)⟩

/-- A program maps a file at the address through which frames are copied,
touches it and its stack, and forks. Then both processes end. -/
def losingCalls : List MemoryCall :=
  [.createSpace, .setCurrentSpace 0, .mapAlloc 0 0x1000 0x2000 0x5,
    .mapFd 0 0xFFFE0000 0xFFFE1000 3 0 0x1000 0x5, .pageFault 0x1000, .pageFault 0xFFFE0000,
    .forkSpace 0, .createSpace, .setCurrentSpace 2, .destroySpace 0, .destroySpace 1]

/-- **A frame is lost.**  When both processes are gone and the only space left
has no areas, the frame of the file page is still out. -/
theorem frame_lost :
    ∃ m, runGuarded (fun m call => call.made m = true) (fun m call => call.exec m) losingCalls
        smallMachine = .ok m
      ∧ m.log = [.taken 0x101000, .taken 0x102000, .taken 0x103000, .freed 0x101000,
          .freed 0x103000]
      ∧ balance m.log 0x102000 = 1 ∧ (∀ h n page, ¬ m.Owns h n page) ∧ ¬ m.OwnedOnce := by
  have hrun : (runGuarded (fun m call => call.made m = true)
      (fun m (call : MemoryCall) => call.exec m) losingCalls smallMachine).map
      (fun m => (m.log, m.spaces.watermark, (m.layout 0).isSome, (m.layout 1).isSome,
        (m.layout 2).map fun maps => maps.areas.watermark))
      = .ok ([.taken 0x101000, .taken 0x102000, .taken 0x103000, .freed 0x101000,
          .freed 0x103000], 3, false, false, some 0) := by decide +kernel
  obtain ⟨m, hm, hfacts⟩ := map_ok.mp hrun
  have hlog : m.log = [.taken 0x101000, .taken 0x102000, .taken 0x103000, .freed 0x101000,
      .freed 0x103000] := congrArg (fun r => r.1) hfacts
  have hwater : m.spaces.watermark = 3 := congrArg (fun r => r.2.1) hfacts
  have hzero : (m.layout 0).isSome = false := congrArg (fun r => r.2.2.1) hfacts
  have hone : (m.layout 1).isSome = false := congrArg (fun r => r.2.2.2.1) hfacts
  have htwo : (m.layout 2).map (fun maps => maps.areas.watermark) = some 0 :=
    congrArg (fun r => r.2.2.2.2) hfacts
  have hbalance : balance m.log 0x102000 = 1 := by
    rw [hlog]
    decide
  -- the only space left has no areas
  have hnone : ∀ h n page, ¬ m.Owns h n page := by
    rintro h n page ⟨⟨i, area, harea, _⟩, _⟩
    obtain ⟨maps, hlay, hlook⟩ := Memory.area_some harea
    obtain ⟨space, hspace, _⟩ := Memory.lookup_of_layout hlay
    have hlt := lookup_lt_watermark hspace
    have hcases : h = 0 ∨ h = 1 ∨ h = 2 := by omega
    rcases hcases with rfl | rfl | rfl
    · rw [hlay] at hzero
      cases hzero
    · rw [hlay] at hone
      cases hone
    · rw [hlay] at htwo
      have hempty : maps.areas.watermark = 0 := some.inj htwo
      have := lookup_lt_watermark hlook
      omega
  refine ⟨m, hm, hlog, hbalance, hnone, ?_⟩
  intro hown
  have hback := hown.back 0x102000 fun h n => hnone h n 0x102000
  rw [hbalance] at hback
  cases hback

end Peos2.Kernel
