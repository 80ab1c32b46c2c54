/-
  Kernel.PageTables — page tables as functions from pages to entries.

  `page n` is the entry of the page at `n * 0x1000`, if it is present. All of memory
  is then a layout (the areas and map entries of every space) and an entry for every
  page of every space, and `map_page` changes one entry.

  Main result: `mapPage_spec`.
-/
import Peos2.Kernel.Paging

namespace Peos2.Kernel

open Peos2.Lib Peos2.Support Pool

/-! ## Addresses and flags -/

theorem toNat_and_not_0xFFF (v : UInt32) : (v &&& ~~~0xFFF).toNat = v.toNat / 0x1000 * 0x1000 := by
  have hmask : (~~~(0xFFF : UInt32)).toNat = (2 ^ 20 - 1) <<< 12 := by decide
  have hshift : v.toNat / 0x1000 * 0x1000 = (v.toNat >>> 12) <<< 12 := by
    rw [Nat.shiftLeft_eq, Nat.shiftRight_eq_div_pow]
  rw [UInt32.toNat_and, hmask, hshift]
  apply Nat.eq_of_testBit_eq
  intro i
  rw [Nat.testBit_and, Nat.testBit_shiftLeft, Nat.testBit_shiftLeft, Nat.testBit_shiftRight,
    Nat.testBit_two_pow_sub_one]
  by_cases hi : i ≥ 12
  · rw [show 12 + (i - 12) = i by omega]
    by_cases hhigh : i < 32
    · simp [hi, show i - 12 < 20 by omega]
    · -- a word has no bits from 32 on
      have hzero : v.toNat.testBit i = false := Nat.testBit_lt_two_pow
        (Nat.lt_of_lt_of_le v.toNat_lt (Nat.pow_le_pow_right (by decide) (by omega)))
      simp [hzero]
  · simp [hi]

theorem toNat_alignDown (v : UInt32) : (alignDown v).toNat = v.toNat / 0x1000 * 0x1000 :=
  toNat_and_not_0xFFF v

theorem pageFlags_present (flags : UInt16) : pageFlags flags &&& memPeP ≠ 0 := by
  unfold pageFlags
  split <;> split <;> split <;> split <;> decide

/-! ## The tables of a space -/

/-- The entry that `map_page` writes, if it is present. -/
def presentEntry (flags : UInt16) (phys : Nat) : Option PageTableEntry :=
  if flags &&& memPeP = 0 then none else some ⟨flags, phys / 0x1000⟩

theorem presentEntry_some {flags : UInt16} (h : flags &&& memPeP ≠ 0) (phys : Nat) :
    presentEntry flags phys = some ⟨flags, phys / 0x1000⟩ := if_neg h

@[simp] theorem presentEntry_zero (phys : Nat) : presentEntry 0 phys = none := rfl

@[simp] theorem presentEntry_pageFlags (flags : UInt16) (phys : Nat) :
    presentEntry (pageFlags flags) phys = some ⟨pageFlags flags, phys / 0x1000⟩ :=
  presentEntry_some (pageFlags_present flags) phys

theorem pteFrame_mk {flags : UInt16} {phys : Nat} (h : phys % 0x1000 = 0) :
    pteFrame ⟨flags, phys / 0x1000⟩ = phys := by
  show phys / 0x1000 * 0x1000 = phys
  omega

/-- An entry of a page table, if table and entry are present. -/
def PageDirEntry.entry (pde : PageDirEntry) (i : Nat) : Option PageTableEntry :=
  if pde.flags &&& memPeP = 0 then none
  else if (pde.table i).flags &&& memPeP = 0 then none
  else some (pde.table i)

def SpaceInfo.ClearOf (space : SpaceInfo) (start stop : UInt32) : Prop :=
  ∀ i area, space.Has i area → ¬ (start.toNat < area.stop.toNat ∧ area.start.toNat < stop.toNat)

structure SpaceMaps.PoolsWF (space : SpaceMaps) : Prop where
  areas : space.areas.WF
  linearMaps : space.linearMaps.WF
  fileMaps : space.fileMaps.WF

namespace AddressSpace

variable {space space' : AddressSpace} {virt phys : Nat} {flags : UInt16}

/-- The entry of page `n`, if the page is present. -/
def page (space : AddressSpace) (n : Nat) : Option PageTableEntry := space.findPte (n * 0x1000)

theorem findPte_eq (space : AddressSpace) (a : Nat) : space.findPte a = space.page (a / 0x1000) := by
  have h1 : a / 0x1000 * 0x1000 / 0x400000 = a / 0x400000 := by omega
  have h2 : a / 0x1000 * 0x1000 / 0x1000 = a / 0x1000 := by omega
  unfold page findPte
  rw [h1, h2]

theorem page_eq (space : AddressSpace) (n : Nat) :
    space.page n = (space.pageDir (n / 0x400)).entry (n % 0x400) := by
  have h1 : n * 0x1000 / 0x400000 = n / 0x400 := by omega
  have h2 : n * 0x1000 / 0x1000 % 0x400 = n % 0x400 := by omega
  unfold page findPte
  rw [h1, h2]
  rfl

variable {n : Nat}

@[simp] theorem page_fresh (n : Nat) : fresh.page n = none := by
  exact if_pos (show (0 : UInt16) &&& memPeP = 0 by decide)

/-- The tables after the entry of one page was written. -/
structure Remapped (space space' : AddressSpace) (n : Nat) (e : Option PageTableEntry) :
    Prop where
  maps : space'.toSpaceMaps = space.toSpaceMaps
  page : ∀ k, space'.page k = if k = n then e else space.page k

theorem or_present {a b : UInt16} (h : a &&& memPeP ≠ 0) : (a ||| b) &&& memPeP ≠ 0 := by
  intro hzero
  apply h
  have hdistr : (a ||| b) &&& memPeP = (a &&& memPeP) ||| (b &&& memPeP) := by
    apply UInt16.eq_of_toBitVec_eq
    simp only [UInt16.toBitVec_and, UInt16.toBitVec_or]
    ext i hi
    simp only [BitVec.getElem_and, BitVec.getElem_or]
    cases a.toBitVec[i] <;> simp
  rw [hdistr] at hzero
  exact (UInt16.or_eq_zero_iff.mp hzero).1

theorem masked_present (flags : UInt16) :
    (flags &&& ~~~(memPdeS ||| memPteD)) &&& memPeP = flags &&& memPeP := by
  rw [UInt16.and_assoc]
  rfl

theorem remapped_of_table {pde : PageDirEntry} {e : Option PageTableEntry}
    (h : ∀ i, pde.entry i = if i = n % 0x400 then e else (space.pageDir (n / 0x400)).entry i) :
    space.Remapped { space with pageDir := storeAt space.pageDir (n / 0x400) pde } n e := by
  refine ⟨rfl, ?_⟩
  intro k
  rw [page_eq]
  show (storeAt space.pageDir (n / 0x400) pde (k / 0x400)).entry (k % 0x400) = _
  by_cases hdir : k / 0x400 = n / 0x400
  · rw [hdir, storeAt_self, h]
    by_cases hk : k = n
    · rw [if_pos hk, if_pos (by rw [hk])]
    · rw [if_neg hk, if_neg (by omega), page_eq, hdir]
  · rw [storeAt_ne _ _ hdir, if_neg (by rintro rfl; exact hdir rfl), page_eq]

theorem mapPage_eq (space : AddressSpace) {room : Nat} (flags : UInt16)
    (hvirt : virt % 0x1000 = 0) (hphys : phys % 0x1000 = 0)
    (hroom : flags &&& memPeP = 0 ∨ (space.pageDir (virt / 0x400000)).flags &&& memPeP ≠ 0
      ∨ space.tables < room) :
    ∃ space', space.mapPage room virt phys flags = .ok space'
      ∧ space.Remapped space' (virt / 0x1000) (presentEntry flags phys) := by
  have hdir : virt / 0x400000 = virt / 0x1000 / 0x400 := by omega
  unfold mapPage
  rw [decide_eq_true hvirt, check_true, ok_bind, decide_eq_true hphys, check_true, ok_bind, hdir]
  rw [hdir] at hroom
  generalize virt / 0x1000 = n at hroom
  by_cases hpde : (space.pageDir (n / 0x400)).flags &&& memPeP = 0
  · rw [if_pos hpde]
    have habsent : ∀ i, (space.pageDir (n / 0x400)).entry i = none := fun i => if_pos hpde
    by_cases hflags : flags &&& memPeP = 0
    · rw [if_pos hflags]
      refine ⟨space, rfl, rfl, ?_⟩
      intro k
      by_cases hk : k = n
      · rw [if_pos hk, presentEntry, if_pos hflags, page_eq, hk, habsent]
      · rw [if_neg hk]
    have hleft := (hroom.resolve_left hflags).resolve_left (not_not_intro hpde)
    rw [if_neg hflags, decide_eq_true hleft, check_true, ok_bind]
    refine ⟨_, rfl, remapped_of_table ?_⟩
    intro i
    rw [habsent, PageDirEntry.entry, if_neg (by rw [masked_present]; exact hflags)]
    by_cases hi : i = n % 0x400
    · rw [if_pos hi, hi]
      simp only [storeAt_self, if_neg hflags, presentEntry_some hflags]
    · rw [if_neg hi]
      simp only [storeAt_ne _ _ hi]
      exact if_pos (show (0 : UInt16) &&& memPeP = 0 by decide)
  · rw [if_neg hpde]
    refine ⟨_, rfl, remapped_of_table ?_⟩
    intro i
    rw [PageDirEntry.entry, if_neg (or_present hpde)]
    by_cases hi : i = n % 0x400
    · rw [hi]
      simp only [storeAt_self]
      rfl
    · rw [if_neg hi, PageDirEntry.entry, if_neg hpde]
      simp only [storeAt_ne _ _ hi]

theorem mapPage_ok {room : Nat} (h : space.mapPage room virt phys flags = .ok space') :
    virt % 0x1000 = 0 ∧ phys % 0x1000 = 0
      ∧ space.Remapped space' (virt / 0x1000) (presentEntry flags phys) := by
  have hchecks : virt % 0x1000 = 0 ∧ phys % 0x1000 = 0 ∧ (flags &&& memPeP = 0
      ∨ (space.pageDir (virt / 0x400000)).flags &&& memPeP ≠ 0 ∨ space.tables < room) := by
    obtain ⟨_, hvirt, h⟩ := bind_ok.mp h
    obtain ⟨_, hphys, h⟩ := bind_ok.mp h
    rw [check_ok, decide_eq_true_eq] at hvirt hphys
    refine ⟨hvirt, hphys, ?_⟩
    by_cases hflags : flags &&& memPeP = 0
    · exact .inl hflags
    by_cases hpde : (space.pageDir (virt / 0x400000)).flags &&& memPeP = 0
    · simp only [if_pos hpde, if_neg hflags] at h
      obtain ⟨_, hleft, _⟩ := bind_ok.mp h
      exact .inr (.inr (of_decide_eq_true (check_ok.mp hleft)))
    · exact .inr (.inl hpde)
  obtain ⟨hvirt, hphys, hroom⟩ := hchecks
  obtain ⟨space1, hcall, hremap⟩ := mapPage_eq space flags hvirt hphys hroom
  rw [hcall] at h
  cases h
  exact ⟨hvirt, hphys, hremap⟩

/-! ## Loops over pages -/

def pageCount (start stop : UInt32) : Nat := (stop.toNat - start.toNat) / 0x1000

section
variable {σ : Type} {start stop : UInt32} {body : Nat → σ → Checked σ}

structure PageAligned (start stop : UInt32) : Prop where
  start : start.toNat % 0x1000 = 0
  stop : stop.toNat % 0x1000 = 0

theorem pageCount_stop (halign : PageAligned start stop) (hle : start.toNat ≤ stop.toNat) :
    start.toNat + 0x1000 * pageCount start stop = stop.toNat := by
  have h1 := halign.start
  have h2 := halign.stop
  unfold pageCount
  omega

/-- A loop over the pages of an aligned range that returned has kept an
invariant indexed by its rounds. -/
theorem forPages_ok (P : Nat → σ → Prop) (halign : PageAligned start stop)
    (hbody : ∀ i s s', i < pageCount start stop → P i s →
      body (start.toNat + 0x1000 * i) s = .ok s' → P (i + 1) s') {s s' : σ} (h0 : P 0 s)
    (hloop : forPages start stop body s = .ok s') : P (pageCount start stop) s' := by
  by_cases hle : start.toNat ≤ stop.toNat
  · exact strideFrom_ok P (by decide) (pageCount_stop halign hle) (toNat_lt_border stop) hbody
      (Nat.zero_le _) h0 hloop
  -- the range is empty
  have hzero : pageCount start stop = 0 := by
    unfold pageCount
    omega
  unfold forPages strideFrom at hloop
  rw [if_neg (by omega)] at hloop
  cases hloop
  exact hzero ▸ h0

/-- A loop over the pages of an aligned range whose rounds return
returns. -/
theorem forPages_spec (P : Nat → σ → Prop) (halign : PageAligned start stop)
    (hbody : ∀ i s, i < pageCount start stop → P i s →
      ∃ s', body (start.toNat + 0x1000 * i) s = .ok s' ∧ P (i + 1) s') {s : σ} (h0 : P 0 s) :
    ∃ s', forPages start stop body s = .ok s' ∧ P (pageCount start stop) s' := by
  by_cases hle : start.toNat ≤ stop.toNat
  · have hcount : pageCount start stop < 0x100001 := by
      have := toNat_lt_border stop
      unfold pageCount
      omega
    exact strideFrom_spec P (by decide) (pageCount_stop halign hle) (toNat_lt_border stop) hbody
      (Nat.zero_le _) hcount h0
  · have hzero : pageCount start stop = 0 := by
      unfold pageCount
      omega
    refine ⟨s, ?_, hzero ▸ h0⟩
    exact if_neg (by omega)

theorem forPages_keeps {P : σ → Prop} (hbody : ∀ a s s', P s → body a s = .ok s' → P s')
    {s s' : σ} (h0 : P s) (hloop : forPages start stop body s = .ok s') : P s' :=
  strideFrom_keeps hbody h0 hloop

end

/-! ## New areas -/

theorem overlapsExistingArea_eq (hwf : space.areas.WF) (start stop : UInt32) :
    ∃ b, space.overlapsExistingArea start stop = .ok b
      ∧ (b = false ↔ space.ClearOf start stop) := by
  obtain ⟨r, hr, hfound⟩ := scan_spec hwf fun area => start < area.stop && stop > area.start
  have htest : ∀ area : AreaInfo, (decide (start < area.stop) && decide (stop > area.start)) = true
      ↔ start.toNat < area.stop.toNat ∧ area.start.toNat < stop.toNat := by
    intro area
    rw [Bool.and_eq_true, decide_eq_true_eq, decide_eq_true_eq, gt_iff_lt, lt_iff_toNat,
      lt_iff_toNat]
  refine ⟨r.isSome, by rw [overlapsExistingArea, hr, ok_bind], ?_⟩
  cases r with
  | none =>
    refine ⟨fun _ => ?_, fun _ => rfl⟩
    intro i area hhas hover
    have hno : (decide (start < area.stop) && decide (stop > area.start)) = false :=
      hfound i area (Nat.zero_le i) hhas
    rw [(htest area).mpr hover] at hno
    cases hno
  | some i =>
    obtain ⟨area, hhas, htrue⟩ := hfound
    refine ⟨fun h => (Bool.noConfusion h), fun hclear => ?_⟩
    exact absurd ((htest area).mp htrue) (hclear i area hhas)

theorem poolsWF_fresh : fresh.PoolsWF :=
  ⟨blank_wf (by decide), blank_wf (by decide), blank_wf (by decide)⟩

/-- The space got one more area, in a range no other area reached into. -/
structure Added (space space' : AddressSpace) (i : Nat) (area : AreaInfo) : Prop where
  clear : space.ClearOf area.start area.stop
  pageDir : space'.pageDir = space.pageDir
  wf : space'.PoolsWF
  free : space.areas.lookup i = none
  areas : ∀ j, space'.areas.lookup j = if j = i then some area else space.areas.lookup j
  values : space'.areas.values.Perm (area :: space.areas.values)

variable {start stop : UInt32} {i : Nat}

theorem check_clear (hwf : space.areas.WF) {b : Bool}
    (hover : space.overlapsExistingArea start stop = .ok b) {u : Unit} {what : String}
    (hcheck : check (!b) what = .ok u) : space.ClearOf start stop := by
  obtain ⟨b', hb', hclear⟩ := overlapsExistingArea_eq hwf start stop
  rw [hb'] at hover
  cases hover
  rw [check_ok, Bool.not_eq_true'] at hcheck
  exact hclear.mp hcheck

theorem toNat_ofNat_handle (h : n < 16) : (UInt16.ofNat n).toNat = n := by
  rw [UInt16.toNat_ofNat']
  omega

theorem page_of_pageDir (h : space'.pageDir = space.pageDir) (n : Nat) :
    space'.page n = space.page n := by
  rw [page_eq, page_eq, h]

theorem mapAlloc_ok (hwf : space.PoolsWF) (h : space.mapAlloc start stop flags = .ok (i, space')) :
    space.Added space' i ⟨start, stop, areaAlloc, flags, 0⟩
      ∧ space'.linearMaps = space.linearMaps ∧ space'.fileMaps = space.fileMaps := by
  obtain ⟨b, hover, h⟩ := bind_ok.mp h
  obtain ⟨_, hcheck, h⟩ := bind_ok.mp h
  obtain ⟨⟨i', areas⟩, hareas, h⟩ := bind_ok.mp h
  cases h
  obtain ⟨_, hareaswf, hfree, hlook⟩ := emplaceAnywhere_ok hwf.areas hareas
  exact ⟨⟨check_clear hwf.areas hover hcheck, rfl, ⟨hareaswf, hwf.linearMaps, hwf.fileMaps⟩,
    hfree, hlook, values_emplaceAnywhere hwf.areas hareas⟩, rfl, rfl⟩

theorem mapFd_ok (hwf : space.PoolsWF) {fd : Int} {offset fileSize : UInt32}
    (h : space.mapFd start stop fd offset fileSize flags = .ok (i, space')) :
    fd > 2 ∧ ∃ k < 16, space.Added space' i ⟨start, stop, areaFile, flags, UInt16.ofNat k⟩
      ∧ space'.linearMaps = space.linearMaps
      ∧ space.fileMaps.emplaceAnywhere ⟨fd, offset, fileSize⟩ = .ok (k, space'.fileMaps) := by
  obtain ⟨b, hover, h⟩ := bind_ok.mp h
  obtain ⟨_, hcheck, h⟩ := bind_ok.mp h
  obtain ⟨_, hfd, h⟩ := bind_ok.mp h
  obtain ⟨⟨k, fileMaps⟩, hmaps, h⟩ := bind_ok.mp h
  obtain ⟨⟨i', areas⟩, hareas, h⟩ := bind_ok.mp h
  cases h
  rw [check_ok, decide_eq_true_eq] at hfd
  obtain ⟨_, hmapswf, _, hmapslook⟩ := emplaceAnywhere_ok hwf.fileMaps hmaps
  have hk : fileMaps.lookup k = some ⟨fd, offset, fileSize⟩ := by rw [hmapslook, if_pos rfl]
  obtain ⟨_, hareaswf, hfree, hlook⟩ := emplaceAnywhere_ok hwf.areas hareas
  exact ⟨hfd, k, Nat.lt_of_lt_of_le (lookup_lt_watermark hk) hmapswf.room,
    ⟨check_clear hwf.areas hover hcheck, rfl, ⟨hareaswf, hwf.linearMaps, hmapswf⟩,
      hfree, hlook, values_emplaceAnywhere hwf.areas hareas⟩, rfl, hmaps⟩

variable {physStart : UInt32}

theorem addLinear_ok (hwf : space.PoolsWF) (hclear : space.ClearOf start stop)
    (h : space.addLinear start stop physStart flags = .ok (i, space')) :
    ∃ k < 16, space.Added space' i ⟨start, stop, areaLinearMap, flags, UInt16.ofNat k⟩
      ∧ space'.fileMaps = space.fileMaps
      ∧ space.linearMaps.emplaceAnywhere ⟨physStart⟩ = .ok (k, space'.linearMaps) := by
  obtain ⟨⟨k, linearMaps⟩, hmaps, h⟩ := bind_ok.mp h
  obtain ⟨⟨i', areas⟩, hareas, h⟩ := bind_ok.mp h
  cases h
  obtain ⟨_, hmapswf, _, hmapslook⟩ := emplaceAnywhere_ok hwf.linearMaps hmaps
  have hk : linearMaps.lookup k = some ⟨physStart⟩ := by rw [hmapslook, if_pos rfl]
  obtain ⟨_, hareaswf, hfree, hlook⟩ := emplaceAnywhere_ok hwf.areas hareas
  exact ⟨k, Nat.lt_of_lt_of_le (lookup_lt_watermark hk) hmapswf.room,
    ⟨hclear, rfl, ⟨hareaswf, hmapswf, hwf.fileMaps⟩, hfree, hlook,
      values_emplaceAnywhere hwf.areas hareas⟩, rfl, hmaps⟩

theorem mapLinear_ok (hwf : space.PoolsWF)
    (h : space.mapLinear start stop physStart flags = .ok (i, space')) :
    ∃ k < 16, space.Added space' i ⟨start, stop, areaLinearMap, flags, UInt16.ofNat k⟩
      ∧ space'.fileMaps = space.fileMaps
      ∧ space.linearMaps.emplaceAnywhere ⟨physStart⟩ = .ok (k, space'.linearMaps) := by
  obtain ⟨b, hover, h⟩ := bind_ok.mp h
  obtain ⟨_, hcheck, h⟩ := bind_ok.mp h
  exact addLinear_ok hwf (check_clear hwf.areas hover hcheck) h

theorem mapLinearEager_ok {room : Nat}
    (h : space.mapLinearEager room start stop physStart flags = .ok (i, space')) :
    ∃ phys mid, forPages start stop (mapNext room flags) (physStart, space) = .ok (phys, mid)
      ∧ mid.toSpaceMaps = space.toSpaceMaps
      ∧ mid.mapLinear start stop physStart flags = .ok (i, space') := by
  obtain ⟨b, hover, h⟩ := bind_ok.mp h
  obtain ⟨_, hcheck, h⟩ := bind_ok.mp h
  obtain ⟨⟨phys, mid⟩, hloop, h⟩ := bind_ok.mp h
  have hbody : ∀ a (s s' : UInt32 × AddressSpace), s.2.toSpaceMaps = space.toSpaceMaps →
      mapNext room flags a s = .ok s' → s'.2.toSpaceMaps = space.toSpaceMaps := by
    intro a s s' hs hround
    obtain ⟨next, hmap, hround⟩ := bind_ok.mp hround
    rw [← Except.ok.inj hround]
    obtain ⟨_, _, hremap⟩ := mapPage_ok hmap
    exact hremap.maps.trans hs
  have hsame := forPages_keeps (P := fun s => s.2.toSpaceMaps = space.toSpaceMaps) hbody rfl hloop
  have hover' : mid.overlapsExistingArea start stop = .ok b := by
    unfold overlapsExistingArea at hover ⊢
    rw [hsame]
    exact hover
  refine ⟨phys, mid, hloop, hsame, ?_⟩
  rw [mapLinear, hover', ok_bind, hcheck, ok_bind]
  exact h

end AddressSpace

/-! ## Memory as layout and entries -/

namespace Memory

variable {m m' : Memory} {h virt phys : Nat} {flags : UInt16}

def layout (m : Memory) (h : Nat) : Option SpaceMaps :=
  (m.spaces.lookup h).map AddressSpace.toSpaceMaps

/-- The entry of page `n` of a space, if the page is present. -/
def entry (m : Memory) (h n : Nat) : Option PageTableEntry :=
  (m.spaces.lookup h).bind fun space => space.page n

variable {space space' : AddressSpace}

theorem layout_of_lookup (hlook : m.spaces.lookup h = some space) :
    m.layout h = some space.toSpaceMaps := by
  rw [layout, hlook]
  rfl

theorem lookup_of_layout {maps : SpaceMaps} (hlay : m.layout h = some maps) :
    ∃ space, m.spaces.lookup h = some space ∧ space.toSpaceMaps = maps :=
  Option.map_eq_some_iff.mp hlay

theorem entry_of_lookup (hlook : m.spaces.lookup h = some space) (n : Nat) :
    m.entry h n = space.page n := by
  rw [entry, hlook]
  rfl

theorem entry_of_dead (hdead : m.layout h = none) (n : Nat) : m.entry h n = none := by
  rw [entry, Option.map_eq_none_iff.mp hdead]
  rfl

structure Edits (m m' : Memory) (h : Nat) (space' : AddressSpace) : Prop where
  wf : m'.spaces.WF
  same : m' = { m with spaces := m'.spaces }
  lookup : ∀ j, m'.spaces.lookup j = if j = h then some space' else m.spaces.lookup j

theorem Edits.layout (hedit : m.Edits m' h space') (j : Nat) :
    m'.layout j = if j = h then some space'.toSpaceMaps else m.layout j := by
  unfold Memory.layout
  rw [hedit.lookup]
  split <;> rfl

theorem Edits.entry (hedit : m.Edits m' h space') (j n : Nat) :
    m'.entry j n = if j = h then space'.page n else m.entry j n := by
  unfold Memory.entry
  rw [hedit.lookup]
  split <;> rfl

theorem withSpace_ok {β : Type} {f : AddressSpace → Checked (β × AddressSpace)} {b : β}
    (hwf : m.spaces.WF) (hcall : m.withSpace h f = .ok (b, m')) :
    ∃ space space', m.spaces.lookup h = some space ∧ f space = .ok (b, space')
      ∧ m.Edits m' h space' := by
  obtain ⟨space, hget, hcall⟩ := bind_ok.mp hcall
  obtain ⟨⟨b', space'⟩, hf, hcall⟩ := bind_ok.mp hcall
  obtain ⟨spaces, hset, hcall⟩ := bind_ok.mp hcall
  cases hcall
  have hlook := get_ok hget
  obtain ⟨spaces', hset', hwf', hlook'⟩ := set_spec hwf hlook space'
  rw [hset] at hset'
  cases hset'
  exact ⟨space, space', hlook, hf, hwf', rfl, hlook'⟩

theorem withSpace_spec {β : Type} {f : AddressSpace → Checked (β × AddressSpace)} {b : β}
    (hwf : m.spaces.WF) (hlook : m.spaces.lookup h = some space) (hf : f space = .ok (b, space')) :
    ∃ m', m.withSpace h f = .ok (b, m') ∧ m.Edits m' h space' := by
  obtain ⟨spaces, hset, hwf', hlook'⟩ := set_spec hwf hlook space'
  refine ⟨{ m with spaces := spaces }, ?_, hwf', rfl, hlook'⟩
  rw [withSpace, get_spec hlook, ok_bind, hf, ok_bind]
  simp only
  rw [hset, ok_bind]

structure Maps (m m' : Memory) (h n : Nat) (e : Option PageTableEntry) : Prop where
  wf : m'.spaces.WF
  same : m' = { m with spaces := m'.spaces }
  layout : m'.layout = m.layout
  entry : ∀ j k, m'.entry j k = if j = h ∧ k = n then e else m.entry j k

theorem Edits.maps {n : Nat} {e : Option PageTableEntry} (hedit : m.Edits m' h space')
    (hlook : m.spaces.lookup h = some space) (hremap : space.Remapped space' n e) :
    m.Maps m' h n e := by
  refine ⟨hedit.wf, hedit.same, ?_, ?_⟩
  · funext j
    rw [hedit.layout]
    by_cases hj : j = h
    · rw [if_pos hj, hj, layout_of_lookup hlook, hremap.maps]
    · rw [if_neg hj]
  · intro j k
    rw [hedit.entry]
    by_cases hj : j = h
    · rw [if_pos hj, hremap.page, hj, entry_of_lookup hlook]
      by_cases hk : k = n
      · rw [if_pos hk, if_pos ⟨rfl, hk⟩]
      · rw [if_neg hk, if_neg fun hc => hk hc.2]
    · rw [if_neg hj, if_neg fun hc => hj hc.1]

theorem mapPage_ok (hwf : m.spaces.WF) (hcall : m.mapPage h virt phys flags = .ok m') :
    virt % 0x1000 = 0 ∧ phys % 0x1000 = 0 ∧ (m.layout h).isSome
      ∧ m.Maps m' h (virt / 0x1000) (presentEntry flags phys) := by
  obtain ⟨⟨_, m1⟩, hwith, hcall⟩ := bind_ok.mp hcall
  cases hcall
  obtain ⟨space, space', hlook, hf, hedit⟩ := withSpace_ok hwf hwith
  obtain ⟨space1, hmap, hf⟩ := bind_ok.mp hf
  cases hf
  obtain ⟨hvirt, hphys, hremap⟩ := AddressSpace.mapPage_ok hmap
  exact ⟨hvirt, hphys, by rw [layout_of_lookup hlook]; rfl, hedit.maps hlook hremap⟩

/-- The page table for page `n` of a space is there, or one is left. -/
def TableFor (m : Memory) (h n : Nat) : Prop :=
  ∀ space, m.spaces.lookup h = some space →
    (space.pageDir (n / 0x400)).flags &&& memPeP ≠ 0 ∨ space.tables < m.tableRoom h

theorem tableFor_of_entry {n : Nat} {pte : PageTableEntry} (hentry : m.entry h n = some pte) :
    m.TableFor h n := by
  intro space hlook
  rw [entry_of_lookup hlook, AddressSpace.page_eq] at hentry
  refine .inl fun hpde => ?_
  rw [PageDirEntry.entry, if_pos hpde] at hentry
  cases hentry

/-- The page tables that are left for a space. -/
def freeTables (m : Memory) (h : Nat) : Nat :=
  (m.spaces.lookup h).elim 0 fun space => m.tableRoom h - space.tables

theorem tableFor_of_free (hleft : 0 < m.freeTables h) (n : Nat) : m.TableFor h n := by
  intro space hlook
  rw [freeTables, hlook] at hleft
  exact .inr (Nat.lt_of_sub_pos hleft)

theorem mapPage_spec (flags : UInt16) (hwf : m.spaces.WF) (hlive : (m.layout h).isSome)
    (hvirt : virt % 0x1000 = 0) (hphys : phys % 0x1000 = 0)
    (htable : flags &&& memPeP = 0 ∨ m.TableFor h (virt / 0x1000)) :
    ∃ m', m.mapPage h virt phys flags = .ok m'
      ∧ m.Maps m' h (virt / 0x1000) (presentEntry flags phys) := by
  obtain ⟨maps, hmaps⟩ := Option.isSome_iff_exists.mp hlive
  obtain ⟨space, hlook, _⟩ := lookup_of_layout hmaps
  have hdir : virt / 0x400000 = virt / 0x1000 / 0x400 := by omega
  obtain ⟨space', hmap, hremap⟩ := AddressSpace.mapPage_eq space flags hvirt hphys
    (htable.imp_right fun hfor => hdir ▸ hfor space hlook)
  obtain ⟨m', hwith, hedit⟩ := withSpace_spec (b := ()) (f := fun space => do
    let space ← space.mapPage (m.tableRoom h) virt phys flags
    .ok ((), space)) hwf hlook (by rw [hmap, ok_bind])
  refine ⟨m', ?_, hedit.maps hlook hremap⟩
  rw [mapPage, hwith, ok_bind]

theorem loadPage_eq {a : Nat} {pte : PageTableEntry}
    (hentry : m.entry m.currentSpace (a / 0x1000) = some pte) :
    m.loadPage a = .ok (m.ram pte.frame) := by
  obtain ⟨space, hlook, hpage⟩ := Option.bind_eq_some_iff.mp hentry
  rw [loadPage, get_spec hlook, ok_bind, AddressSpace.findPte_eq, hpage]

theorem storePage_eq {a : Nat} {pte : PageTableEntry} {change : (Nat → UInt8) → Nat → UInt8}
    (hentry : m.entry m.currentSpace (a / 0x1000) = some pte) :
    m.storePage a change
      = .ok { m with ram := storeAt m.ram pte.frame (change (m.ram pte.frame)) } := by
  obtain ⟨space, hlook, hpage⟩ := Option.bind_eq_some_iff.mp hentry
  rw [storePage, get_spec hlook, ok_bind, AddressSpace.findPte_eq, hpage]

end Memory

end Peos2.Kernel
