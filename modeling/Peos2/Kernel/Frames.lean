/-
  Kernel.Frames — the books of the physical frames (`kernel/memory.cc`).

  A page of an area of zeros or of a file area is backed by a frame from the page
  allocator. `Orderly` says that the frames that are out are those that back a
  present page, each backs one, areas are aligned and apart, and every present page
  lies in an area.
-/
import Peos2.Kernel.PageFaults

namespace Peos2.Kernel

open Peos2.Lib Peos2.Support

namespace Memory

variable {m m' : Memory} {h i n page : Nat} {area : AreaInfo}

/-! ## Backed pages -/

/-- The page lies in an area whose pages come from the allocator. -/
def Backed (m : Memory) (h n : Nat) : Prop :=
  ∃ i area, m.area h i = some area ∧ area.Spans (n * 0x1000)
    ∧ (area.type = areaAlloc ∨ area.type = areaFile)

/-- The frame at `page` backs a present page of such an area. -/
def Owns (m : Memory) (h n page : Nat) : Prop :=
  m.Backed h n ∧ ∃ pte, m.entry h n = some pte ∧ pteFrame pte = page

open Classical in
/-- The frame behind a page of an area of zeros or of a file. -/
noncomputable def backing (m : Memory) (x : Nat × Nat) : Option Nat :=
  if m.Backed x.1 x.2 then (m.entry x.1 x.2).map pteFrame else none

theorem backing_eq_some : m.backing (h, n) = some page ↔ m.Owns h n page := by
  unfold backing Owns
  constructor
  · intro hsome
    split at hsome
    · next hbacked => exact ⟨hbacked, Option.map_eq_some_iff.mp hsome⟩
    · cases hsome
  · rintro ⟨hbacked, hentry⟩
    rw [if_pos hbacked]
    exact Option.map_eq_some_iff.mpr hentry

theorem backing_of_backed (hbacked : m.Backed h n) :
    m.backing (h, n) = (m.entry h n).map pteFrame := if_pos hbacked

theorem backing_of_not (hnot : ¬ m.Backed h n) : m.backing (h, n) = none := if_neg hnot

structure Orderly (m : Memory) : Prop where
  shaped : m.Shaped
  aligned : ∀ h i area, m.area h i = some area → AddressSpace.PageAligned area.start area.stop
  disjoint : ∀ h i j area area' a, m.area h i = some area → m.area h j = some area' →
    area.Spans a → area'.Spans a → i = j
  inside : ∀ h n pte, m.entry h n = some pte →
    ∃ i area, m.area h i = some area ∧ area.Spans (n * 0x1000)
  /-- There is a current space, or there has never been one. -/
  current : (m.layout m.currentSpace).isSome ∨ 128 ≤ m.currentSpace
  /-- What is out backs a page. -/
  frames : m.allocator.Tracks {page | ∃ x, m.backing x = some page}
  books : Accounted m.backing m.log

/-! ## Steps that touch no backed page -/

theorem Backed.of_area (harea : m'.area = m.area) : m'.Backed h n ↔ m.Backed h n := by
  unfold Backed
  rw [harea]

theorem backing_congr (harea : m'.area = m.area)
    (hkept : ∀ h n, m.Backed h n → (m'.entry h n).map pteFrame = (m.entry h n).map pteFrame) :
    m'.backing = m.backing := by
  funext ⟨h, n⟩
  by_cases hbacked : m.Backed h n
  · rw [backing_of_backed hbacked, backing_of_backed ((Backed.of_area harea).mpr hbacked),
      hkept h n hbacked]
  · rw [backing_of_not hbacked, backing_of_not fun hc => hbacked ((Backed.of_area harea).mp hc)]

/-- Changes that touch no backed page leave the books in order. -/
theorem Orderly.same (ho : m.Orderly) (hshape : m'.Shaped) (harea : m'.area = m.area)
    (hcurrent : (m'.layout m'.currentSpace).isSome ∨ 128 ≤ m'.currentSpace)
    (hkept : ∀ h n, m.Backed h n → (m'.entry h n).map pteFrame = (m.entry h n).map pteFrame)
    (hinside : ∀ h n pte, m'.entry h n = some pte →
      ∃ i area, m.area h i = some area ∧ area.Spans (n * 0x1000))
    (halloc : m'.allocator = m.allocator) (hlog : m'.log = m.log) : m'.Orderly := by
  have hbacking := backing_congr harea hkept
  refine ⟨hshape, ?_, ?_, ?_, hcurrent, ?_, ?_⟩
  · rw [harea]
    exact ho.aligned
  · rw [harea]
    exact ho.disjoint
  · rw [harea]
    exact hinside
  · rw [halloc, hbacking]
    exact ho.frames
  · rw [hlog, hbacking]
    exact ho.books

theorem Orderly.current_of (ho : m.Orderly) (hlayout : m'.layout = m.layout)
    (hcurrent : m'.currentSpace = m.currentSpace) :
    (m'.layout m'.currentSpace).isSome ∨ 128 ≤ m'.currentSpace := by
  rw [hlayout, hcurrent]
  exact ho.current

theorem area_of_layout_eq (hlayout : m'.layout = m.layout) : m'.area = m.area := by
  funext h i
  rw [area, area, hlayout]

theorem Orderly.backed_iff (ho : m.Orderly) (harea : m.area h i = some area)
    (hspans : area.Spans (n * 0x1000)) :
    m.Backed h n ↔ area.type = areaAlloc ∨ area.type = areaFile := by
  constructor
  · rintro ⟨j, area', harea', hspans', htype⟩
    have hij := ho.disjoint h i j area area' _ harea harea' hspans hspans'
    subst hij
    rw [harea] at harea'
    cases harea'
    exact htype
  · intro htype
    exact ⟨i, area, harea, hspans, htype⟩

theorem Orderly.not_backed (ho : m.Orderly) (harea : m.area h i = some area)
    (hspans : area.Spans (n * 0x1000)) (hlinear : area.type = areaLinearMap) : ¬ m.Backed h n := by
  rw [ho.backed_iff harea hspans, hlinear]
  decide

theorem Orderly.mapLinearPage (ho : m.Orderly) (harea : m.area h i = some area)
    (hspans : area.Spans (n * 0x1000)) (hlinear : area.type = areaLinearMap)
    {e : Option PageTableEntry} (hmaps : m.Maps m' h n e) : m'.Orderly := by
  have hsame := hmaps.same
  refine ho.same (hmaps.sameLayout.shaped ho.shaped) (area_of_layout_eq hmaps.layout)
    (ho.current_of hmaps.layout (by rw [hsame])) ?_ ?_ (by rw [hsame]) (by rw [hsame])
  · intro j k hbacked
    rw [hmaps.entry, if_neg]
    rintro ⟨rfl, rfl⟩
    exact ho.not_backed harea hspans hlinear hbacked
  · intro j k pte hentry
    rw [hmaps.entry] at hentry
    split at hentry
    next hjk =>
      obtain ⟨rfl, rfl⟩ := hjk
      exact ⟨i, area, harea, hspans⟩
    · exact ho.inside j k pte hentry

theorem Orderly.clears (ho : m.Orderly) {pages : List Nat} (hclears : m.Clears m' h pages)
    (hfree : ∀ k ∈ pages, ∀ page, ¬ m.Owns h k page) : m'.Orderly := by
  refine ho.same (hclears.layout.shaped ho.shaped) (area_of_layout_eq hclears.layout.layout)
    (ho.current_of hclears.layout.layout hclears.current) ?_ ?_ hclears.allocator hclears.log
  · intro j k hbacked
    rw [hclears.entry]
    split
    next hjk =>
      obtain ⟨rfl, hk⟩ := hjk
      cases hentry : m.entry j k with
      | none => rfl
      | some pte => exact absurd ⟨hbacked, pte, hentry, rfl⟩ (hfree k hk (pteFrame pte))
    · rfl
  · intro j k pte hentry
    rw [hclears.entry] at hentry
    split at hentry
    · cases hentry
    · exact ho.inside j k pte hentry

/-! ## Taking and giving back a frame -/

theorem backing_update (harea : m'.area = m.area) (hbacked : m.Backed h n)
    {e : Option PageTableEntry}
    (hentry : ∀ j k, m'.entry j k = if j = h ∧ k = n then e else m.entry j k) :
    m'.backing = Function.update m.backing (h, n) (e.map pteFrame) := by
  funext ⟨j, k⟩
  rw [Function.update_apply]
  by_cases hjk : j = h ∧ k = n
  · obtain ⟨rfl, rfl⟩ := hjk
    rw [if_pos rfl, backing_of_backed ((Backed.of_area harea).mpr hbacked), hentry,
      if_pos ⟨rfl, rfl⟩]
  · rw [if_neg fun heq => hjk ⟨congrArg Prod.fst heq, congrArg Prod.snd heq⟩]
    by_cases hb : m.Backed j k
    · rw [backing_of_backed hb, backing_of_backed ((Backed.of_area harea).mpr hb), hentry,
        if_neg hjk]
    · rw [backing_of_not hb, backing_of_not fun hc => hb ((Backed.of_area harea).mp hc)]

theorem Orderly.grant (ho : m.Orderly) (hgrant : m.Grants m' h n page) (hbacked : m.Backed h n)
    (habsent : m.entry h n = none) : m'.Orderly := by
  have harea := area_of_layout_eq hgrant.layout.layout
  obtain ⟨flags, hentry⟩ := hgrant.entry
  have hnone : m.backing (h, n) = none := by
    rw [backing_of_backed hbacked, habsent]
    rfl
  have hbacking : m'.backing = Function.update m.backing (h, n) (some page) := by
    rw [backing_update harea hbacked hentry, Option.map_some, pteFrame_mk hgrant.aligned]
  obtain ⟨hfresh, _, htracks⟩ := ho.frames.alloc hgrant.alloc
  refine ⟨hgrant.layout.shaped ho.shaped, ?_, ?_, ?_,
    ho.current_of hgrant.layout.layout hgrant.current, ?_, ?_⟩
  · rw [harea]
    exact ho.aligned
  · rw [harea]
    exact ho.disjoint
  · intro j k pte hpte
    rw [harea]
    rw [hentry] at hpte
    split at hpte
    next hjk =>
      obtain ⟨rfl, rfl⟩ := hjk
      obtain ⟨i, area, hi, hspans, _⟩ := hbacked
      exact ⟨i, area, hi, hspans⟩
    · exact ho.inside j k pte hpte
  · rw [hbacking, Accounted.held_take hnone]
    exact htracks
  · rw [hbacking, hgrant.log]
    exact ho.books.take hnone fun x hx => hfresh ⟨x, hx⟩

structure Sheds (m m' : Memory) (h : Nat) (gone : Nat → Prop) : Prop where
  orderly : m'.Orderly
  layout : m.SameLayout m'
  current : m'.currentSpace = m.currentSpace
  freed : ∃ freed : List Nat, m'.log = m.log ++ freed.map .freed
  kept : ∀ j k, ¬ (j = h ∧ gone k) → m'.entry j k = m.entry j k
  absent : ∀ k, gone k → m'.entry h k = none

theorem Orderly.release (ho : m.Orderly) (hbacked : m.Backed h n) {pte : PageTableEntry}
    (hpte : m.entry h n = some pte) {allocator : PageAllocator}
    (hfree : m.allocator.freePage (pteFrame pte) = .ok allocator)
    (hmaps : Maps { m with allocator := allocator, log := m.log ++ [.freed (pteFrame pte)] }
      m' h n none) : m.Sheds m' h (· = n) := by
  have hlayout : m'.layout = m.layout := hmaps.layout
  have hentry : ∀ j k, m'.entry j k = if j = h ∧ k = n then none else m.entry j k := hmaps.entry
  have harea := area_of_layout_eq hlayout
  have hsame := hmaps.same
  have howns : m.backing (h, n) = some (pteFrame pte) := by
    rw [backing_of_backed hbacked, hpte]
    rfl
  have hbacking : m'.backing = Function.update m.backing (h, n) none :=
    backing_update harea hbacked hentry
  have hlog : m'.log = m.log ++ [.freed (pteFrame pte)] := by rw [hsame]
  have hcurrent : m'.currentSpace = m.currentSpace := by rw [hsame]
  have htracks : m'.allocator.Tracks ({page | ∃ x, m.backing x = some page} \ {pteFrame pte}) := by
    obtain ⟨allocator', hfree', htracks⟩ := ho.frames.free ⟨(h, n), howns⟩
    rw [hfree] at hfree'
    cases hfree'
    rw [hsame]
    exact htracks
  refine ⟨⟨SameLayout.shaped ⟨hmaps.wf, hlayout⟩ ho.shaped, ?_, ?_, ?_,
    ho.current_of hlayout hcurrent, ?_, ?_⟩, ⟨hmaps.wf, hlayout⟩, hcurrent,
    ⟨[pteFrame pte], hlog⟩, ?_, ?_⟩
  · rw [harea]
    exact ho.aligned
  · rw [harea]
    exact ho.disjoint
  · intro j k pte' hpte'
    rw [harea]
    rw [hentry] at hpte'
    split at hpte'
    · cases hpte'
    · exact ho.inside j k pte' hpte'
  · rw [hbacking, ho.books.held_free howns]
    exact htracks
  · rw [hbacking, hlog]
    exact ho.books.free howns
  · intro j k hne
    rw [hentry, if_neg hne]
  · rintro k rfl
    rw [hentry, if_pos ⟨rfl, rfl⟩]

theorem Orderly.unmap (ho : m.Orderly) (hnot : ¬ m.Backed h n) (hmaps : m.Maps m' h n none) :
    m.Sheds m' h (· = n) := by
  have hsame := hmaps.same
  refine ⟨?_, hmaps.sameLayout, by rw [hsame], ⟨[], by rw [hsame]; simp⟩, ?_, ?_⟩
  · refine ho.same (hmaps.sameLayout.shaped ho.shaped) (area_of_layout_eq hmaps.layout)
      (ho.current_of hmaps.layout (by rw [hsame])) ?_ ?_ (by rw [hsame]) (by rw [hsame])
    · intro j k hbacked
      rw [hmaps.entry, if_neg]
      rintro ⟨rfl, rfl⟩
      exact hnot hbacked
    · intro j k pte hpte
      rw [hmaps.entry] at hpte
      split at hpte
      · cases hpte
      · exact ho.inside j k pte hpte
  · intro j k hne
    rw [hmaps.entry, if_neg hne]
  · rintro k rfl
    rw [hmaps.entry, if_pos ⟨rfl, rfl⟩]

theorem Orderly.unmapPage (ho : m.Orderly) (harea : m.area h i = some area)
    (hspans : area.Spans (n * 0x1000)) :
    ∃ m', unmapPage h area.type (n * 0x1000) m = .ok m' ∧ m.Sheds m' h (· = n) := by
  obtain ⟨maps, hlay, _⟩ := area_some harea
  obtain ⟨space, hlook, _⟩ := lookup_of_layout hlay
  have hlive : (m.layout h).isSome := by rw [hlay]; rfl
  have hpage : n * 0x1000 / 0x1000 = n := by omega
  have hentry : space.findPte (n * 0x1000) = m.entry h n := by
    rw [AddressSpace.findPte_eq, hpage, entry_of_lookup hlook]
  unfold Memory.unmapPage
  rw [Pool.get_spec hlook, ok_bind, hentry]
  cases hpte : m.entry h n with
  | none =>
    refine ⟨m, rfl, ho, ⟨ho.shaped.spaces, rfl⟩, rfl, ⟨[], by simp⟩, fun _ _ _ => rfl, ?_⟩
    rintro k rfl
    exact hpte
  | some pte =>
    simp only
    by_cases htype : area.type = areaAlloc ∨ area.type = areaFile
    · have hbacked := (ho.backed_iff harea hspans).mpr htype
      obtain ⟨allocator, hfree, _⟩ := ho.frames.free
        ⟨(h, n), backing_eq_some.mpr ⟨hbacked, pte, hpte, rfl⟩⟩
      obtain ⟨m', hmap, hmaps⟩ := mapPage_spec
        (m := { m with allocator := allocator, log := m.log ++ [.freed (pteFrame pte)] }) 0
        ho.shaped.spaces hlive (show n * 0x1000 % 0x1000 = 0 by omega)
        (show 0xDEAD000 % 0x1000 = 0 by decide) (.inl rfl)
      rw [hpage] at hmaps
      refine ⟨m', ?_, ho.release hbacked hpte hfree hmaps⟩
      rw [freeBacking, if_pos htype, freePage, hfree, ok_bind]
      exact hmap
    · obtain ⟨m', hmap, hmaps⟩ := mapPage_spec 0 ho.shaped.spaces hlive
        (show n * 0x1000 % 0x1000 = 0 by omega) (show 0xDEAD000 % 0x1000 = 0 by decide)
        (.inl rfl)
      rw [hpage] at hmaps
      refine ⟨m', ?_, ho.unmap (fun hb => htype ((ho.backed_iff harea hspans).mp hb)) hmaps⟩
      rw [freeBacking, if_neg htype, ok_bind]
      exact hmap

/-! ## New areas -/

variable {area' : AreaInfo} {k : Nat}

theorem Adds.apart (hadds : m.Adds m' h i area) {a : Nat} (harea' : m.area h k = some area')
    (hnew : area.Spans a) (hold : area'.Spans a) : False := by
  have h1 := hnew.1
  have h2 := hnew.2
  have h3 := hold.1
  have h4 := hold.2
  exact hadds.clear k area' harea' ⟨by omega, by omega⟩

theorem Adds.area_old (hadds : m.Adds m' h i area) {j : Nat} (harea' : m.area j k = some area') :
    m'.area j k = some area' := by
  rw [hadds.areas, if_neg, harea']
  rintro ⟨rfl, rfl⟩
  rw [hadds.free] at harea'
  cases harea'

theorem Adds.area_cases (hadds : m.Adds m' h i area) {j : Nat} (harea' : m'.area j k = some area') :
    m.area j k = some area' ∨ (j = h ∧ k = i ∧ area' = area) := by
  rw [hadds.areas] at harea'
  split at harea'
  · next hjk => exact .inr ⟨hjk.1, hjk.2, (Option.some.inj harea').symm⟩
  · exact .inl harea'

theorem Orderly.vacant (ho : m.Orderly) (hadds : m.Adds m' h i area)
    (hspans : area.Spans (n * 0x1000)) : m.entry h n = none := by
  cases hpte : m.entry h n with
  | none => rfl
  | some pte =>
    obtain ⟨k, area', harea', hspans'⟩ := ho.inside h n pte hpte
    exact (hadds.apart harea' hspans hspans').elim

theorem Orderly.addArea (ho : m.Orderly) (hadds : m.Adds m' h i area)
    (halign : AddressSpace.PageAligned area.start area.stop)
    (hentry : ∀ j n, m'.entry j n = m.entry j n
      ∨ (j = h ∧ area.Spans (n * 0x1000) ∧ area.type = areaLinearMap)) : m'.Orderly := by
  have hsame := hadds.same
  have hbacking : m'.backing = m.backing := by
    funext ⟨j, n⟩
    by_cases hbacked : m.Backed j n
    · obtain ⟨k, area', harea', hspans', htype'⟩ := hbacked
      rw [backing_of_backed ⟨k, area', harea', hspans', htype'⟩,
        backing_of_backed ⟨k, area', hadds.area_old harea', hspans', htype'⟩]
      rcases hentry j n with heq | ⟨rfl, hspans, _⟩
      · rw [heq]
      · exact (hadds.apart harea' hspans hspans').elim
    rw [backing_of_not hbacked]
    by_cases hbacked' : m'.Backed j n
    · rw [backing_of_backed hbacked']
      obtain ⟨k, area', harea', hspans', htype'⟩ := hbacked'
      rcases hadds.area_cases harea' with hold | ⟨rfl, rfl, rfl⟩
      · exact absurd ⟨k, area', hold, hspans', htype'⟩ hbacked
      · rcases hentry j n with heq | ⟨_, _, hlinear⟩
        · rw [heq, ho.vacant hadds hspans']
          rfl
        · rw [hlinear] at htype'
          exact absurd htype' (by decide)
    · rw [backing_of_not hbacked']
  refine ⟨hadds.shaped, ?_, ?_, ?_, ?_, ?_, ?_⟩
  · intro j k area' harea'
    rcases hadds.area_cases harea' with hold | ⟨_, _, rfl⟩
    · exact ho.aligned j k area' hold
    · exact halign
  · intro j k l area1 area2 a h1 h2 hs1 hs2
    rcases hadds.area_cases h1 with hold1 | ⟨rfl, rfl, rfl⟩
    · rcases hadds.area_cases h2 with hold2 | ⟨rfl, rfl, rfl⟩
      · exact ho.disjoint j k l area1 area2 a hold1 hold2 hs1 hs2
      · exact (hadds.apart hold1 hs2 hs1).elim
    · rcases hadds.area_cases h2 with hold2 | ⟨_, rfl, _⟩
      · exact (hadds.apart hold2 hs1 hs2).elim
      · rfl
  · intro j n pte hpte
    rcases hentry j n with heq | ⟨rfl, hspans, _⟩
    · rw [heq] at hpte
      obtain ⟨k, area', harea', hspans'⟩ := ho.inside j n pte hpte
      exact ⟨k, area', hadds.area_old harea', hspans'⟩
    · exact ⟨i, area, by rw [hadds.areas, if_pos ⟨rfl, rfl⟩], hspans⟩
  · rw [hadds.live, hsame]
    exact ho.current
  · rw [hbacking, hsame]
    exact ho.frames
  · rw [hbacking, hsame]
    exact ho.books

/-! ## Unmapping an area -/

theorem page_of_spans (area : AreaInfo) (halign : AddressSpace.PageAligned area.start area.stop) :
    area.Spans (k * 0x1000) ↔ ∃ r < AddressSpace.pageCount area.start area.stop,
      k = area.start.toNat / 0x1000 + r := by
  have h1 := halign.start
  have h2 := halign.stop
  unfold AreaInfo.Spans AddressSpace.pageCount
  constructor
  · rintro ⟨hlow, hhigh⟩
    exact ⟨k - area.start.toNat / 0x1000, by omega, by omega⟩
  · rintro ⟨r, hr, rfl⟩
    omega

theorem page_address (halign : AddressSpace.PageAligned area.start area.stop) (r : Nat) :
    area.start.toNat + 0x1000 * r = (area.start.toNat / 0x1000 + r) * 0x1000 := by
  have h1 := halign.start
  omega

theorem Orderly.unmapPages (ho : m.Orderly) (harea : m.area h i = some area) :
    ∃ m', AddressSpace.forPages area.start area.stop (Memory.unmapPage h area.type) m = .ok m'
      ∧ m.Sheds m' h fun k => area.Spans (k * 0x1000) := by
  have halign := ho.aligned h i area harea
  -- after `r` rounds the first `r` pages are absent
  obtain ⟨m', hloop, hsheds⟩ := AddressSpace.forPages_spec
    (fun r s => m.Sheds s h fun k => ∃ q < r, k = area.start.toNat / 0x1000 + q) halign
    (fun r s hr hs => by
      have harea' : s.area h i = some area := by rw [hs.layout.area, harea]
      obtain ⟨s', hround, hsheds⟩ := hs.orderly.unmapPage harea'
        ((page_of_spans area halign).mpr ⟨r, hr, rfl⟩)
      rw [← page_address halign] at hround
      obtain ⟨freed, hfreed⟩ := hs.freed
      obtain ⟨freed', hfreed'⟩ := hsheds.freed
      refine ⟨s', hround, hsheds.orderly, hs.layout.trans hsheds.layout,
        hsheds.current.trans hs.current, ⟨freed ++ freed', ?_⟩, ?_, ?_⟩
      · rw [hfreed', hfreed, List.map_append, List.append_assoc]
      · intro j k hne
        rw [hsheds.kept j k (fun hc => hne ⟨hc.1, r, Nat.lt_succ_self r, hc.2⟩),
          hs.kept j k fun hc => by
            obtain ⟨rfl, q, hq, rfl⟩ := hc
            exact hne ⟨rfl, q, Nat.lt_succ_of_lt hq, rfl⟩]
      · rintro k ⟨q, hq, rfl⟩
        by_cases hqr : q = r
        · exact hsheds.absent _ (by rw [hqr])
        · rw [hsheds.kept h _ (fun hc => hqr (by have := hc.2; omega))]
          exact hs.absent _ ⟨q, by omega, rfl⟩)
    ⟨ho, ⟨ho.shaped.spaces, rfl⟩, rfl, ⟨[], by simp⟩, fun _ _ _ => rfl, fun k hk => by
        omega⟩
  refine ⟨m', hloop, hsheds.orderly, hsheds.layout, hsheds.current, hsheds.freed, ?_, ?_⟩
  · intro j k hne
    exact hsheds.kept j k fun hc => hne ⟨hc.1, (page_of_spans area halign).mpr hc.2⟩
  · intro k hk
    exact hsheds.absent k ((page_of_spans area halign).mp hk)

theorem Orderly.dropArea (ho : m.Orderly) (harea : m.area h i = some area)
    (habsent : ∀ k, area.Spans (k * 0x1000) → m.entry h k = none) {maps maps' : SpaceMaps}
    (hdrops : m.Drops m' h i maps maps') (hentry : m'.entry = m.entry)
    (hsame : m' = { m with spaces := m'.spaces }) : m'.Orderly := by
  have hareas := hdrops.area ho.shaped
  have hold : ∀ {j k area'}, m'.area j k = some area' → m.area j k = some area' := by
    intro j k area' harea'
    rw [hareas] at harea'
    split at harea'
    · cases harea'
    · exact harea'
  -- present pages lie in the areas that stay
  have hstay : ∀ {j n k pte area'}, m.entry j n = some pte → m.area j k = some area' →
      area'.Spans (n * 0x1000) → m'.area j k = some area' := by
    intro j n k pte area' hpte harea' hspans
    rw [hareas, if_neg, harea']
    rintro ⟨rfl, rfl⟩
    rw [harea] at harea'
    cases harea'
    rw [habsent n hspans] at hpte
    cases hpte
  have hbacking : m'.backing = m.backing := by
    funext ⟨j, n⟩
    cases hpte : m.entry j n with
    | none =>
      have hnone : ∀ s : Memory, s.entry j n = none → s.backing (j, n) = none := by
        intro s hs
        unfold backing
        rw [hs]
        split <;> rfl
      rw [hnone m hpte, hnone m' (by rw [hentry]; exact hpte)]
    | some pte =>
      have hiff : m'.Backed j n ↔ m.Backed j n := by
        constructor
        · rintro ⟨k, area', harea', hspans, htype⟩
          exact ⟨k, area', hold harea', hspans, htype⟩
        · rintro ⟨k, area', harea', hspans, htype⟩
          exact ⟨k, area', hstay hpte harea' hspans, hspans, htype⟩
      by_cases hbacked : m.Backed j n
      · rw [backing_of_backed hbacked, backing_of_backed (hiff.mpr hbacked), hentry]
      · rw [backing_of_not hbacked, backing_of_not fun hc => hbacked (hiff.mp hc)]
  refine ⟨hdrops.shaped ho.shaped, ?_, ?_, ?_, ?_, ?_, ?_⟩
  · intro j k area' harea'
    exact ho.aligned j k area' (hold harea')
  · intro j k l area1 area2 a h1 h2 hs1 hs2
    exact ho.disjoint j k l area1 area2 a (hold h1) (hold h2) hs1 hs2
  · intro j n pte hpte
    rw [hentry] at hpte
    obtain ⟨k, area', harea', hspans⟩ := ho.inside j n pte hpte
    exact ⟨k, area', hstay hpte harea' hspans, hspans⟩
  · have hcurrent : m'.currentSpace = m.currentSpace := by rw [hsame]
    rw [hcurrent]
    rcases ho.current with hlive | hnever
    · refine .inl ?_
      rw [hdrops.layout]
      split
      · rfl
      · exact hlive
    · exact .inr hnever
  · rw [hbacking, hsame]
    exact ho.frames
  · rw [hbacking, hsame]
    exact ho.books

structure Unmapped (m m' : Memory) (h i : Nat) : Prop where
  orderly : m'.Orderly
  current : m'.currentSpace = m.currentSpace
  live : ∀ j, (m'.layout j).isSome = (m.layout j).isSome
  freed : ∃ freed : List Nat, m'.log = m.log ++ freed.map .freed
  areas : ∀ j k, m'.area j k = if j = h ∧ k = i then none else m.area j k
  others : ∀ j k, j ≠ h → m'.entry j k = m.entry j k

theorem Orderly.unmapArea (ho : m.Orderly) (harea : m.area h i = some area) :
    ∃ m', m.unmapArea h i = .ok m' ∧ m.Unmapped m' h i := by
  obtain ⟨maps, hlay, hmaparea⟩ := area_some harea
  obtain ⟨space, hlook, rfl⟩ := lookup_of_layout hlay
  obtain ⟨m1, hloop, hsheds⟩ := ho.unmapPages harea
  have harea1 : m1.area h i = some area := by rw [hsheds.layout.area, harea]
  obtain ⟨m', herase⟩ := eraseArea_spec hsheds.orderly.shaped harea1
  obtain ⟨maps1, maps', hdrops, hentry, hsame⟩ := eraseArea_ok hsheds.orderly.shaped.spaces herase
  have hlog : m'.log = m1.log := by rw [hsame]
  have hcurrent : m'.currentSpace = m1.currentSpace := by rw [hsame]
  refine ⟨m', ?_, hsheds.orderly.dropArea harea1 hsheds.absent hdrops hentry hsame,
    hcurrent.trans hsheds.current, ?_, by rw [hlog]; exact hsheds.freed, ?_, ?_⟩
  · rw [Memory.unmapArea, Pool.get_spec hlook, ok_bind, Pool.get_spec hmaparea, ok_bind, hloop,
      ok_bind]
    exact herase
  · intro j
    rw [hdrops.layout, ← hsheds.layout.layout]
    split
    · next hj => rw [hj, hdrops.before]; rfl
    · rfl
  · intro j k
    rw [hdrops.area hsheds.orderly.shaped, hsheds.layout.area]
  · intro j k hj
    rw [hentry, hsheds.kept j k fun hc => hj hc.1]

end Memory

end Peos2.Kernel
