/-
  Kernel.AddressSpaces — what the operations on memory do to the layout of the spaces.

  Mapping adds an area and unmapping takes one away, but not its map entry; everything
  else leaves the areas alone.
-/
import Peos2.Kernel.PageTables

namespace Peos2.Kernel

open Peos2.Lib Peos2.Support Pool AddressSpace Option

namespace Memory

variable {m m' : Memory} {h i : Nat} {body : Nat → Memory → Checked Memory}

/-! ## Loops over areas -/

def area (m : Memory) (h i : Nat) : Option AreaInfo :=
  (m.layout h).bind fun maps => maps.areas.lookup i

structure Shaped (m : Memory) : Prop where
  spaces : m.spaces.WF
  pools : ∀ h maps, m.layout h = some maps → maps.PoolsWF

variable {maps : SpaceMaps} {space : AddressSpace} {flags : UInt16}

theorem area_of_layout (hlay : m.layout h = some maps) (i : Nat) :
    m.area h i = maps.areas.lookup i := by
  rw [area, hlay]
  rfl

theorem area_of_get {space : AddressSpace} {area : AreaInfo} (hget : m.spaces.get h = .ok space)
    (harea : space.areas.get i = .ok area) : m.area h i = some area := by
  rw [area_of_layout (layout_of_lookup (get_ok hget))]
  exact get_ok harea

theorem area_some {area : AreaInfo} (harea : m.area h i = some area) :
    ∃ maps, m.layout h = some maps ∧ maps.areas.lookup i = some area :=
  bind_eq_some_iff.mp harea

theorem Shaped.valid_iff (hshape : m.Shaped) (hlook : m.spaces.lookup h = some space) (i : Nat) :
    space.areas.valid i = (m.area h i).isSome := by
  have hlay := layout_of_lookup hlook
  rw [area_of_layout hlay, Bool.eq_iff_iff, isSome_iff_exists,
    (hshape.pools h _ hlay).areas.valid_iff_lookup]

theorem area_above (hlook : m.spaces.lookup h = some space) (hi : ¬ i < space.areas.watermark) :
    ∀ k, i ≤ k → m.area h k = none := by
  intro k hk
  rw [area_of_layout (layout_of_lookup hlook)]
  by_contra hsome
  obtain ⟨area, harea⟩ := ne_none_iff_exists'.mp hsome
  have := lookup_lt_watermark harea
  omega

theorem forAreas_ok (P : Nat → Memory → Prop) (hshape : ∀ i m, P i m → m.Shaped)
    (hskip : ∀ i m, P i m → m.area h i = none → P (i + 1) m)
    (hbody : ∀ i m m' area, P i m → m.area h i = some area → body i m = .ok m' → P (i + 1) m')
    (h0 : P 0 m) (hloop : forAreas h body m = .ok m') :
    ∃ j, P j m' ∧ ∀ k, j ≤ k → m'.area h k = none := by
  have hrun : ∀ fuel i (m : Memory), P i m → forAreasFrom h body fuel i m = .ok m' →
      ∃ j, P j m' ∧ ∀ k, j ≤ k → m'.area h k = none := by
    intro fuel
    induction fuel with
    | zero =>
      intro i m _ hloop
      cases hloop
    | succ fuel ih =>
      intro i m hP hloop
      obtain ⟨space, hget, hloop⟩ := bind_ok.mp hloop
      have hlook := get_ok hget
      by_cases hi : i < space.areas.watermark
      · rw [if_pos hi, (hshape i m hP).valid_iff hlook] at hloop
        cases harea : m.area h i with
        | none =>
          simp only [harea, isSome_none, Bool.false_eq_true, if_false, ok_bind] at hloop
          exact ih (i + 1) m (hskip i m hP harea) hloop
        | some area =>
          simp only [harea, isSome_some, if_true] at hloop
          obtain ⟨m1, hround, hloop⟩ := bind_ok.mp hloop
          exact ih (i + 1) m1 (hbody i m m1 area hP harea hround) hloop
      · rw [if_neg hi] at hloop
        cases hloop
        exact ⟨i, hP, area_above hlook hi⟩
  exact hrun 33 0 m h0 hloop

/-- The rule for a loop over the areas of a space whose rounds return. The body may take
areas away and lower the watermark; every area is visited. -/
theorem forAreas_spec (P : Nat → Memory → Prop)
    (hlive : ∀ i m, P i m → m.Shaped ∧ (m.layout h).isSome)
    (hskip : ∀ i m, P i m → m.area h i = none → P (i + 1) m)
    (hbody : ∀ i m area, P i m → m.area h i = some area → ∃ m', body i m = .ok m' ∧ P (i + 1) m')
    (h0 : P 0 m) :
    ∃ m' j, forAreas h body m = .ok m' ∧ P j m' ∧ ∀ k, j ≤ k → m'.area h k = none := by
  -- the fuel is the number of areas still to come, and one
  have hrun : ∀ fuel i (m : Memory), P i m → i + fuel = 33 → 0 < fuel →
      ∃ m' j, forAreasFrom h body fuel i m = .ok m' ∧ P j m' ∧ ∀ k, j ≤ k → m'.area h k = none := by
    intro fuel
    induction fuel with
    | zero =>
      intro i m _ _ hpos
      omega
    | succ fuel ih =>
      intro i m hP hfuel _
      obtain ⟨hshape, hsome⟩ := hlive i m hP
      obtain ⟨maps, hmaps⟩ := isSome_iff_exists.mp hsome
      obtain ⟨space, hlook, _⟩ := lookup_of_layout hmaps
      have hroom := (hshape.pools h _ (layout_of_lookup hlook)).areas.room
      unfold forAreasFrom
      rw [get_spec hlook, ok_bind]
      by_cases hi : i < space.areas.watermark
      · rw [if_pos hi, hshape.valid_iff hlook]
        cases harea : m.area h i with
        | none =>
          exact ih (i + 1) m (hskip i m hP harea) (by omega) (by omega)
        | some area =>
          obtain ⟨m1, hround, hP1⟩ := hbody i m area hP harea
          simp only [isSome_some, if_true, hround, ok_bind]
          exact ih (i + 1) m1 hP1 (by omega) (by omega)
      · rw [if_neg hi]
        exact ⟨m, i, rfl, hP, area_above hlook hi⟩
  exact hrun 33 0 m h0 rfl (by omega)

/-! ## Creating a space; operations that leave the areas alone -/

theorem shaped_boot {allocator : PageAllocator} {ram : Nat → Nat → UInt8}
    {files : Int → Option RamFile} : (boot allocator ram files).Shaped := by
  refine ⟨blank_wf (by decide), ?_⟩
  intro h maps hlay
  cases hlay

theorem memCreateSpace_ok (hshape : m.Shaped) (hcall : m.memCreateSpace = .ok (h, m')) :
    m'.Shaped ∧ m.layout h = none ∧ m' = { m with spaces := m'.spaces }
      ∧ (∀ j, m'.spaces.lookup j
        = if j = h then some fresh else m.spaces.lookup j) := by
  obtain ⟨_, _, hcall⟩ := bind_ok.mp hcall
  obtain ⟨⟨_, spaces⟩, hput, hcall⟩ := bind_ok.mp hcall
  cases hcall
  obtain ⟨_, hwf, hfree, hlook⟩ := emplaceAnywhere_ok hshape.spaces hput
  refine ⟨⟨hwf, ?_⟩, by rw [layout, hfree]; rfl, rfl, hlook⟩
  intro j maps hlay
  obtain ⟨space, hspace, rfl⟩ := lookup_of_layout hlay
  rw [hlook] at hspace
  split at hspace
  · cases hspace
    exact poolsWF_fresh
  · exact hshape.pools j _ (layout_of_lookup hspace)


structure SameLayout (m m' : Memory) : Prop where
  spaces : m'.spaces.WF
  layout : m'.layout = m.layout

theorem SameLayout.shaped (hsame : m.SameLayout m') (hshape : m.Shaped) : m'.Shaped :=
  ⟨hsame.spaces, fun h maps hlay => hshape.pools h maps (by rw [← hsame.layout]; exact hlay)⟩

theorem SameLayout.trans {m'' : Memory} (h1 : m.SameLayout m') (h2 : m'.SameLayout m'') :
    m.SameLayout m'' := ⟨h2.spaces, h2.layout.trans h1.layout⟩

theorem SameLayout.area (hsame : m.SameLayout m') (h i : Nat) : m'.area h i = m.area h i := by
  unfold Memory.area
  rw [hsame.layout]

theorem Maps.sameLayout {n : Nat} {e : Option PageTableEntry} (hmaps : m.Maps m' h n e) :
    m.SameLayout m' := ⟨hmaps.wf, hmaps.layout⟩

theorem freePage_ok {page : Nat} (hcall : m.freePage page = .ok m') :
    ∃ allocator, m.allocator.freePage page = .ok allocator
      ∧ m' = { m with allocator := allocator, log := m.log ++ [.freed page] } := by
  obtain ⟨allocator, hfree, hcall⟩ := bind_ok.mp hcall
  cases hcall
  exact ⟨allocator, hfree, rfl⟩

theorem freeBacking_spaces {type : UInt16} {pte : PageTableEntry}
    (hcall : m.freeBacking type pte = .ok m') : m'.spaces = m.spaces := by
  unfold freeBacking at hcall
  split at hcall
  · obtain ⟨_, _, rfl⟩ := freePage_ok hcall
    rfl
  · cases hcall
    rfl

theorem layout_of_spaces (hsame : m'.spaces = m.spaces) : m'.layout = m.layout := by
  funext h
  rw [layout, layout, hsame]

theorem entry_of_spaces (hsame : m'.spaces = m.spaces) : m'.entry = m.entry := by
  funext h n
  rw [entry, entry, hsame]

theorem unmapPage_sameLayout {type : UInt16} {page : Nat} (hwf : m.spaces.WF)
    (hcall : unmapPage h type page m = .ok m') : m.SameLayout m' := by
  obtain ⟨space, _, hcall⟩ := bind_ok.mp hcall
  split at hcall
  · obtain ⟨m1, hfree, hmap⟩ := bind_ok.mp hcall
    have hspaces := freeBacking_spaces hfree
    obtain ⟨_, _, _, hmaps⟩ := mapPage_ok (m := m1) (by rw [hspaces]; exact hwf) hmap
    exact ⟨hmaps.wf, hmaps.layout.trans (layout_of_spaces hspaces)⟩
  · cases hcall
    exact ⟨hwf, rfl⟩

/-! ## Unmapping an area -/

/-- One area was taken away; the map entries are as they were. -/
structure Drops (m m' : Memory) (h i : Nat) (maps maps' : SpaceMaps) : Prop where
  before : m.layout h = some maps
  erased : maps.areas.erase i = .ok maps'.areas
  linearMaps : maps'.linearMaps = maps.linearMaps
  fileMaps : maps'.fileMaps = maps.fileMaps
  spaces : m'.spaces.WF
  layout : ∀ j, m'.layout j = if j = h then some maps' else m.layout j

theorem eraseArea_ok (hwf : m.spaces.WF) (hcall : m.eraseArea h i = .ok m') :
    ∃ maps maps', m.Drops m' h i maps maps' ∧ m'.entry = m.entry
      ∧ m' = { m with spaces := m'.spaces } := by
  obtain ⟨⟨_, m1⟩, hwith, hcall⟩ := bind_ok.mp hcall
  cases hcall
  obtain ⟨space, space', hlook, hf, hedit⟩ := withSpace_ok hwf hwith
  obtain ⟨areas, herase, hf⟩ := bind_ok.mp hf
  cases hf
  refine ⟨space.toSpaceMaps, { space.toSpaceMaps with areas := areas },
    ⟨layout_of_lookup hlook, herase, rfl, rfl, hedit.wf, hedit.layout⟩, ?_, hedit.same⟩
  funext j n
  rw [hedit.entry]
  split
  · next hj => rw [hj, entry_of_lookup hlook]; rfl
  · rfl

theorem eraseArea_spec (hshape : m.Shaped) {area : AreaInfo} (harea : m.area h i = some area) :
    ∃ m', m.eraseArea h i = .ok m' := by
  obtain ⟨maps, hlay, hlook⟩ := area_some harea
  obtain ⟨space, hspace, rfl⟩ := lookup_of_layout hlay
  obtain ⟨areas, herase, _⟩ := erase_spec (hshape.pools h _ hlay).areas hlook
  obtain ⟨m', hwith, _⟩ := withSpace_spec (b := ()) (f := fun space => do
    let areas ← space.areas.erase i
    .ok ((), { space with areas := areas })) hshape.spaces hspace (by rw [herase, ok_bind])
  exact ⟨m', by rw [eraseArea, hwith, ok_bind]⟩

theorem unmapArea_ok (hwf : m.spaces.WF) (hcall : m.unmapArea h i = .ok m') :
    ∃ maps maps', m.Drops m' h i maps maps' := by
  obtain ⟨space, _, hcall⟩ := bind_ok.mp hcall
  obtain ⟨area, _, hcall⟩ := bind_ok.mp hcall
  obtain ⟨m1, hloop, herase⟩ := bind_ok.mp hcall
  have hsame : m.SameLayout m1 := by
    have hround : ∀ a s s', m.SameLayout s → unmapPage h area.type a s = .ok s' →
        m.SameLayout s' := fun a s s' hs hround => hs.trans (unmapPage_sameLayout hs.spaces hround)
    exact forPages_keeps hround ⟨hwf, rfl⟩ hloop
  obtain ⟨maps, maps', hdrops, _⟩ := eraseArea_ok hsame.spaces herase
  refine ⟨maps, maps', ?_, hdrops.erased, hdrops.linearMaps, hdrops.fileMaps, hdrops.spaces, ?_⟩
  · rw [← hsame.layout]
    exact hdrops.before
  · intro j
    rw [hdrops.layout, hsame.layout]

theorem Drops.shaped {maps' : SpaceMaps} (hdrops : m.Drops m' h i maps maps') (hshape : m.Shaped) :
    m'.Shaped := by
  have hpools := hshape.pools h maps hdrops.before
  refine ⟨hdrops.spaces, ?_⟩
  intro j maps'' hlay
  rw [hdrops.layout] at hlay
  split at hlay
  · cases hlay
    exact ⟨(erase_ok hpools.areas hdrops.erased).2.1, hdrops.linearMaps ▸ hpools.linearMaps,
      hdrops.fileMaps ▸ hpools.fileMaps⟩
  · exact hshape.pools j maps'' hlay

theorem Drops.area {maps' : SpaceMaps} (hdrops : m.Drops m' h i maps maps') (hshape : m.Shaped)
    (j k : Nat) : m'.area j k = if j = h ∧ k = i then none else m.area j k := by
  obtain ⟨_, _, hlook⟩ := erase_ok (hshape.pools h maps hdrops.before).areas hdrops.erased
  unfold Memory.area
  rw [hdrops.layout]
  by_cases hj : j = h
  · rw [if_pos hj, hj, hdrops.before]
    show maps'.areas.lookup k = _
    rw [hlook]
    by_cases hk : k = i
    · rw [if_pos hk, if_pos ⟨rfl, hk⟩]
    · rw [if_neg hk, if_neg fun hc => hk hc.2]
      rfl
  · rw [if_neg hj, if_neg fun hc => hj hc.1]

/-- The areas below slot `i` that do not match have been taken away. -/
structure Sifted (m₀ m : Memory) (h : Nat) (flags : UInt16) (maps₀ : SpaceMaps) (i : Nat) :
    Prop where
  shaped : m.Shaped
  others : ∀ j, j ≠ h → m.layout j = m₀.layout j
  space : ∃ maps, m.layout h = some maps ∧ maps.linearMaps = maps₀.linearMaps
    ∧ maps.fileMaps = maps₀.fileMaps
    ∧ ∀ k, maps.areas.lookup k
      = if k < i then (maps₀.areas.lookup k).filter fun area => area.flags &&& flags != 0
        else maps₀.areas.lookup k

theorem Sifted.next {m0 : Memory} {maps0 : SpaceMaps} (hsift : Sifted m0 m h flags maps0 i)
    (hkeep : (maps0.areas.lookup i).filter (fun area => area.flags &&& flags != 0)
      = maps0.areas.lookup i) : Sifted m0 m h flags maps0 (i + 1) := by
  obtain ⟨maps, hlay, hlinear, hfile, hlook⟩ := hsift.space
  refine ⟨hsift.shaped, hsift.others, maps, hlay, hlinear, hfile, ?_⟩
  intro k
  rw [hlook]
  by_cases hk : k = i
  · rw [hk, if_neg (Nat.lt_irrefl i), if_pos (Nat.lt_succ_self i), hkeep]
  · by_cases hlt : k < i
    · rw [if_pos hlt, if_pos (by omega)]
    · rw [if_neg hlt, if_neg (by omega)]

theorem Sifted.drop {m0 : Memory} {maps0 maps1 maps2 : SpaceMaps}
    (hsift : Sifted m0 m h flags maps0 i) (hdrops : m.Drops m' h i maps1 maps2)
    (hgo : (maps0.areas.lookup i).filter (fun area => area.flags &&& flags != 0) = none) :
    Sifted m0 m' h flags maps0 (i + 1) := by
  obtain ⟨maps, hlay, hlinear, hfile, hlook⟩ := hsift.space
  have hsame : maps1 = maps := some.inj (hdrops.before.symm.trans hlay)
  subst hsame
  obtain ⟨_, _, herased⟩ := erase_ok (hsift.shaped.pools h _ hlay).areas hdrops.erased
  refine ⟨hdrops.shaped hsift.shaped, ?_, maps2, ?_, hdrops.linearMaps.trans hlinear,
    hdrops.fileMaps.trans hfile, ?_⟩
  · intro j hj
    rw [hdrops.layout, if_neg hj]
    exact hsift.others j hj
  · rw [hdrops.layout, if_pos rfl]
  · intro k
    rw [herased, hlook]
    by_cases hk : k = i
    · rw [if_pos hk, hk, if_pos (Nat.lt_succ_self i), hgo]
    · rw [if_neg hk]
      by_cases hlt : k < i
      · rw [if_pos hlt, if_pos (by omega)]
      · rw [if_neg hlt, if_neg (by omega)]

/-- `mem_unmap_not_matching` leaves the areas that match, and every map
entry. -/
theorem memUnmapNotMatching_ok (hshape : m.Shaped)
    (hcall : m.memUnmapNotMatching h flags = .ok m') :
    ∃ maps maps', m.layout h = some maps ∧ m'.layout h = some maps' ∧ m'.Shaped
      ∧ (∀ j, j ≠ h → m'.layout j = m.layout j)
      ∧ maps'.linearMaps = maps.linearMaps ∧ maps'.fileMaps = maps.fileMaps
      ∧ ∀ k, maps'.areas.lookup k
        = (maps.areas.lookup k).filter fun area => area.flags &&& flags != 0 := by
  obtain ⟨space, hget, hloop⟩ := bind_ok.mp hcall
  have hlay := layout_of_lookup (get_ok hget)
  -- before round `i` the slots below `i` are sifted
  obtain ⟨j, hsift, habove⟩ := forAreas_ok (fun i m1 => Sifted m m1 h flags space.toSpaceMaps i)
    (fun i m1 hP => hP.shaped)
    (fun i m1 hP hnone => by
      apply hP.next
      obtain ⟨maps, hlay1, _, _, hlook⟩ := hP.space
      have hslot := hlook i
      rw [if_neg (Nat.lt_irrefl i), ← area_of_layout hlay1, hnone] at hslot
      rw [← hslot]
      rfl)
    (fun i m1 m2 area hP harea hround => by
      obtain ⟨maps, hlay1, _, _, hlook⟩ := hP.space
      have hslot := hlook i
      rw [if_neg (Nat.lt_irrefl i), ← area_of_layout hlay1, harea] at hslot
      obtain ⟨space1, hget1, hround⟩ := bind_ok.mp hround
      obtain ⟨area1, hgetarea, hround⟩ := bind_ok.mp hround
      have hsame : area1 = area := Option.some.inj ((area_of_get hget1 hgetarea).symm.trans harea)
      rw [hsame] at hround
      by_cases hmatch : area.flags &&& flags = 0
      · rw [if_pos hmatch] at hround
        obtain ⟨maps1, maps2, hdrops⟩ := unmapArea_ok hP.shaped.spaces hround
        exact hP.drop hdrops (by rw [← hslot]; simp [Option.filter, hmatch])
      · rw [if_neg hmatch] at hround
        cases hround
        exact hP.next (by rw [← hslot]; simp [Option.filter, hmatch]))
    ⟨hshape, fun _ _ => rfl, space.toSpaceMaps, hlay, rfl, rfl, fun k => by
      rw [if_neg (Nat.not_lt_zero k)]⟩ hloop
  obtain ⟨maps, hlay', hlinear, hfile, hlook⟩ := hsift.space
  refine ⟨space.toSpaceMaps, maps, hlay, hlay', hsift.shaped, hsift.others, hlinear, hfile, ?_⟩
  intro k
  by_cases hk : k < j
  · rw [hlook, if_pos hk]
  have hnone := habove k (by omega)
  have hslot := hlook k
  rw [area_of_layout hlay'] at hnone
  rw [if_neg hk, hnone] at hslot
  rw [hnone, ← hslot]
  rfl

/-! ## Mapping an area -/

structure Adds (m m' : Memory) (h i : Nat) (area : AreaInfo) : Prop where
  shaped : m'.Shaped
  same : m' = { m with spaces := m'.spaces }
  live : ∀ j, (m'.layout j).isSome = (m.layout j).isSome
  free : m.area h i = none
  areas : ∀ j k, m'.area j k = if j = h ∧ k = i then some area else m.area j k
  clear : ∀ k area', m.area h k = some area' →
    ¬ (area.start.toNat < area'.stop.toNat ∧ area'.start.toNat < area.stop.toNat)

theorem Edits.adds {mid space' : AddressSpace} {area : AreaInfo} (hshape : m.Shaped)
    (hlook : m.spaces.lookup h = some space) (hedit : m.Edits m' h space')
    (hmid : mid.toSpaceMaps = space.toSpaceMaps) (hadd : mid.Added space' i area) :
    m.Adds m' h i area := by
  have hareas : ∀ k, m.area h k = mid.areas.lookup k := by
    intro k
    rw [area_of_layout (layout_of_lookup hlook), hmid]
  refine ⟨⟨hedit.wf, ?_⟩, hedit.same, ?_, by rw [hareas, hadd.free], ?_, ?_⟩
  · intro j maps hlay
    rw [hedit.layout] at hlay
    split at hlay
    · cases hlay
      exact hadd.wf
    · exact hshape.pools j maps hlay
  · intro j
    rw [hedit.layout]
    split
    · next hj => rw [hj, layout_of_lookup hlook]; rfl
    · rfl
  · intro j k
    by_cases hj : j = h
    · rw [hj, area_of_layout (by rw [hedit.layout, if_pos rfl]), hadd.areas, hareas]
      by_cases hk : k = i
      · rw [if_pos hk, if_pos ⟨rfl, hk⟩]
      · rw [if_neg hk, if_neg fun hc => hk hc.2]
    · rw [Memory.area, hedit.layout, if_neg hj, if_neg fun hc => hj hc.1, Memory.area]
  · intro k area' harea'
    rw [hareas] at harea'
    exact hadd.clear k area' harea'

theorem Edits.entry_eq {space' : AddressSpace} (hedit : m.Edits m' h space')
    (hlook : m.spaces.lookup h = some space) (hdir : space'.pageDir = space.pageDir) :
    m'.entry = m.entry := by
  funext j n
  rw [hedit.entry]
  split
  · next hj => rw [hj, entry_of_lookup hlook, page_of_pageDir hdir]
  · rfl

theorem memMapLinearEager_ok {start stop physStart : UInt32} (hshape : m.Shaped)
    (halign : AddressSpace.PageAligned start stop)
    (hcall : m.memMapLinearEager h start stop physStart flags = .ok (i, m')) :
    ∃ k < 16, m.Adds m' h i ⟨start, stop, areaLinearMap, flags, UInt16.ofNat k⟩
      ∧ ∀ j n, m'.entry j n = m.entry j n
        ∨ (j = h ∧ start.toNat ≤ n * 0x1000 ∧ n * 0x1000 < stop.toNat) := by
  obtain ⟨space, space', hlook, hmap, hedit⟩ := withSpace_ok hshape.spaces hcall
  obtain ⟨phys, mid, hloop, hsame, hmap⟩ := AddressSpace.mapLinearEager_ok hmap
  obtain ⟨k, hk, hadd, _⟩ := AddressSpace.mapLinear_ok
    (hsame ▸ hshape.pools h _ (layout_of_lookup hlook)) hmap
  refine ⟨k, hk, hedit.adds hshape hlook hsame hadd, ?_⟩
  -- the loop writes the entries of the pages it comes to
  have hpages := AddressSpace.forPages_ok
    (fun _ (s : UInt32 × AddressSpace) => ∀ n, s.2.page n = space.page n
      ∨ (start.toNat ≤ n * 0x1000 ∧ n * 0x1000 < stop.toNat)) halign
    (fun r s s' hr hs hround n => by
      obtain ⟨next, hmapPage, hround⟩ := bind_ok.mp hround
      rw [← Except.ok.inj hround]
      obtain ⟨_, _, hremap⟩ := AddressSpace.mapPage_ok hmapPage
      unfold AddressSpace.pageCount at hr
      rw [hremap.page]
      split
      · next hn => exact .inr (by omega)
      · exact hs n) (fun n => .inl rfl) hloop
  intro j n
  rw [hedit.entry]
  by_cases hj : j = h
  · rw [if_pos hj, hj, entry_of_lookup hlook, AddressSpace.page_of_pageDir hadd.pageDir]
    exact (hpages n).imp_right fun hin => ⟨rfl, hin⟩
  · rw [if_neg hj]
    exact .inl rfl

end Memory

end Peos2.Kernel
