/-
  Kernel.MapEntries — areas and the entries recorded for them (`kernel/memory.cc`).

  A linear area and a file area each come with an entry in a pool of their space:
  where the physical range starts, or which part of which file is mapped. Unmapping
  takes the area away but not its entry, so every `exec` of a program with segments in
  a file leaves entries behind, and a pool has room for sixteen.

  Main results: `entries_inStep`, `entries_leak`.
-/
import Peos2.Kernel.AddressSpaces

namespace Peos2.Kernel

open Peos2.Lib Peos2.Support List Memory AddressSpace

/-! ## Calls on one space -/

inductive MapCall where
  | mapLinear (start stop physStart : UInt32) (flags : UInt16)
  | mapLinearEager (start stop physStart : UInt32) (flags : UInt16)
  | mapAlloc (start stop : UInt32) (flags : UInt16)
  | mapFd (start stop : UInt32) (fd : Int) (offset fileSize : UInt32) (flags : UInt16)
  | unmapNotMatching (flags : UInt16)

def MapCall.exec (h : Nat) (m : Memory) : MapCall → Checked Memory
  | .mapLinear start stop physStart flags => do
      let (_, m) ← m.memMapLinear h start stop physStart flags
      .ok m
  | .mapLinearEager start stop physStart flags => do
      let (_, m) ← m.memMapLinearEager h start stop physStart flags
      .ok m
  | .mapAlloc start stop flags => do
      let (_, m) ← m.memMapAlloc h start stop flags
      .ok m
  | .mapFd start stop fd offset fileSize flags => do
      let (_, m) ← m.memMapFd h start stop fd offset fileSize flags
      .ok m
  | .unmapNotMatching flags => m.memUnmapNotMatching h flags

def runCalls (h : Nat) (calls : List MapCall) (m : Memory) : Checked Memory :=
  calls.foldlM (MapCall.exec h) m

def SpaceMaps.areasOf (maps : SpaceMaps) (type : UInt16) : Nat :=
  maps.areas.values.countP fun area => area.type == type

/-- There is one entry for every area of the kind. -/
structure SpaceMaps.InStep (maps : SpaceMaps) : Prop where
  file : maps.fileMaps.size = maps.areasOf areaFile
  linear : maps.linearMaps.size = maps.areasOf areaLinearMap

/-- The areas that the call would unmap are not linear and not of files. -/
def MapCall.Spares (h : Nat) (m : Memory) : MapCall → Prop
  | .unmapNotMatching flags => ∀ i area, m.area h i = some area →
      area.type = areaFile ∨ area.type = areaLinearMap → area.flags &&& flags ≠ 0
  | _ => True

/-! ## Counting -/

/-- What a call does to the numbers of areas and of entries. -/
structure Counts (maps maps' : SpaceMaps) (files linears : Nat) : Prop where
  fileMaps : maps'.fileMaps.size = maps.fileMaps.size + files
  linearMaps : maps'.linearMaps.size = maps.linearMaps.size + linears
  fileAreas : maps'.areasOf areaFile = maps.areasOf areaFile + files
  linearAreas : maps'.areasOf areaLinearMap = maps.areasOf areaLinearMap + linears

theorem areasOf_cons {maps maps' : SpaceMaps} {area : AreaInfo}
    (hvalues : maps'.areas.values.Perm (area :: maps.areas.values)) (type : UInt16) :
    maps'.areasOf type = maps.areasOf type + if area.type == type then 1 else 0 := by
  unfold SpaceMaps.areasOf
  rw [hvalues.countP_eq, countP_cons]

section
variable {m m' : Memory} {h : Nat}

variable {maps : SpaceMaps}

theorem counts_of_map {maps' : SpaceMaps} {area : AreaInfo} {files linears : Nat}
    (hvalues : maps'.areas.values.Perm (area :: maps.areas.values))
    (hfile : maps'.fileMaps.size = maps.fileMaps.size + files)
    (hlinear : maps'.linearMaps.size = maps.linearMaps.size + linears)
    (hfiles : (if area.type == areaFile then 1 else 0) = files)
    (hlinears : (if area.type == areaLinearMap then 1 else 0) = linears) :
    Counts maps maps' files linears :=
  ⟨hfile, hlinear, by rw [areasOf_cons hvalues, hfiles], by rw [areasOf_cons hvalues, hlinears]⟩

theorem counts_mapLinear {space space' : AddressSpace} (hwf : space.PoolsWF) {i : Nat}
    {start stop physStart : UInt32} {flags : UInt16}
    (hcall : space.mapLinear start stop physStart flags = .ok (i, space')) :
    space'.PoolsWF ∧ Counts space.toSpaceMaps space'.toSpaceMaps 0 1 := by
  obtain ⟨k, _, hadd, hfile, hmaps⟩ := mapLinear_ok hwf hcall
  exact ⟨hadd.wf, counts_of_map hadd.values (by rw [hfile]; rfl)
    (hwf.linearMaps.size_emplaceAnywhere hmaps) rfl rfl⟩

structure CallOn (m m' : Memory) (h : Nat) (maps maps' : SpaceMaps) : Prop where
  before : m.layout h = some maps
  after : m'.layout h = some maps'
  shaped : m'.Shaped

theorem callOn_of_edits {space space' : AddressSpace} (hshape : m.Shaped)
    (hlook : m.spaces.lookup h = some space) (hedit : m.Edits m' h space')
    (hwf : space'.PoolsWF) : CallOn m m' h space.toSpaceMaps space'.toSpaceMaps := by
  refine ⟨layout_of_lookup hlook, by rw [hedit.layout, if_pos rfl], hedit.wf, ?_⟩
  intro j maps hlay
  rw [hedit.layout] at hlay
  split at hlay
  · cases hlay
    exact hwf
  · exact hshape.pools j maps hlay

/-- What a call that maps does to the numbers of areas and entries. -/
theorem MapCall.exec_counts {call : MapCall} (hshape : m.Shaped)
    (hmaps : ∀ flags, call ≠ .unmapNotMatching flags) (hcall : call.exec h m = .ok m') :
    ∃ maps maps' files linears, CallOn m m' h maps maps' ∧ Counts maps maps' files linears := by
  cases call with
  | unmapNotMatching flags => exact absurd rfl (hmaps flags)
  | mapLinear start stop physStart flags =>
    obtain ⟨⟨i, m1⟩, hwith, hcall⟩ := bind_ok.mp hcall
    cases hcall
    obtain ⟨space, space', hlook, hmap, hedit⟩ := withSpace_ok hshape.spaces hwith
    obtain ⟨hwf, hcounts⟩ := counts_mapLinear (hshape.pools h _ (layout_of_lookup hlook)) hmap
    exact ⟨_, _, 0, 1, callOn_of_edits hshape hlook hedit hwf, hcounts⟩
  | mapLinearEager start stop physStart flags =>
    obtain ⟨⟨i, m1⟩, hwith, hcall⟩ := bind_ok.mp hcall
    cases hcall
    obtain ⟨space, space', hlook, hmap, hedit⟩ := withSpace_ok hshape.spaces hwith
    have hpools := hshape.pools h _ (layout_of_lookup hlook)
    -- writing the tables leaves the pools as they are
    obtain ⟨_, mid, _, hsame, hmap⟩ := mapLinearEager_ok hmap
    obtain ⟨hwf, hcounts⟩ := counts_mapLinear (hsame ▸ hpools) hmap
    rw [hsame] at hcounts
    exact ⟨_, _, 0, 1, callOn_of_edits hshape hlook hedit hwf, hcounts⟩
  | mapAlloc start stop flags =>
    obtain ⟨⟨i, m1⟩, hwith, hcall⟩ := bind_ok.mp hcall
    cases hcall
    obtain ⟨space, space', hlook, hmap, hedit⟩ := withSpace_ok hshape.spaces hwith
    obtain ⟨hadd, hlinear, hfile⟩ := mapAlloc_ok (hshape.pools h _ (layout_of_lookup hlook)) hmap
    exact ⟨_, _, 0, 0, callOn_of_edits hshape hlook hedit hadd.wf,
      counts_of_map hadd.values (by rw [hfile]; rfl) (by rw [hlinear]; rfl) rfl rfl⟩
  | mapFd start stop fd offset fileSize flags =>
    obtain ⟨⟨i, m1⟩, hwith, hcall⟩ := bind_ok.mp hcall
    cases hcall
    obtain ⟨space, space', hlook, hmap, hedit⟩ := withSpace_ok hshape.spaces hwith
    have hpools := hshape.pools h _ (layout_of_lookup hlook)
    obtain ⟨_, k, _, hadd, hlinear, hfile⟩ := mapFd_ok hpools hmap
    exact ⟨_, _, 1, 0, callOn_of_edits hshape hlook hedit hadd.wf,
      counts_of_map hadd.values (hpools.fileMaps.size_emplaceAnywhere hfile)
        (by rw [hlinear]; rfl) rfl rfl⟩

theorem countP_and_eq_iff {α : Type} (p q : α → Bool) (l : List α) :
    l.countP p = l.countP (fun a => p a && q a) ↔ ∀ a ∈ l, p a = true → q a = true := by
  induction l with
  | nil => simp
  | cons a l ih =>
    have hle : l.countP (fun a => p a && q a) ≤ l.countP p :=
      countP_mono_left fun b _ hb => (Bool.and_eq_true _ _ ▸ hb).1
    rw [countP_cons, countP_cons, forall_mem_cons]
    cases hp : p a <;> cases hq : q a <;> (simp; try omega)

theorem areasOf_unmapped {maps' : SpaceMaps} {flags : UInt16} (hlook : ∀ k, maps'.areas.lookup k
      = (maps.areas.lookup k).filter fun area => area.flags &&& flags != 0) (type : UInt16) :
    maps'.areasOf type = maps.areas.values.countP
      fun area => area.type == type && area.flags &&& flags != 0 := by
  have hvalues : maps'.areas.values
      = maps.areas.values.filter fun area => area.flags &&& flags != 0 := by
    unfold Pool.values
    rw [filter_filterMap]
    apply filterMap_congr
    intro k _
    exact hlook k
  unfold SpaceMaps.areasOf
  rw [hvalues, countP_filter]

theorem MapCall.inStep_iff {call : MapCall} (hshape : m.Shaped) (hmaps : m.layout h = some maps)
    (hstep : maps.InStep) (hcall : call.exec h m = .ok m') :
    m'.Shaped ∧ ∃ maps', m'.layout h = some maps' ∧ (maps'.InStep ↔ call.Spares h m) := by
  by_cases hunmap : ∃ flags, call = .unmapNotMatching flags
  · obtain ⟨flags, rfl⟩ := hunmap
    obtain ⟨maps0, maps', hbefore, hafter, hshape', _, hlinear, hfile, hlook⟩ :=
      memUnmapNotMatching_ok hshape hcall
    have hsame : maps0 = maps := Option.some.inj (hbefore.symm.trans hmaps)
    subst hsame
    refine ⟨hshape', maps', hafter, ?_⟩
    -- the entries are as before, so the areas must be
    have hkept : ∀ type, maps0.areasOf type = maps'.areasOf type
        ↔ ∀ i area, m.area h i = some area → area.type = type → area.flags &&& flags ≠ 0 := by
      intro type
      rw [areasOf_unmapped hlook, SpaceMaps.areasOf, countP_and_eq_iff]
      constructor
      · intro hall i area harea htype
        rw [area_of_layout hmaps] at harea
        have hmem := (hshape.pools h _ hmaps).areas.mem_values.mpr ⟨i, harea⟩
        exact bne_iff_ne.mp (hall area hmem (beq_iff_eq.mpr htype))
      · intro hall area hmem htype
        obtain ⟨i, hi⟩ := (hshape.pools h _ hmaps).areas.mem_values.mp hmem
        rw [← area_of_layout hmaps] at hi
        exact bne_iff_ne.mpr (hall i area hi (beq_iff_eq.mp htype))
    have hf := hkept areaFile
    have hl := hkept areaLinearMap
    rw [← hstep.file] at hf
    rw [← hstep.linear] at hl
    constructor
    · intro hstep' i area harea htype
      rcases htype with htype | htype
      · exact hf.mp (by rw [← hfile]; exact hstep'.file) i area harea htype
      · exact hl.mp (by rw [← hlinear]; exact hstep'.linear) i area harea htype
    · intro hspares
      refine ⟨?_, ?_⟩
      · rw [hfile]
        exact hf.mpr fun i area harea htype => hspares i area harea (Or.inl htype)
      · rw [hlinear]
        exact hl.mpr fun i area harea htype => hspares i area harea (Or.inr htype)
  · obtain ⟨maps0, maps', files, linears, hcallon, hcounts⟩ := exec_counts hshape
      (fun flags heq => hunmap ⟨flags, heq⟩) hcall
    have hsame : maps0 = maps := Option.some.inj (hcallon.before.symm.trans hmaps)
    subst hsame
    refine ⟨hcallon.shaped, maps', hcallon.after, ?_⟩
    have hspares : call.Spares h m := by
      cases call with
      | unmapNotMatching flags => exact absurd ⟨flags, rfl⟩ hunmap
      | _ => trivial
    refine ⟨fun _ => hspares, fun _ => ⟨?_, ?_⟩⟩
    · rw [hcounts.fileMaps, hcounts.fileAreas, hstep.file]
    · rw [hcounts.linearMaps, hcounts.linearAreas, hstep.linear]

end

/-! ## Runs -/

/-- Nothing but its own areas keeps the space from taking another one: a free range can be
mapped while there are fewer than 32 areas and 16 of the kind. -/
structure AddressSpace.Roomy (space : AddressSpace) : Prop where
  file : ∀ start stop fd offset fileSize flags, space.ClearOf start stop → fd > 2 →
    space.areas.size < 32 → space.areasOf areaFile < 16 →
    ∃ r, space.mapFd start stop fd offset fileSize flags = .ok r
  linear : ∀ start stop physStart flags, space.ClearOf start stop →
    space.areas.size < 32 → space.areasOf areaLinearMap < 16 →
    ∃ r, space.mapLinear start stop physStart flags = .ok r

theorem emplaceAnywhere_of_size_lt {α : Type} {capacity endSentinel : Nat}
    {p : Pool α capacity endSentinel} (hwf : p.WF) (hlt : p.size < capacity) (v : α) :
    ∃ r, p.emplaceAnywhere v = .ok r := by
  have hfull : p.full = false := by
    show decide (p.size ≥ capacity) = false
    rw [decide_eq_false_iff_not]
    omega
  obtain ⟨i, p', hcall, _⟩ := Pool.emplaceAnywhere_spec hwf hfull v
  exact ⟨_, hcall⟩

theorem roomy_of_inStep {space : AddressSpace} (hwf : space.PoolsWF) (hstep : space.InStep) :
    space.Roomy := by
  have hoverlaps : ∀ {start stop}, space.ClearOf start stop →
      space.overlapsExistingArea start stop = .ok false := by
    intro start stop hclear
    obtain ⟨b, hb, hiff⟩ := overlapsExistingArea_eq hwf.areas start stop
    rw [hb, hiff.mpr hclear]
  refine ⟨?_, ?_⟩
  · intro start stop fd offset fileSize flags hclear hfd hareas hfiles
    obtain ⟨⟨k, fileMaps⟩, hmaps⟩ := emplaceAnywhere_of_size_lt hwf.fileMaps
      (by rw [hstep.file]; exact hfiles) ⟨fd, offset, fileSize⟩
    obtain ⟨⟨i, areas⟩, harea⟩ := emplaceAnywhere_of_size_lt hwf.areas hareas
      ⟨start, stop, areaFile, flags, UInt16.ofNat k⟩
    refine ⟨(i, { space with areas := areas, fileMaps := fileMaps }), ?_⟩
    rw [mapFd, hoverlaps hclear, ok_bind, Bool.not_false, check_true, ok_bind,
      decide_eq_true hfd, check_true, ok_bind, hmaps, ok_bind]
    simp only
    rw [harea, ok_bind]
  · intro start stop physStart flags hclear hareas hlinears
    obtain ⟨⟨k, linearMaps⟩, hmaps⟩ := emplaceAnywhere_of_size_lt hwf.linearMaps
      (by rw [hstep.linear]; exact hlinears) ⟨physStart⟩
    obtain ⟨⟨i, areas⟩, harea⟩ := emplaceAnywhere_of_size_lt hwf.areas hareas
      ⟨start, stop, areaLinearMap, flags, UInt16.ofNat k⟩
    refine ⟨(i, { space with areas := areas, linearMaps := linearMaps }), ?_⟩
    rw [mapLinear, hoverlaps hclear, ok_bind, Bool.not_false, check_true, ok_bind,
      addLinear, hmaps, ok_bind]
    simp only
    rw [harea, ok_bind]

/-- The pools of space `h` are in step and it has room. -/
def Memory.InStepAt (h : Nat) (m : Memory) : Prop :=
  ∃ space, m.spaces.lookup h = some space ∧ space.InStep ∧ space.Roomy

/-- `P` holds in every state of a run, up to the first call that stops. -/
def Throughout (h : Nat) (P : Memory → Prop) : List MapCall → Memory → Prop
  | [], m => P m
  | call :: calls, m => P m ∧ ∀ m', call.exec h m = .ok m' → Throughout h P calls m'

/-- No call of the run unmaps a linear or a file area. -/
def Spared (h : Nat) : List MapCall → Memory → Prop
  | [], _ => True
  | call :: calls, m => ∀ m', call.exec h m = .ok m' → call.Spares h m ∧ Spared h calls m'

theorem inStepAt_iff {m : Memory} {h : Nat} (hshape : m.Shaped) {maps : SpaceMaps}
    (hmaps : m.layout h = some maps) : m.InStepAt h ↔ maps.InStep := by
  obtain ⟨space, hlook, rfl⟩ := lookup_of_layout hmaps
  constructor
  · rintro ⟨space', hlook', hstep, _⟩
    rw [hlook] at hlook'
    cases hlook'
    exact hstep
  · intro hstep
    exact ⟨space, hlook, hstep, roomy_of_inStep (hshape.pools h _ hmaps) hstep⟩

theorem throughout_iff_spared {h : Nat} (calls : List MapCall) :
    ∀ {m : Memory}, m.Shaped → m.InStepAt h →
      (Throughout h (Memory.InStepAt h) calls m ↔ Spared h calls m) := by
  induction calls with
  | nil =>
    intro m _ hstep
    exact ⟨fun _ => trivial, fun _ => hstep⟩
  | cons call calls ih =>
    intro m hshape hstep
    obtain ⟨space, hlook, hin, _⟩ := hstep
    have hmaps := layout_of_lookup hlook
    have hstep : m.InStepAt h := (inStepAt_iff hshape hmaps).mpr hin
    constructor
    · rintro ⟨_, hrest⟩ m' hcall
      obtain ⟨hshape', maps', hmaps', hiff⟩ := MapCall.inStep_iff hshape hmaps hin hcall
      -- the state after the call is part of the run
      have hafter : m'.InStepAt h := by
        have hrun := hrest m' hcall
        cases calls with
        | nil => exact hrun
        | cons _ _ => exact hrun.1
      exact ⟨hiff.mp ((inStepAt_iff hshape' hmaps').mp hafter),
        (ih hshape' hafter).mp (hrest m' hcall)⟩
    · intro hspared
      refine ⟨hstep, ?_⟩
      intro m' hcall
      obtain ⟨hspares, hrest⟩ := hspared m' hcall
      obtain ⟨hshape', maps', hmaps', hiff⟩ := MapCall.inStep_iff hshape hmaps hin hcall
      exact (ih hshape' ((inStepAt_iff hshape' hmaps').mpr (hiff.mpr hspares))).mpr hrest

theorem fresh_inStep : AddressSpace.fresh.InStep := by
  refine ⟨?_, ?_⟩
  · show 0 = countP _ (Pool.blank : Pool AreaInfo 32 0xFFFF).values
    rfl
  · show 0 = countP _ (Pool.blank : Pool AreaInfo 32 0xFFFF).values
    rfl

/-- **Areas and entries are in step throughout every run on a space exactly
when the run unmaps no linear and no file area.** -/
theorem entries_inStep {m₀ m : Memory} {h : Nat} (hshape : m₀.Shaped)
    (hcreate : m₀.memCreateSpace = .ok (h, m)) (calls : List MapCall) :
    Throughout h (Memory.InStepAt h) calls m ↔ Spared h calls m := by
  obtain ⟨hshape', _, _, hlook⟩ := memCreateSpace_ok hshape hcreate
  have hfresh : m.spaces.lookup h = some fresh := by rw [hlook, if_pos rfl]
  exact throughout_iff_spared calls hshape'
    ((inStepAt_iff hshape' (layout_of_lookup hfresh)).mpr fresh_inStep)

/-- Memory with one file open as descriptor 3, before and after its first space
is created. -/
def firstBoot : Memory :=
  Memory.boot ⟨0x200000, 0x101000, 0x101000, [], 0x400⟩ (fun _ _ => 0)
    (fun fd => if fd = 3 then some ⟨fun _ => 7, 0x2000, 0⟩ else none)
def firstSpace : Memory := { firstBoot with spaces := Pool.blank.topped AddressSpace.fresh }

theorem firstSpace_created : firstBoot.memCreateSpace = .ok (0, firstSpace) := rfl

theorem firstSpace_shaped : firstSpace.Shaped :=
  (memCreateSpace_ok shaped_boot firstSpace_created).1

theorem firstSpace_fresh : firstSpace.spaces.lookup 0 = some AddressSpace.fresh := by
  obtain ⟨_, _, _, hlook⟩ := memCreateSpace_ok shaped_boot firstSpace_created
  rw [hlook, if_pos rfl]

/-- A page of the file, as `exec` maps it, and the call of the next `exec`. -/
def mapSegment (flags : UInt16) : MapCall := .mapFd 0x1000 0x2000 3 0 0x1000 flags
def nextExec : MapCall := .unmapNotMatching memAreaRetainExec

theorem entries_inStep_retained :
    Throughout 0 (Memory.InStepAt 0) [mapSegment memAreaRetainExec, nextExec] firstSpace := by
  refine (entries_inStep shaped_boot firstSpace_created _).mpr ?_
  intro m₁ hmap
  refine ⟨trivial, ?_⟩
  intro m₂ _
  refine ⟨?_, trivial⟩
  -- the only area is the one that was mapped
  obtain ⟨⟨i, m'⟩, hwith, hmap⟩ := bind_ok.mp hmap
  cases hmap
  obtain ⟨space, space', hspace, hfd, hedit⟩ := withSpace_ok firstSpace_shaped.spaces hwith
  cases hspace
  obtain ⟨_, k, _, hadd, _⟩ := mapFd_ok poolsWF_fresh hfd
  intro j area harea _
  rw [area_of_layout (by rw [hedit.layout, if_pos rfl]), hadd.areas] at harea
  split at harea
  · cases harea
    show memAreaRetainExec &&& memAreaRetainExec ≠ 0
    decide
  · cases harea

def execs (n : Nat) : List MapCall :=
  (List.replicate n [mapSegment memAreaUser, nextExec]).flatten

/-- **Every `exec` leaves an entry behind.** After one there is an entry and no area; after
sixteen the space, without areas, cannot take another one. -/
theorem entries_leak :
    firstSpace.InStepAt 0
      ∧ (runCalls 0 (execs 1) firstSpace).map
          (fun m => (m.layout 0).map fun maps => (maps.fileMaps.size, maps.areasOf areaFile))
        = .ok (some (1, 0))
      ∧ ¬ Throughout 0 (Memory.InStepAt 0) (execs 1) firstSpace
      ∧ (runCalls 0 (execs 16) firstSpace).map
          (fun m => (m.layout 0).map fun maps => maps.areas.size) = .ok (some 0)
      ∧ (runCalls 0 (execs 16 ++ [mapSegment memAreaUser]) firstSpace).map (fun _ => ())
        = .error (.assertion "_data_begin + idx < _data_end") := by
  have hone : (runCalls 0 (execs 1) firstSpace).map (fun m => (m.layout 0).map
      fun maps => (maps.fileMaps.size, maps.areasOf areaFile)) = .ok (some (1, 0)) := by
    decide +kernel
  refine ⟨(inStepAt_iff firstSpace_shaped (layout_of_lookup firstSpace_fresh)).mpr
    fresh_inStep, hone, ?_, by decide +kernel, by decide +kernel⟩
  intro hall
  obtain ⟨m, hrun, hcounts⟩ := map_ok.mp hone
  obtain ⟨m₁, hmap, hrun⟩ := bind_ok.mp hrun
  obtain ⟨m₂, hexec, hrun⟩ := bind_ok.mp hrun
  cases hrun
  obtain ⟨space, hspace, hstep, _⟩ := (hall.2 m₁ hmap).2 m hexec
  rw [layout_of_lookup hspace] at hcounts
  have hpair : (space.fileMaps.size, space.areasOf areaFile) = (1, 0) := Option.some.inj hcounts
  have hentries : space.fileMaps.size = 1 := congrArg Prod.fst hpair
  have hareas : space.areasOf areaFile = 0 := congrArg Prod.snd hpair
  have hfile := hstep.file
  omega

end Peos2.Kernel
