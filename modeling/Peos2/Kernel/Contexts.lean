/-
  Kernel.Contexts — opening files, and making, copying and destroying
  contexts.
-/
import Peos2.Kernel.Descriptors

namespace Peos2.Kernel

open Peos2.Lib Peos2.Support Pool Option

namespace Vfs

variable {σ : Type} {dev : Devices σ} {s s' : Vfs σ} {c fd f : Nat}

/-! ## Opening -/

/-- Whether the driver of the device opens the file. -/
def accepts (dev : Devices σ) (s : Vfs σ) (device : Nat) (path : String) (flags : UInt32) :
    Checked Bool :=
  if device = localDriver then do
    let node ← dev.lookup path
    .ok node.isSome
  else if dev.hasOpen device = false then .ok false
  else do
    let (handle, _) ← dev.openFile s.drivers device path flags
    .ok (decide (0 ≤ handle))

theorem accepts_cases {device : Nat} {path : String} {flags : UInt32} {b : Bool}
    (h : accepts dev s device path flags = .ok b) :
    (device = localDriver ∧ ∃ node, dev.lookup path = .ok node ∧ b = node.isSome) ∨
    (device ≠ localDriver ∧ dev.hasOpen device = false ∧ b = false) ∨
    (device ≠ localDriver ∧ dev.hasOpen device = true ∧ ∃ handle drivers,
      dev.openFile s.drivers device path flags = .ok (handle, drivers) ∧ b = decide (0 ≤ handle)) := by
  unfold accepts at h
  split at h
  next hlocal =>
    obtain ⟨node, hnode, h⟩ := bind_ok.mp h
    exact .inl ⟨hlocal, node, hnode, (Except.ok.inj h).symm⟩
  next hlocal =>
    split at h
    next hopen => exact .inr (.inl ⟨hlocal, hopen, (Except.ok.inj h).symm⟩)
    next hopen =>
      obtain ⟨⟨handle, drivers⟩, hcall, h⟩ := bind_ok.mp h
      exact .inr (.inr ⟨hlocal, Bool.not_eq_false _ ▸ hopen, handle, drivers, hcall,
        (Except.ok.inj h).symm⟩)

structure Opened (s s' : Vfs σ) (c fd f : Nat) (file : OpenedFile) : Prop where
  links : s.Links s' c fd f
  unused : s.descriptor c fd = none
  contexts : ∀ b, (s'.contexts.lookup b).isSome = (s.contexts.lookup b).isSome
  fresh : s.openedFiles.lookup f = none
  files : ∀ g, s'.openedFiles.lookup g = if g = f then some file else s.openedFiles.lookup g
  once : file.refCount = 1
  calls : s'.calls = s.calls ++ [.opened file.device file.deviceLocalHandle]

/-- What the local driver's pool gained by an open. -/
def LocalGained (s s' : Vfs σ) (file : OpenedFile) : Prop :=
  if file.device = localDriver then
    ∃ (n : Nat) (v : LocallyOpenedFile), file.deviceLocalHandle = n
      ∧ s.locallyOpenedFiles.lookup n = none
      ∧ ∀ m, s'.locallyOpenedFiles.lookup m
          = if m = n then some v else s.locallyOpenedFiles.lookup m
  else ∀ m, s'.locallyOpenedFiles.lookup m = s.locallyOpenedFiles.lookup m

variable {file : OpenedFile} {flags : UInt32} {context : Context} {filename : String} {b : Nat}

theorem Inv.add_file (h : s.Inv dev) (hs' : s'.Shaped) (hplace : (c, fd) ∈ places)
    (hopened : s.Opened s' c fd f file) (hgained : s.LocalGained s' file) : s'.Inv dev := by
  have hrefs := hopened.links.refs hplace hopened.unused
  have hzero := h.orphan f hopened.fresh
  have hsessions := sessions_add hs' hopened.fresh hopened.files
  refine ⟨hs', ?_, ?_, ?_, ?_, ?_⟩
  · intro g file' hg
    rw [hopened.files] at hg
    have hg' := hrefs g
    by_cases hgf : g = f
    · rw [if_pos hgf] at hg
      cases hg
      rw [if_pos hgf.symm, hgf] at hg'
      rw [hgf, hg', hopened.once, hzero]
      exact ⟨rfl, by omega⟩
    · rw [if_neg hgf] at hg
      rw [if_neg (Ne.symm hgf)] at hg'
      rw [hg']
      exact h.counted g file' hg
  · intro g hg
    rw [hopened.files] at hg
    by_cases hgf : g = f
    · rw [if_pos hgf] at hg
      cases hg
    · rw [if_neg hgf] at hg
      have hg' := hrefs g
      rw [if_neg (Ne.symm hgf), h.orphan g hg] at hg'
      exact hg'
  · intro g handle hg
    by_cases hgf : g = f
    · -- the new file: its handle is the slot just taken
      have hkey : s'.session f = some (file.device, file.deviceLocalHandle) :=
        session_of_lookup (by rw [hopened.files, if_pos rfl])
      rw [hgf, hkey] at hg
      obtain ⟨hdevice, hhandle⟩ := Prod.mk.inj (some.inj hg)
      unfold LocalGained at hgained
      rw [if_pos hdevice] at hgained
      obtain ⟨n, v, hn, _, hlook⟩ := hgained
      refine ⟨n, by rw [← hhandle, hn], ?_⟩
      rw [hlook]
      simp
    · have hold : s.session g = some (localDriver, handle) := by
        unfold session at hg ⊢
        rw [hopened.files, if_neg hgf] at hg
        exact hg
      obtain ⟨n, hn, hlive⟩ := h.localFile g handle hold
      refine ⟨n, hn, ?_⟩
      unfold LocalGained at hgained
      split at hgained
      next =>
        obtain ⟨m, v, _, _, hlook⟩ := hgained
        rw [hlook]
        split
        · simp
        · exact hlive
      next =>
        rw [hgained]
        exact hlive
  · intro n hn
    have hsum := hsessions localDriver n
    unfold LocalGained at hgained
    split at hgained
    next hdevice =>
      obtain ⟨m, v, hm, hfree, hlook⟩ := hgained
      rw [hlook] at hn
      by_cases hnm : n = m
      · -- the slot was free, so no file had this handle
        have hnone : s.sessions localDriver n = 0 := by
          unfold sessions
          rw [refCount_eq_zero]
          intro g _ hg
          obtain ⟨k, _, hlive⟩ := h.localFile g n hg
          have hkn : k = n := by omega
          rw [hkn, hnm] at hlive
          exact hlive hfree
        rw [hdevice, hm, hnm, if_pos rfl] at hsum
        rw [hnm] at hnone ⊢
        omega
      · rw [if_neg hnm] at hn
        have hother : ¬ (file.device, file.deviceLocalHandle) = (localDriver, (n : Int)) := by
          intro hc
          have := (Prod.mk.inj hc).2
          omega
        rw [if_neg hother] at hsum
        rw [hsum]
        exact h.localOnce n hn
    next hdevice =>
      rw [hgained] at hn
      rw [if_neg (fun hc => hdevice (Prod.mk.inj hc).1)] at hsum
      rw [hsum]
      exact h.localOnce n hn
  · intro device handle hclose
    have hold := h.logged device handle hclose
    have hsum := hsessions device handle
    rw [hopened.calls, List.count_append, List.count_append, List.count_singleton,
      List.count_singleton]
    have hno : ((DriverCall.opened file.device file.deviceLocalHandle)
        == DriverCall.closed device handle) = false := by
      simp
    rw [hno]
    by_cases hsame : (file.device, file.deviceLocalHandle) = (device, handle)
    · obtain ⟨hdevice, hhandle⟩ := Prod.mk.inj hsame
      rw [if_pos hsame] at hsum
      rw [hdevice, hhandle, if_pos (by simp)]
      simp only [Bool.false_eq_true, if_false]
      omega
    rw [if_neg hsame] at hsum
    rw [if_neg]
    · simp only [Bool.false_eq_true, if_false]
      omega
    · intro hc
      rw [beq_iff_eq] at hc
      injection hc with hd' hh'
      exact hsame (by rw [hd', hh'])

theorem Inv.locals_le (h : s.Inv dev) : s.locallyOpenedFiles.size ≤ s.openedFiles.size := by
  rw [← h.shaped.locals.length_indices, ← h.shaped.files.length_values]
  have hsub : s.locallyOpenedFiles.indices.map (fun n : Nat => (localDriver, (n : Int)))
      ⊆ s.openedFiles.values.map (fun file => (file.device, file.deviceLocalHandle)) := by
    intro key hkey
    obtain ⟨n, hn, rfl⟩ := List.mem_map.mp hkey
    obtain ⟨v, hv⟩ := h.shaped.locals.mem_indices.mp hn
    have hone := h.localOnce n (by rw [hv]; simp)
    obtain ⟨g, _, hg⟩ := refCount_pos.mp (show 0 < s.sessions localDriver n by omega)
    obtain ⟨file, hfile, hfkey⟩ := map_eq_some_iff.mp hg
    exact List.mem_map.mpr ⟨file, h.shaped.files.mem_values.mpr ⟨g, hfile⟩, hfkey⟩
  have hnodup : (s.locallyOpenedFiles.indices.map fun n : Nat => (localDriver, (n : Int))).Nodup := by
    apply List.Nodup.map
    · intro a b hab
      have := (Prod.mk.inj hab).2
      omega
    · exact (pairwise_indices _).imp Nat.ne_of_lt
  have hle := (List.subperm_of_subset hnodup hsub).length_le
  simpa using hle

theorem Inv.locals_room (h : s.Inv dev) (hfull : s.openedFiles.full = false) :
    s.locallyOpenedFiles.full = false := by
  have hle : s.locallyOpenedFiles.count ≤ s.openedFiles.count := h.locals_le
  have hlt : s.openedFiles.count < 64 := by simpa [full] using hfull
  unfold full
  rw [decide_eq_false_iff_not]
  omega

theorem driverOpen_accepts (h : s.Inv dev) {device : Nat} {path : String}
    (haccepts : accepts dev s device path flags = .ok true)
    (hroom : s.locallyOpenedFiles.full = false) :
    ∃ handle s1, s.driverOpen dev device path flags = .ok (handle, s1) ∧ 0 ≤ handle
      ∧ s1.contexts = s.contexts ∧ s1.openedFiles = s.openedFiles
      ∧ s1.locallyOpenedFiles.WF ∧ s.LocalGained s1 ⟨device, handle, flags, 1⟩
      ∧ s1.calls = s.calls ++ [.opened device handle] := by
  unfold driverOpen LocalGained
  rcases accepts_cases haccepts with
    ⟨hlocal, node, hnode, hsome⟩ | ⟨_, _, hfalse⟩ | ⟨hlocal, _, handle, drivers, hcall, haccepted⟩
  · obtain ⟨node, rfl⟩ := isSome_iff_exists.mp hsome.symm
    obtain ⟨n, files, hput, hwf, hfree, hlook⟩ :=
      emplaceAnywhere_spec h.shaped.locals hroom ⟨node, 0⟩
    refine ⟨n, { s with
      locallyOpenedFiles := files, calls := s.calls ++ [.opened localDriver n] }, ?_,
      by omega, rfl, rfl, hwf, ?_, by rw [hlocal]⟩
    · rw [if_pos hlocal]
      unfold openLocally
      simp only [hnode, hput, ok_bind]
    · rw [if_pos hlocal]
      exact ⟨n, ⟨node, 0⟩, rfl, hfree, hlook⟩
  · cases hfalse
  · have hpos : 0 ≤ handle := of_decide_eq_true haccepted.symm
    rw [if_neg hlocal, hcall, ok_bind]
    refine ⟨_, _, rfl, hpos, rfl, rfl, h.shaped.locals, ?_, ?_⟩
    · rw [if_neg hlocal]
      exact fun _ => rfl
    · exact if_neg (Int.not_lt.mpr hpos)

section

variable {device : Nat} {restPath : String} (hlocate : dev.locate filename = .ok (device, restPath))

include hlocate

/-- An open whose driver is found goes on to ask it. -/
theorem openPath_located (hc : s.contexts.lookup c = some context)
    (haccepts : accepts dev s device restPath flags = .ok true) :
    s.openPath dev c filename flags = s.driverOpen dev device restPath flags >>= fun r =>
      r.2.addOpened c device flags r.1 := by
  have hdriver : ¬ (device ≠ localDriver ∧ dev.hasOpen device = false) := by
    rintro ⟨hremote, hno⟩
    unfold accepts at haccepts
    rw [if_neg hremote, if_pos hno] at haccepts
    cases haccepts
  unfold openPath
  rw [get_spec hc, ok_bind, hlocate, ok_bind]
  simp only
  rw [if_neg hdriver]

/-- `vfs_open` of a file its driver accepts, with room in both pools,
returns a new descriptor on a new file. -/
theorem openPath_accepts (h : s.Inv dev) (hc : s.contexts.lookup c = some context)
    (haccepts : accepts dev s device restPath flags = .ok true)
    (hfiles : s.openedFiles.full = false) (hdescriptors : context.descriptors.full = false) :
    ∃ fd s' f file, s.openPath dev c filename flags = .ok (.ok fd, s') ∧ s'.Inv dev
      ∧ s.Opened s' c fd f file := by
  obtain ⟨handle, s1, hdrv, _, h1c, h1f, h1wf, hgained, h1calls⟩ :=
    driverOpen_accepts h haccepts (h.locals_room hfiles)
  obtain ⟨f, files, hput, hfwf, hfresh, hflook⟩ := emplaceAnywhere_spec h.shaped.files hfiles
      (⟨device, handle, flags, 1⟩ : OpenedFile)
  obtain ⟨fd, descriptors, hdput, hdwf, hunused, hdlook⟩ :=
    emplaceAnywhere_spec (h.shaped.descriptors c context hc) hdescriptors f
  obtain ⟨contexts, hset, hcwf, hclook, hdeswf⟩ := h.shaped.set_context hc hdwf
  have hopened : s.Opened { s1 with contexts := contexts, openedFiles := files } c fd f
      ⟨device, handle, flags, 1⟩ := by
    refine ⟨?_, ?_, isSome_of_set hc hclook, hfresh, hflook, rfl, h1calls⟩
    · exact links_of_set hc hdlook hclook rfl
    · rw [descriptor_of_lookup hc, hunused]
  have hfd : fd < 16 := Shaped.lt_capacity hdwf (show descriptors.lookup fd = some f by
    rw [hdlook, if_pos rfl])
  refine ⟨fd, { s1 with contexts := contexts, openedFiles := files }, f, _, ?_, ?_, hopened⟩
  · rw [openPath_located hlocate hc haccepts, hdrv, ok_bind, addOpened]
    rw [if_neg (by omega), h1f, hput, ok_bind]
    simp only [h1c, get_spec hc, ok_bind, hdput, hset]
  · exact h.add_file ⟨hcwf, hdeswf, hfwf, h1wf⟩
      (mem_places.mpr ⟨Shaped.lt_capacity h.shaped.contexts hc, hfd⟩) hopened hgained

/-- `vfs_open` of a file its driver does not open returns the error and
changes neither the descriptors nor the opened files. -/
theorem openPath_refuses (hc : s.contexts.lookup c = some context)
    (hrefuses : accepts dev s device restPath flags = .ok false) :
    ∃ e drivers, s.openPath dev c filename flags = .ok (.error e, { s with drivers := drivers })
      ∧ e < 0 := by
  unfold openPath
  rw [get_spec hc, ok_bind, hlocate, ok_bind]
  simp only
  rcases accepts_cases hrefuses with
    ⟨hlocal, node, hnode, hnone⟩ | ⟨hlocal, hopen, _⟩ | ⟨hlocal, hopen, handle, drivers, hcall, hrefused⟩
  · refine ⟨ENOENT, s.drivers, ?_, by decide⟩
    rw [if_neg (fun hcon => hcon.1 hlocal)]
    unfold driverOpen
    rw [if_pos hlocal]
    unfold openLocally
    cases node with
    | none =>
      rw [hnode]
      rfl
    | some n => cases hnone
  · refine ⟨ENOSUPPORT, s.drivers, ?_, by decide⟩
    rw [if_pos ⟨hlocal, hopen⟩]
  · have hneg : handle < 0 := Int.not_le.mp (of_decide_eq_false hrefused.symm)
    refine ⟨handle, drivers, ?_, hneg⟩
    rw [if_neg (fun hcon => by rw [hopen] at hcon; cases hcon.2)]
    unfold driverOpen
    rw [if_neg hlocal, hcall, ok_bind, ok_bind, addOpened]
    rw [if_pos hneg, if_pos hneg]

/-- `vfs_open` of a file its driver accepts, with a pool full, fails an
assertion. -/
theorem openPath_full (h : s.Inv dev) (hc : s.contexts.lookup c = some context)
    (haccepts : accepts dev s device restPath flags = .ok true)
    (hfull : s.openedFiles.full = true ∨ context.descriptors.full = true) :
    s.openPath dev c filename flags = .error (.assertion "_data_begin + idx < _data_end") := by
  rw [openPath_located hlocate hc haccepts]
  cases hlocals : s.locallyOpenedFiles.full with
  | false =>
    obtain ⟨handle, s1, hdrv, _, h1c, h1f, _⟩ := driverOpen_accepts h haccepts hlocals
    rw [hdrv, ok_bind, addOpened]
    rw [if_neg (by omega), h1f]
    cases hfiles : s.openedFiles.full with
    | true => rw [emplaceAnywhere_full h.shaped.files hfiles, error_bind]
    | false =>
      obtain ⟨f, files, hput, _⟩ := emplaceAnywhere_spec h.shaped.files hfiles
        (⟨device, handle, flags, 1⟩ : OpenedFile)
      have hdesc : context.descriptors.full = true := hfull.resolve_left (by rw [hfiles]; simp)
      rw [hput, ok_bind]
      simp only [h1c, get_spec hc, ok_bind,
        emplaceAnywhere_full (h.shaped.descriptors c context hc) hdesc, error_bind]
  | true =>
    have hfiles : s.openedFiles.full = true := by
      by_contra hno
      have := h.locals_room (Bool.not_eq_true _ ▸ hno)
      rw [hlocals] at this
      cases this
    unfold driverOpen
    rcases accepts_cases haccepts with
      ⟨hlocal, node, hnode, hsome⟩ | ⟨_, _, hfalse⟩ | ⟨hlocal, _, handle, drivers, hcall, haccepted⟩
    · -- the local driver's own pool is full already
      obtain ⟨node, rfl⟩ := isSome_iff_exists.mp hsome.symm
      rw [if_pos hlocal]
      unfold openLocally
      simp only [hnode, ok_bind, emplaceAnywhere_full h.shaped.locals hlocals, error_bind]
    · cases hfalse
    · rw [if_neg hlocal, hcall, ok_bind, ok_bind, addOpened]
      rw [if_neg (Int.not_lt.mpr (of_decide_eq_true haccepted.symm)),
        emplaceAnywhere_full h.shaped.files hfiles, error_bind]

end

/-- `vfs_open` only returns if the driver is found and answers. -/
theorem openPath_answered {r : Except Int Nat} (hcall : s.openPath dev c filename flags = .ok (r, s')) :
    ∃ device restPath accepted, dev.locate filename = .ok (device, restPath)
      ∧ accepts dev s device restPath flags = .ok accepted := by
  obtain ⟨_, _, hcall⟩ := bind_ok.mp hcall
  obtain ⟨⟨device, restPath⟩, hlocate, hcall⟩ := bind_ok.mp hcall
  suffices hanswers : ∃ accepted, accepts dev s device restPath flags = .ok accepted by
    obtain ⟨accepted, haccepts⟩ := hanswers
    exact ⟨device, restPath, accepted, hlocate, haccepts⟩
  unfold accepts
  split
  next hlocal =>
    simp only at hcall
    rw [if_neg (fun hcon => hcon.1 hlocal)] at hcall
    obtain ⟨_, hdriver, _⟩ := bind_ok.mp hcall
    rw [driverOpen, if_pos hlocal] at hdriver
    obtain ⟨node, hnode, _⟩ := bind_ok.mp hdriver
    exact ⟨_, by rw [hnode, ok_bind]⟩
  next hlocal =>
    split
    · exact ⟨_, rfl⟩
    next hopen =>
      simp only at hcall
      rw [if_neg (fun hcon => hopen hcon.2)] at hcall
      obtain ⟨_, hdriver, _⟩ := bind_ok.mp hcall
      rw [driverOpen, if_neg hlocal] at hdriver
      obtain ⟨r, hcalled, _⟩ := bind_ok.mp hdriver
      exact ⟨_, by rw [hcalled, ok_bind]⟩

/-! ## What a call leaves of a context -/

/-- The same file of the same driver, opened with the same flags. -/
def SameFile (file file' : OpenedFile) : Prop :=
  file'.device = file.device ∧ file'.deviceLocalHandle = file.deviceLocalHandle
    ∧ file'.flags = file.flags

/-- Context `b` maps its descriptors as before, and what they refer to is
still open. -/
structure Keeps (b : Nat) (s s' : Vfs σ) : Prop where
  alive : (s'.contexts.lookup b).isSome = (s.contexts.lookup b).isSome
  descriptors : ∀ d, s'.descriptor b d = s.descriptor b d
  files : ∀ d g file, s.descriptor b d = some g → s.openedFiles.lookup g = some file →
    ∃ file', s'.openedFiles.lookup g = some file' ∧ SameFile file file'

theorem Keeps.refl (b : Nat) (s : Vfs σ) : Keeps b s s :=
  ⟨rfl, fun _ => rfl, fun _ _ file _ hf => ⟨file, hf, rfl, rfl, rfl⟩⟩

theorem Keeps.trans {s1 s2 s3 : Vfs σ} (h1 : Keeps b s1 s2) (h2 : Keeps b s2 s3) :
    Keeps b s1 s3 := by
  refine ⟨h2.alive.trans h1.alive, fun d => (h2.descriptors d).trans (h1.descriptors d), ?_⟩
  intro d g file hd hf
  obtain ⟨file', hf', hsame⟩ := h1.files d g file hd hf
  obtain ⟨file'', hf'', hsame'⟩ := h2.files d g file' ((h1.descriptors d).trans hd) hf'
  exact ⟨file'', hf'', hsame'.1.trans hsame.1, hsame'.2.1.trans hsame.2.1,
    hsame'.2.2.trans hsame.2.2⟩

theorem Closed.keeps (h : s.Inv dev) (h' : s'.Inv dev) (hd : s.descriptor c fd = some f)
    (hf : s.openedFiles.lookup f = some file) (hclosed : s.Closed dev s' c fd f file) (hb : b ≠ c) :
    Keeps b s s' := by
  have htable : ∀ d, s'.descriptor b d = s.descriptor b d := by
    intro d
    rw [hclosed.unlinks, if_neg (fun hc => hb hc.1)]
  refine ⟨hclosed.contexts b, htable, ?_⟩
  intro d g old hg hold
  by_cases hgf : g = f
  · subst hgf
    have hleft : 0 < s'.refs g := h'.shaped.refs_pos.mpr ⟨b, d, (htable d).trans hg⟩
    have hsum := hclosed.unlinks.refs h.shaped hd g
    rw [if_pos rfl] at hsum
    rw [hf] at hold
    cases hold
    exact ⟨_, (hclosed.more (by omega)).1, rfl, rfl, rfl⟩
  · exact ⟨old, (hclosed.others g hgf).trans hold, rfl, rfl, rfl⟩

theorem Linked.keeps (hf : s.openedFiles.lookup f = some file) (hlinked : s.Linked s' c fd f file)
    (hb : b ≠ c) : Keeps b s s' := by
  refine ⟨hlinked.contexts b, ?_, ?_⟩
  · intro d
    rw [hlinked.links, if_neg (fun hc => hb hc.1)]
  · intro d g old _ hold
    by_cases hgf : g = f
    · rw [hgf, hf] at hold
      cases hold
      refine ⟨{ file with refCount := file.refCount + 1 }, ?_, rfl, rfl, rfl⟩
      rw [hgf]
      exact hlinked.entry
    · exact ⟨old, (hlinked.others g hgf).trans hold, rfl, rfl, rfl⟩

theorem Opened.keeps (hopened : s.Opened s' c fd f file) (hb : b ≠ c) : Keeps b s s' := by
  refine ⟨hopened.contexts b, ?_, ?_⟩
  · intro d
    rw [hopened.links, if_neg (fun hc => hb hc.1)]
  · intro d g old _ hold
    have hgf : g ≠ f := by
      rintro rfl
      rw [hopened.fresh] at hold
      cases hold
    exact ⟨old, by rw [hopened.files, if_neg hgf, hold], rfl, rfl, rfl⟩

theorem keeps_drivers (b : Nat) (s : Vfs σ) (drivers : σ) :
    Keeps b s { s with drivers := drivers } :=
  ⟨rfl, fun _ => rfl, fun _ _ file _ hf => ⟨file, hf, rfl, rfl, rfl⟩⟩

theorem Inv.congr (h : s.Inv dev) (hs' : s'.Shaped)
    (htable : ∀ b d, s'.descriptor b d = s.descriptor b d) (hfiles : s'.openedFiles = s.openedFiles)
    (hlocals : s'.locallyOpenedFiles = s.locallyOpenedFiles) (hcalls : s'.calls = s.calls) :
    s'.Inv dev := by
  have hsession : ∀ g, s'.session g = s.session g := by
    intro g
    unfold session
    rw [hfiles]
  refine ⟨hs', ?_, ?_, ?_, ?_, ?_⟩
  · intro g file hg
    rw [refs_congr htable]
    exact h.counted g file (hfiles ▸ hg)
  · intro g hg
    rw [refs_congr htable]
    exact h.orphan g (hfiles ▸ hg)
  · intro g handle hg
    rw [hsession] at hg
    rw [hlocals]
    exact h.localFile g handle hg
  · intro n hn
    rw [hlocals] at hn
    rw [sessions_congr hsession]
    exact h.localOnce n hn
  · intro device handle hclose
    rw [hcalls, sessions_congr hsession]
    exact h.logged device handle hclose

theorem Inv.drivers (h : s.Inv dev) (drivers : σ) :
    ({ s with drivers := drivers } : Vfs σ).Inv dev :=
  h.congr ⟨h.shaped.contexts, h.shaped.descriptors, h.shaped.files, h.shaped.locals⟩
    (fun _ _ => rfl) rfl rfl rfl

/-! ## Contexts -/

theorem createContext_full (hfull : s.contexts.full = true) :
    s.createContext = .ok (.error ENOSPACE, s) := by
  unfold createContext
  rw [if_pos hfull]

theorem createContext_spec (h : s.Inv dev) (hroom : s.contexts.full = false) :
    ∃ n s', s.createContext = .ok (.ok n, s') ∧ s'.Inv dev ∧ s.contexts.lookup n = none
      ∧ (s'.contexts.lookup n).isSome ∧ (∀ b d, s'.descriptor b d = s.descriptor b d)
      ∧ ∀ b, b ≠ n → Keeps b s s' := by
  obtain ⟨n, contexts, hput, hcwf, hfree, hclook⟩ :=
    emplaceAnywhere_spec h.shaped.contexts hroom (⟨blank⟩ : Context)
  let s1 : Vfs σ := { s with contexts := contexts }
  have htable : ∀ b d, s1.descriptor b d = s.descriptor b d := by
    intro b d
    rw [descriptor_of_set hclook rfl b d]
    by_cases hb : b = n
    · rw [if_pos hb, hb, descriptor_none_of_dead hfree]
      exact lookup_blank d
    · rw [if_neg hb]
  have hdeswf : ∀ b context, contexts.lookup b = some context → context.descriptors.WF := by
    intro b context hb
    rw [hclook] at hb
    split at hb
    · cases hb
      exact blank_wf (by decide)
    · exact h.shaped.descriptors b context hb
  refine ⟨n, s1, ?_, h.congr ⟨hcwf, hdeswf, h.shaped.files, h.shaped.locals⟩ htable rfl rfl rfl,
    hfree, ?_, htable, ?_⟩
  · unfold createContext
    rw [if_neg (by rw [hroom]; simp), hput, ok_bind]
  · show (contexts.lookup n).isSome = true
    rw [hclook, if_pos rfl]
    rfl
  · intro b hb
    refine ⟨?_, htable b, fun _ _ file _ hf => ⟨file, hf, rfl, rfl, rfl⟩⟩
    show (contexts.lookup b).isSome = _
    rw [hclook, if_neg hb]

theorem erase_context (h : s.Inv dev) (hlive : (s.contexts.lookup c).isSome)
    (hclosed : ∀ d, s.descriptor c d = none) :
    ∃ contexts, s.contexts.erase c = .ok contexts
      ∧ ({ s with contexts := contexts } : Vfs σ).Inv dev ∧ contexts.lookup c = none
      ∧ ∀ b, b ≠ c → Keeps b s { s with contexts := contexts } := by
  obtain ⟨context, hc⟩ := isSome_iff_exists.mp hlive
  obtain ⟨contexts, herase, hcwf, hclook⟩ := erase_spec h.shaped.contexts hc
  have htable : ∀ b d, ({ s with contexts := contexts } : Vfs σ).descriptor b d
      = s.descriptor b d := by
    intro b d
    by_cases hb : b = c
    · rw [hb, hclosed]
      apply descriptor_none_of_dead
      show contexts.lookup c = none
      rw [hclook, if_pos rfl]
    · unfold descriptor
      rw [hclook, if_neg hb]
  refine ⟨contexts, herase, h.congr ⟨hcwf, ?_, h.shaped.files, h.shaped.locals⟩ htable rfl rfl rfl,
    by rw [hclook, if_pos rfl], ?_⟩
  · intro b context' hb
    have hb' : contexts.lookup b = some context' := hb
    rw [hclook] at hb'
    split at hb'
    · cases hb'
    · exact h.shaped.descriptors b context' hb'
  · intro b hb
    refine ⟨?_, htable b, fun _ _ file _ hf => ⟨file, hf, rfl, rfl, rfl⟩⟩
    show (contexts.lookup b).isSome = _
    rw [hclook, if_neg hb]

/-- The state in the middle of a loop that closes descriptors of `c`. -/
structure Closing (dev : Devices σ) (c : Nat) (s s₀ : Vfs σ) : Prop where
  inv : s.Inv dev
  live : (s.contexts.lookup c).isSome
  keeps : ∀ b, b ≠ c → Keeps b s₀ s

theorem Closing.close {s0 : Vfs σ} (h : s.Closing dev c s0) {i : Nat}
    (hd : s.descriptor c i = some f) : ∃ r s', s.close dev c i = .ok (r, s')
      ∧ s'.Closing dev c s0 ∧ s.Unlinks s' c i := by
  obtain ⟨file, hf⟩ := h.inv.file_of_descriptor hd
  obtain ⟨s', hcall, hinv, hclosed⟩ := close_spec h.inv hd hf
  refine ⟨_, s', hcall, ⟨hinv, ?_, ?_⟩, hclosed.unlinks⟩
  · rw [hclosed.contexts]
    exact h.live
  · intro b hb
    exact (h.keeps b hb).trans (hclosed.keeps h.inv hinv hd hf hb)

/-- `vfs_destroy_context` closes every descriptor of the context and then
removes it. -/
theorem destroyContext_spec (h : s.Inv dev) (hlive : (s.contexts.lookup c).isSome) :
    ∃ s', s.destroyContext dev c = .ok s' ∧ s'.Inv dev ∧ s'.contexts.lookup c = none
      ∧ ∀ b, b ≠ c → Keeps b s s' := by
  -- before round `i` the descriptors below `i` are closed
  obtain ⟨s1, j, hloop, ⟨hmid, hdone⟩, hrest⟩ := forDescriptors_spec (s := s) c (closeEach dev c)
    (fun i s1 => s1.Closing dev c s ∧ ∀ d < i, s1.descriptor c d = none)
    (fun i s1 hP => ⟨hP.1.inv.shaped, hP.1.live⟩)
    (fun i s1 hP hnone => ⟨hP.1, fun d hd => by
      by_cases hdi : d = i
      · rw [hdi, hnone]
      · exact hP.2 d (by omega)⟩)
    (fun i s1 f hP hd => by
      obtain ⟨r, s2, hcall, hclosing, hunlinks⟩ := hP.1.close hd
      refine ⟨s2, by rw [closeEach, hcall, ok_bind], hclosing, ?_⟩
      intro d hdi
      rw [hunlinks]
      split
      · rfl
      · next hne => exact hP.2 d (by omega))
    ⟨⟨h, hlive, fun b _ => Keeps.refl b s⟩, by omega⟩
  have hclosed : ∀ d, s1.descriptor c d = none := by
    intro d
    by_cases hd : d < j
    · exact hdone d hd
    · exact hrest d (by omega)
  obtain ⟨contexts, herase, hinv, hgone, hkeeps⟩ := erase_context hmid.inv hmid.live hclosed
  refine ⟨{ s1 with contexts := contexts }, ?_, hinv, hgone, ?_⟩
  · unfold destroyContext
    rw [hloop, ok_bind, herase, ok_bind]
  · intro b hb
    exact (hmid.keeps b hb).trans (hkeeps b hb)

/-- `vfs_close_not_matching` closes descriptors of its context only. -/
theorem closeNotMatching_spec (h : s.Inv dev) (hlive : (s.contexts.lookup c).isSome)
    (flags : UInt32) : ∃ s', s.closeNotMatching dev c flags = .ok s' ∧ s'.Inv dev
      ∧ (s'.contexts.lookup c).isSome ∧ ∀ b, b ≠ c → Keeps b s s' := by
  obtain ⟨s', j, hloop, hmid, _⟩ := forDescriptors_spec (s := s) c (closeUnflagged dev c flags)
    (fun _ s1 => s1.Closing dev c s)
    (fun i s1 hP => ⟨hP.inv.shaped, hP.live⟩)
    (fun i s1 hP _ => hP)
    (fun i s1 f hP hd => by
      obtain ⟨context, hc, hfd⟩ := descriptor_some hd
      obtain ⟨file, hf⟩ := hP.inv.file_of_descriptor hd
      obtain ⟨r, s2, hcall, hclosing, _⟩ := hP.close hd
      rw [closeUnflagged, get_spec hc, ok_bind, get_spec hfd, ok_bind, get_spec hf, ok_bind]
      by_cases hmatch : file.flags &&& flags = 0
      · exact ⟨s2, by rw [if_pos hmatch, closeEach, hcall, ok_bind], hclosing⟩
      · exact ⟨s1, by rw [if_neg hmatch], hP⟩)
    ⟨h, hlive, fun b _ => Keeps.refl b s⟩
  exact ⟨s', hloop, hmid.inv, hmid.live, hmid.keeps⟩

/-- The state in the middle of copying context `c` to context `n`. -/
structure Copying (dev : Devices σ) (c n i : Nat) (s s₀ : Vfs σ) : Prop where
  inv : s.Inv dev
  live : (s.contexts.lookup n).isSome
  source : (s.contexts.lookup c).isSome
  copied : ∀ d < i, s.descriptor n d = s.descriptor c d
  toCopy : ∀ d, i ≤ d → s.descriptor n d = none
  keeps : ∀ b, b ≠ n → Keeps b s₀ s

theorem Copying.round {n i : Nat} {s0 : Vfs σ} (h : s.Copying dev c n i s0) (hcn : c ≠ n)
    (hd : s.descriptor c i = some f) :
    ∃ r s', s.aliasFd dev c i n i = .ok (r, s') ∧ s'.Copying dev c n (i + 1) s0 := by
  obtain ⟨file, hf⟩ := h.inv.file_of_descriptor hd
  obtain ⟨dest, hdest⟩ := isSome_iff_exists.mp h.live
  have hroom := (mem_places.mp (h.inv.shaped.mem_places_of_descriptor hd)).2
  obtain ⟨s', hcall, hinv, hlinked⟩ := aliasFd_spec h.inv hd hf hdest hroom (h.toCopy i (by omega))
  have hkept := hlinked.keeps hf hcn
  refine ⟨0, s', hcall, hinv, ?_, ?_, ?_, ?_, ?_⟩
  · rw [hlinked.contexts]
    exact h.live
  · rw [hlinked.contexts]
    exact h.source
  · intro d hdi
    rw [hlinked.links, hkept.descriptors]
    by_cases heq : d = i
    · rw [if_pos ⟨rfl, heq⟩, heq, hd]
    · rw [if_neg (fun hcon => heq hcon.2)]
      exact h.copied d (by omega)
  · intro d hdi
    rw [hlinked.links, if_neg (by omega)]
    exact h.toCopy d (by omega)
  · intro b hb
    exact (h.keeps b hb).trans (hlinked.keeps hf hb)

/-- `vfs_fork_context` makes a context with the same descriptors on the same
files. -/
theorem forkContext_spec (h : s.Inv dev) (hlive : (s.contexts.lookup c).isSome)
    (hroom : s.contexts.full = false) :
    ∃ n s', s.forkContext dev c = .ok (.ok n, s') ∧ s'.Inv dev ∧ s.contexts.lookup n = none
      ∧ (s'.contexts.lookup n).isSome ∧ (∀ d, s'.descriptor n d = s.descriptor c d)
      ∧ ∀ b, b ≠ n → Keeps b s s' := by
  obtain ⟨n, s1, hcreate, hinv, hfree, hnew, htable, hkeeps⟩ := createContext_spec h hroom
  have hcn : c ≠ n := by
    rintro rfl
    rw [hfree] at hlive
    cases hlive
  obtain ⟨s', j, hloop, hmid, hrest⟩ := forDescriptors_spec (s := s1) c (aliasEach dev c n)
    (fun i s2 => s2.Copying dev c n i s)
    (fun i s2 hP => ⟨hP.inv.shaped, hP.source⟩)
    (fun i s2 hP hnone => ⟨hP.inv, hP.live, hP.source, fun d hd => by
        by_cases hdi : d = i
        · rw [hdi, hnone, hP.toCopy i (by omega)]
        · exact hP.copied d (by omega),
      fun d hd => hP.toCopy d (by omega), hP.keeps⟩)
    (fun i s2 f hP hd => by
      obtain ⟨r, s3, hcall, hround⟩ := hP.round hcn hd
      exact ⟨s3, by rw [aliasEach, hcall, ok_bind], hround⟩)
    ⟨hinv, hnew, by rw [(hkeeps c hcn).alive]; exact hlive, by omega,
      fun d _ => by rw [htable, descriptor_none_of_dead hfree], hkeeps⟩
  refine ⟨n, s', ?_, hmid.inv, hfree, hmid.live, ?_, hmid.keeps⟩
  · unfold forkContext
    rw [hcreate, ok_bind]
    simp only
    rw [hloop, ok_bind]
  · intro d
    rw [← (hmid.keeps c hcn).descriptors]
    by_cases hd : d < j
    · exact hmid.copied d hd
    · rw [hmid.toCopy d (by omega), hrest d (by omega)]

end Vfs

end Peos2.Kernel
