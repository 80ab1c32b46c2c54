/-
  Kernel.Descriptors — what each call of the file system does to the descriptors, the
  opened files and the drivers.

  All descriptors of all contexts are one table of references into `opened_files`.
  `Vfs.Inv` says that the table and the counts agree, that the local driver's pool
  holds what the opened files name, and that the calls made to drivers add up.
-/
import Mathlib.Data.List.ProdSigma
import Peos2.Kernel.Filesystem
import Peos2.Lib.References

namespace Peos2.Kernel

open Peos2.Lib Peos2.Support List Pool Option

namespace Vfs

variable {σ : Type}

/-! ## The table of descriptors -/

def descriptor (s : Vfs σ) (c fd : Nat) : Option Nat :=
  match s.contexts.lookup c with
  | some context => context.descriptors.lookup fd
  | none => none

def places : List (Nat × Nat) := List.range 64 ×ˢ List.range 16

def refs (s : Vfs σ) (f : Nat) : Nat := refCount places (fun p => s.descriptor p.1 p.2) f

def session (s : Vfs σ) (f : Nat) : Option (Nat × Int) :=
  (s.openedFiles.lookup f).map fun file => (file.device, file.deviceLocalHandle)

/-- How many opened files the driver knows by this handle. -/
def sessions (s : Vfs σ) (device : Nat) (handle : Int) : Nat :=
  refCount (List.range 64) s.session (device, handle)

theorem nodup_places : places.Nodup := List.Nodup.product nodup_range nodup_range

theorem mem_places {p : Nat × Nat} : p ∈ places ↔ p.1 < 64 ∧ p.2 < 16 := by
  exact pair_mem_product.trans (and_congr mem_range mem_range)

structure Shaped (s : Vfs σ) : Prop where
  contexts : s.contexts.WF
  descriptors : ∀ c context, s.contexts.lookup c = some context → context.descriptors.WF
  files : s.openedFiles.WF
  locals : s.locallyOpenedFiles.WF

variable {s s' : Vfs σ} {c fd f : Nat}

theorem descriptor_of_lookup {context : Context} (h : s.contexts.lookup c = some context) :
    s.descriptor c fd = context.descriptors.lookup fd := by
  unfold descriptor
  rw [h]

theorem descriptor_some (h : s.descriptor c fd = some f) :
    ∃ context, s.contexts.lookup c = some context ∧ context.descriptors.lookup fd = some f := by
  unfold descriptor at h
  split at h
  next context hc => exact ⟨context, hc, h⟩
  next => cases h

theorem descriptor_none_of_dead (h : s.contexts.lookup c = none) : s.descriptor c fd = none := by
  unfold descriptor
  rw [h]

namespace Shaped

theorem lt_capacity {α : Type} {capacity : Nat} {p : Pool α capacity 0xFFFF} (h : p.WF) {i : Nat}
    {v : α} (hi : p.lookup i = some v) : i < capacity :=
  Nat.lt_of_lt_of_le (lookup_lt_watermark hi) h.room

theorem mem_places_of_descriptor (h : s.Shaped) (hd : s.descriptor c fd = some f) :
    (c, fd) ∈ places := by
  obtain ⟨context, hc, hfd⟩ := descriptor_some hd
  exact mem_places.mpr ⟨lt_capacity h.contexts hc, lt_capacity (h.descriptors c context hc) hfd⟩

theorem refs_pos (h : s.Shaped) : 0 < s.refs f ↔ ∃ c fd, s.descriptor c fd = some f := by
  unfold refs
  rw [refCount_pos]
  constructor
  · rintro ⟨p, _, hp⟩
    exact ⟨p.1, p.2, hp⟩
  · rintro ⟨c, fd, hd⟩
    exact ⟨(c, fd), h.mem_places_of_descriptor hd, hd⟩

theorem set_context (h : s.Shaped) {context : Context} (hc : s.contexts.lookup c = some context)
    {descriptors : Pool Nat 16 0xFFFF} (hwf : descriptors.WF) :
    ∃ contexts, s.contexts.set c ⟨descriptors⟩ = .ok contexts
      ∧ contexts.WF
      ∧ (∀ b, contexts.lookup b = if b = c then some ⟨descriptors⟩ else s.contexts.lookup b)
      ∧ ∀ b context, contexts.lookup b = some context → context.descriptors.WF := by
  obtain ⟨contexts, hset, hcwf, hlook⟩ := set_spec h.contexts hc ⟨descriptors⟩
  refine ⟨contexts, hset, hcwf, hlook, ?_⟩
  intro b context' hb
  rw [hlook] at hb
  by_cases hbc : b = c
  · rw [if_pos hbc] at hb
    cases hb
    exact hwf
  · rw [if_neg hbc] at hb
    exact h.descriptors b context' hb

end Shaped

theorem descriptor_of_set {contexts : Pool Context 64 0xFFFF} {descriptors : Pool Nat 16 0xFFFF}
    (hlook : ∀ b, contexts.lookup b = if b = c then some ⟨descriptors⟩ else s.contexts.lookup b)
    (hcontexts : s'.contexts = contexts) (b d : Nat) :
    s'.descriptor b d = if b = c then descriptors.lookup d else s.descriptor b d := by
  unfold descriptor
  rw [hcontexts, hlook]
  by_cases hbc : b = c
  · rw [if_pos hbc, if_pos hbc]
  · rw [if_neg hbc, if_neg hbc]

/-! ## The invariant -/

structure Inv (dev : Devices σ) (s : Vfs σ) : Prop where
  shaped : s.Shaped
  /-- A file that is open is referred to, as often as it counts. -/
  counted : ∀ f file, s.openedFiles.lookup f = some file →
    file.refCount = s.refs f ∧ 0 < s.refs f
  /-- Nothing refers to a file that is not open. -/
  orphan : ∀ f, s.openedFiles.lookup f = none → s.refs f = 0
  /-- A file of the local driver is known to it. -/
  localFile : ∀ f handle, s.session f = some (localDriver, handle) →
    ∃ n : Nat, handle = n ∧ s.locallyOpenedFiles.lookup n ≠ none
  /-- What the local driver has open is one opened file. -/
  localOnce : ∀ n, s.locallyOpenedFiles.lookup n ≠ none → s.sessions localDriver n = 1
  /-- Every open that succeeded was closed, or is an opened file. -/
  logged : ∀ device handle, closes dev device = true →
    s.calls.count (.opened device handle)
      = s.calls.count (.closed device handle) + s.sessions device handle

variable {dev : Devices σ}

theorem Inv.file_of_descriptor (h : s.Inv dev) (hd : s.descriptor c fd = some f) :
    ∃ file, s.openedFiles.lookup f = some file := by
  have hpos : 0 < s.refs f := h.shaped.refs_pos.mpr ⟨c, fd, hd⟩
  by_contra hnone
  have hdead : s.openedFiles.lookup f = none := by
    by_contra hc
    exact hnone (ne_none_iff_exists'.mp hc)
  have := h.orphan f hdead
  omega

theorem mem_range_of_session (h : s.Shaped) {key : Nat × Int} (hkey : s.session f = some key) :
    f ∈ List.range 64 := by
  obtain ⟨file, hfile, _⟩ := map_eq_some_iff.mp hkey
  exact mem_range.mpr (Shaped.lt_capacity h.files hfile)

variable {file : OpenedFile}

theorem session_of_lookup (h : s.openedFiles.lookup f = some file) :
    s.session f = some (file.device, file.deviceLocalHandle) := by
  unfold session
  rw [h]
  rfl

theorem sessions_pos (h : s.Shaped) {device : Nat} {handle : Int}
    (hkey : s.session f = some (device, handle)) : 0 < s.sessions device handle :=
  refCount_pos.mpr ⟨f, mem_range_of_session h hkey, hkey⟩

/-! ## Changing one reference -/

def Unlinks (s s' : Vfs σ) (c fd : Nat) : Prop :=
  ∀ b d, s'.descriptor b d = if b = c ∧ d = fd then none else s.descriptor b d

/-- The table with a reference to `f` at one place. -/
def Links (s s' : Vfs σ) (c fd f : Nat) : Prop :=
  ∀ b d, s'.descriptor b d = if b = c ∧ d = fd then some f else s.descriptor b d

theorem Unlinks.refs (h : s.Unlinks s' c fd) (hs : s.Shaped) (hd : s.descriptor c fd = some f)
    (g : Nat) : s.refs g = s'.refs g + if f = g then 1 else 0 := by
  apply refCount_unlink nodup_places (hs.mem_places_of_descriptor hd)
  · intro p hp
    show s'.descriptor p.1 p.2 = s.descriptor p.1 p.2
    rw [h, if_neg (fun hc => hp (Prod.ext hc.1 hc.2))]
  · exact hd
  · show s'.descriptor c fd = none
    rw [h, if_pos ⟨rfl, rfl⟩]

theorem Links.refs (h : s.Links s' c fd f) (hplace : (c, fd) ∈ places)
    (hd : s.descriptor c fd = none) (g : Nat) : s'.refs g = s.refs g + if f = g then 1 else 0 := by
  apply refCount_link nodup_places hplace
  · intro p hp
    show s'.descriptor p.1 p.2 = s.descriptor p.1 p.2
    rw [h, if_neg (fun hc => hp (Prod.ext hc.1 hc.2))]
  · exact hd
  · show s'.descriptor c fd = some f
    rw [h, if_pos ⟨rfl, rfl⟩]

theorem refs_congr (h : ∀ b d, s'.descriptor b d = s.descriptor b d) (g : Nat) :
    s'.refs g = s.refs g := refCount_congr (fun p _ => h p.1 p.2) g

theorem sessions_congr (h : ∀ g, s'.session g = s.session g) (device : Nat) (handle : Int) :
    s'.sessions device handle = s.sessions device handle := refCount_congr (fun g _ => h g) _

theorem sessions_forget (hs : s.Shaped) {key : Nat × Int} (hkey : s.session f = some key)
    (h : ∀ g, s'.openedFiles.lookup g = if g = f then none else s.openedFiles.lookup g)
    (device : Nat) (handle : Int) :
    s.sessions device handle
      = s'.sessions device handle + if key = (device, handle) then 1 else 0 := by
  apply refCount_unlink nodup_range (mem_range_of_session hs hkey)
  · intro g hg
    unfold session
    rw [h, if_neg hg]
  · exact hkey
  · unfold session
    rw [h, if_pos rfl]
    rfl

theorem sessions_add (hs : s'.Shaped) (hfree : s.openedFiles.lookup f = none)
    (h : ∀ g, s'.openedFiles.lookup g = if g = f then some file else s.openedFiles.lookup g)
    (device : Nat) (handle : Int) :
    s'.sessions device handle = s.sessions device handle
      + if (file.device, file.deviceLocalHandle) = (device, handle) then 1 else 0 := by
  have hnew : s'.session f = some (file.device, file.deviceLocalHandle) :=
    session_of_lookup (by rw [h, if_pos rfl])
  apply refCount_link nodup_range (mem_range_of_session hs hnew)
  · intro g hg
    unfold session
    rw [h, if_neg hg]
  · unfold session
    rw [hfree]
    rfl
  · exact hnew

/-! ## Closing -/

/-- What closing a file of the device returns. -/
def closeAnswer (dev : Devices σ) (s : Vfs σ) (device : Nat) (handle : Int) : Int :=
  if device = localDriver then 0
  else if dev.hasClose device then (dev.closeFile s.drivers device handle).1
  else 0

def closeCall (dev : Devices σ) (device : Nat) (handle : Int) : List DriverCall :=
  if closes dev device then [.closed device handle] else []

theorem driverClose_spec (dev : Devices σ) (hlocals : s.locallyOpenedFiles.WF) {device : Nat} {handle : Int}
    (hknown : device = localDriver → ∃ n : Nat, handle = n ∧ s.locallyOpenedFiles.lookup n ≠ none) :
    ∃ s', s.driverClose dev device handle = .ok (closeAnswer dev s device handle, s')
      ∧ s'.contexts = s.contexts ∧ s'.openedFiles = s.openedFiles
      ∧ s'.calls = s.calls ++ closeCall dev device handle
      ∧ s'.locallyOpenedFiles.WF
      ∧ ∀ n : Nat, s'.locallyOpenedFiles.lookup n
          = if device = localDriver ∧ handle = n then none else s.locallyOpenedFiles.lookup n := by
  unfold driverClose closeAnswer closeCall closes
  by_cases hlocal : device = localDriver
  · -- the local driver forgets the directory
    obtain ⟨n, hn, hlive⟩ := hknown hlocal
    obtain ⟨v, hv⟩ := ne_none_iff_exists'.mp hlive
    obtain ⟨files, herase, hwf, hlook⟩ := erase_spec hlocals hv
    have hsmall := Shaped.lt_capacity hlocals hv
    have hhandle : toHandle handle = n := by
      unfold toHandle
      omega
    refine ⟨{ s with locallyOpenedFiles := files, calls := s.calls ++ [.closed localDriver handle] },
      ?_, rfl, rfl, ?_, hwf, ?_⟩
    · rw [if_pos hlocal, if_pos hlocal]
      unfold closeLocally
      rw [hhandle, herase, ok_bind]
    · simp only [hlocal, decide_true, Bool.true_or, if_true]
    · intro m
      show files.lookup m = _
      rw [hlook, hn]
      by_cases hm : m = n
      · rw [if_pos hm, if_pos ⟨hlocal, by rw [hm]⟩]
      · rw [if_neg hm, if_neg (fun hc => hm (by omega))]
  · rw [if_neg hlocal, if_neg hlocal]
    have hsame : ∀ n : Nat, s.locallyOpenedFiles.lookup n
        = if device = localDriver ∧ handle = n then none else s.locallyOpenedFiles.lookup n :=
      fun n => (if_neg (fun hc => hlocal hc.1)).symm
    by_cases hclose : dev.hasClose device = true
    · refine ⟨{ s with
        drivers := (dev.closeFile s.drivers device handle).2
        calls := s.calls ++ [.closed device handle] }, ?_, rfl, rfl, ?_, hlocals, hsame⟩
      · rw [if_pos hclose, if_pos hclose]
      · simp only [hlocal, hclose, decide_false, Bool.false_or, if_true]
    · refine ⟨s, ?_, rfl, rfl, ?_, hlocals, hsame⟩
      · rw [if_neg hclose, if_neg hclose]
      · simp only [hlocal, hclose, decide_false, Bool.false_or, Bool.false_eq_true, if_false,
          append_nil]

theorem Inv.recount (h : s.Inv dev) (hs' : s'.Shaped) {refCount : Int}
    (hf : s.openedFiles.lookup f = some file)
    (hentry : s'.openedFiles.lookup f = some { file with refCount })
    (hothers : ∀ g, g ≠ f → s'.openedFiles.lookup g = s.openedFiles.lookup g)
    (hcount : refCount = s'.refs f ∧ 0 < s'.refs f) (hrefs : ∀ g, g ≠ f → s'.refs g = s.refs g)
    (hlocals : s'.locallyOpenedFiles = s.locallyOpenedFiles) (hcalls : s'.calls = s.calls) :
    s'.Inv dev := by
  have hsession : ∀ g, s'.session g = s.session g := by
    intro g
    by_cases hg : g = f
    · rw [hg, session_of_lookup hentry, session_of_lookup hf]
    · unfold session
      rw [hothers g hg]
  refine ⟨hs', ?_, ?_, ?_, ?_, ?_⟩
  · intro g file' hg
    by_cases hgf : g = f
    · rw [hgf, hentry] at hg
      cases hg
      rw [hgf]
      exact hcount
    · rw [hothers g hgf] at hg
      rw [hrefs g hgf]
      exact h.counted g file' hg
  · intro g hg
    by_cases hgf : g = f
    · rw [hgf, hentry] at hg
      cases hg
    · rw [hothers g hgf] at hg
      rw [hrefs g hgf]
      exact h.orphan g hg
  · intro g handle hg
    rw [hsession] at hg
    rw [hlocals]
    exact h.localFile g handle hg
  · intro n hn
    rw [hlocals] at hn
    rw [sessions_congr hsession]
    exact h.localOnce n hn
  · intro device handle hclose
    rw [hcalls, sessions_congr hsession]
    exact h.logged device handle hclose

theorem Inv.drop_reference (h : s.Inv dev) (hs' : s'.Shaped) (hd : s.descriptor c fd = some f)
    (hf : s.openedFiles.lookup f = some file) (hmore : s.refs f ≠ 1)
    (hunlinks : s.Unlinks s' c fd) (hfiles : ∀ g, s'.openedFiles.lookup g
      = if g = f then some { file with refCount := file.refCount - 1 }
        else s.openedFiles.lookup g) (hlocals : s'.locallyOpenedFiles = s.locallyOpenedFiles)
    (hcalls : s'.calls = s.calls) : s'.Inv dev := by
  have hrefs := hunlinks.refs h.shaped hd
  have hcount := h.counted f file hf
  have hself := hrefs f
  rw [if_pos rfl] at hself
  refine h.recount hs' hf ((hfiles f).trans (if_pos rfl)) ?_ ?_ ?_ hlocals hcalls
  · intro g hg
    exact (hfiles g).trans (if_neg hg)
  · omega
  · intro g hg
    have hother := hrefs g
    rw [if_neg (Ne.symm hg)] at hother
    omega

theorem Inv.forget_file (h : s.Inv dev) (hs' : s'.Shaped) (hd : s.descriptor c fd = some f)
    (hf : s.openedFiles.lookup f = some file) (hlast : s.refs f = 1)
    (hunlinks : s.Unlinks s' c fd)
    (hfiles : ∀ g, s'.openedFiles.lookup g = if g = f then none else s.openedFiles.lookup g)
    (hlocals : ∀ n : Nat, s'.locallyOpenedFiles.lookup n
      = if file.device = localDriver ∧ file.deviceLocalHandle = n then none
        else s.locallyOpenedFiles.lookup n)
    (hcalls : s'.calls = s.calls ++ closeCall dev file.device file.deviceLocalHandle) :
    s'.Inv dev := by
  have hrefs := hunlinks.refs h.shaped hd
  have hkey := session_of_lookup hf
  have hsessions := sessions_forget h.shaped hkey hfiles
  refine ⟨hs', ?_, ?_, ?_, ?_, ?_⟩
  · intro g file' hg
    rw [hfiles] at hg
    have hg' := hrefs g
    by_cases hgf : g = f
    · rw [if_pos hgf] at hg
      cases hg
    · rw [if_neg hgf] at hg
      rw [if_neg (Ne.symm hgf)] at hg'
      have hold := h.counted g file' hg
      rw [hg'] at hold
      exact hold
  · intro g hg
    rw [hfiles] at hg
    have hg' := hrefs g
    by_cases hgf : g = f
    · rw [if_pos hgf.symm, hgf] at hg'
      rw [hgf]
      omega
    · rw [if_neg hgf] at hg
      have hzero := h.orphan g hg
      omega
  · intro g handle hg
    have hold : s.session g = some (localDriver, handle) := by
      unfold session at hg ⊢
      rw [hfiles] at hg
      by_cases hgf : g = f
      · rw [if_pos hgf] at hg
        cases hg
      · rw [if_neg hgf] at hg
        exact hg
    obtain ⟨n, hn, hlive⟩ := h.localFile g handle hold
    refine ⟨n, hn, ?_⟩
    rw [hlocals, if_neg]
    · exact hlive
    · -- the file forgotten and this one would be two files with one handle
      rintro ⟨hdevice, hhandle⟩
      have hone := h.localOnce n hlive
      have hleft := sessions_pos hs' hg
      have hsum := hsessions localDriver n
      rw [if_pos (by rw [hdevice, hhandle])] at hsum
      rw [hn] at hleft
      omega
  · intro n hn
    rw [hlocals] at hn
    split at hn
    next => exact absurd rfl hn
    next hother =>
      have hone := h.localOnce n hn
      have hsum := hsessions localDriver n
      rw [if_neg (fun hc => hother (Prod.mk.inj hc))] at hsum
      omega
  · intro device handle hclose
    have hold := h.logged device handle hclose
    have hsum := hsessions device handle
    rw [hcalls, count_append, count_append]
    unfold closeCall
    by_cases hsame : (file.device, file.deviceLocalHandle) = (device, handle)
    · obtain ⟨hdevice, hhandle⟩ := Prod.mk.inj hsame
      rw [if_pos hsame] at hsum
      rw [hdevice, hhandle, if_pos hclose, count_singleton_self, count_singleton, if_neg (by simp)]
      omega
    rw [if_neg hsame] at hsum
    have hzero : (if closes dev file.device = true
        then [DriverCall.closed file.device file.deviceLocalHandle] else []).count
          (.closed device handle) = 0 := by
      rw [count_eq_zero]
      intro hmem
      split at hmem
      next =>
        rw [mem_singleton] at hmem
        injection hmem with hd' hh'
        exact hsame (by rw [hd', hh'])
      next => cases hmem
    have hzero' : (if closes dev file.device = true
        then [DriverCall.closed file.device file.deviceLocalHandle] else []).count
          (.opened device handle) = 0 := by
      rw [count_eq_zero]
      intro hmem
      split at hmem
      next =>
        rw [mem_singleton] at hmem
        cases hmem
      next => cases hmem
    omega

/-- What `vfs_close` does with descriptor `fd` of context `c`, open on the
file `f`. -/
structure Closed (dev : Devices σ) (s s' : Vfs σ) (c fd f : Nat) (file : OpenedFile) : Prop where
  unlinks : s.Unlinks s' c fd
  contexts : ∀ b, (s'.contexts.lookup b).isSome = (s.contexts.lookup b).isSome
  others : ∀ g, g ≠ f → s'.openedFiles.lookup g = s.openedFiles.lookup g
  last : s.refs f = 1 → s'.openedFiles.lookup f = none
    ∧ s'.calls = s.calls ++ closeCall dev file.device file.deviceLocalHandle
  more : s.refs f ≠ 1 →
    s'.openedFiles.lookup f = some { file with refCount := file.refCount - 1 }
      ∧ s'.calls = s.calls

theorem isSome_of_set {contexts : Pool Context 64 0xFFFF} {context : Context}
    {descriptors : Pool Nat 16 0xFFFF} (hc : s.contexts.lookup c = some context)
    (hlook : ∀ b, contexts.lookup b = if b = c then some ⟨descriptors⟩ else s.contexts.lookup b)
    (b : Nat) : (contexts.lookup b).isSome = (s.contexts.lookup b).isSome := by
  rw [hlook]
  by_cases hbc : b = c
  · rw [if_pos hbc, hbc, hc]
    rfl
  · rw [if_neg hbc]

/-- `vfs_close` of an open descriptor returns; it takes the reference out,
and with the last one it closes the file at the driver and forgets it. -/
theorem close_spec (h : s.Inv dev) (hd : s.descriptor c fd = some f)
    (hf : s.openedFiles.lookup f = some file) :
    ∃ s', s.close dev c fd = .ok (if s.refs f = 1
        then closeAnswer dev s file.device file.deviceLocalHandle else 0, s')
      ∧ s'.Inv dev ∧ s.Closed dev s' c fd f file := by
  obtain ⟨context, hc, hfd⟩ := descriptor_some hd
  obtain ⟨descriptors, herase, hdwf, hdlook⟩ := erase_spec (h.shaped.descriptors c context hc) hfd
  obtain ⟨contexts, hset, hcwf, hclook, hdeswf⟩ := h.shaped.set_context hc hdwf
  obtain ⟨files, hfset, hfwf, hflook⟩ :=
    set_spec h.shaped.files hf { file with refCount := file.refCount - 1 }
  have hcount := h.counted f file hf
  have hunlinks : ∀ {s' : Vfs σ}, s'.contexts = contexts → s.Unlinks s' c fd := by
    intro s' hs' b d
    rw [descriptor_of_set hclook hs' b d]
    by_cases hb : b = c
    · rw [if_pos hb, hdlook]
      by_cases hdfd : d = fd
      · rw [if_pos hdfd, if_pos ⟨hb, hdfd⟩]
      · rw [if_neg hdfd, if_neg (fun hcc => hdfd hcc.2), hb, descriptor_of_lookup hc]
    · rw [if_neg hb, if_neg (fun hcc => hb hcc.1)]
  have hstart : s.close dev c fd = release dev { s with contexts := contexts, openedFiles := files }
      f { file with refCount := file.refCount - 1 } := by
    simp only [close, get_spec hc, get_spec hfd, get_spec hf, ok_bind, herase, hset, hfset]
  by_cases hlast : s.refs f = 1
  · -- the last descriptor: the driver is called and the entry erased
    have hknown : file.device = localDriver →
        ∃ n : Nat, file.deviceLocalHandle = n ∧ s.locallyOpenedFiles.lookup n ≠ none := by
      intro hlocal
      exact h.localFile f _ (by rw [session_of_lookup hf, hlocal])
    obtain ⟨s1, hdrv, h1c, h1f, h1calls, h1wf, h1look⟩ := driverClose_spec dev
      (s := { s with contexts := contexts, openedFiles := files }) h.shaped.locals hknown
    obtain ⟨files', herase', hfwf', hflook'⟩ := erase_spec (h1f ▸ hfwf)
      (show s1.openedFiles.lookup f = some _ by rw [h1f, hflook, if_pos rfl])
    have hfinal : ∀ g, files'.lookup g = if g = f then none else s.openedFiles.lookup g := by
      intro g
      rw [hflook', h1f, hflook]
      by_cases hg : g = f
      · rw [if_pos hg, if_pos hg]
      · rw [if_neg hg, if_neg hg, if_neg hg]
    have hun : s.Unlinks { s1 with openedFiles := files' } c fd := hunlinks h1c
    have hshaped : ({ s1 with openedFiles := files' } : Vfs σ).Shaped :=
      ⟨h1c ▸ hcwf, fun b context' hb => hdeswf b context' ((congrArg (·.lookup b) h1c).symm.trans hb),
        hfwf', h1wf⟩
    refine ⟨{ s1 with openedFiles := files' }, ?_, ?_, ?_⟩
    · rw [if_pos hlast, hstart, release, if_pos (show file.refCount - 1 = 0 by omega), hdrv,
        ok_bind]
      simp only [herase', ok_bind]
      rfl
    · exact h.forget_file hshaped hd hf hlast hun hfinal h1look h1calls
    · refine ⟨hun, ?_, ?_, fun _ => ⟨?_, h1calls⟩, fun hmore => absurd hlast hmore⟩
      · intro b
        show (s1.contexts.lookup b).isSome = _
        rw [h1c]
        exact isSome_of_set hc hclook b
      · intro g hg
        show files'.lookup g = _
        rw [hfinal, if_neg hg]
      · show files'.lookup f = none
        rw [hfinal, if_pos rfl]
  · refine ⟨{ s with contexts := contexts, openedFiles := files }, ?_, ?_, ?_⟩
    · rw [if_neg hlast, hstart, release, if_neg (show file.refCount - 1 ≠ 0 by omega)]
    · exact h.drop_reference ⟨hcwf, hdeswf, hfwf, h.shaped.locals⟩ hd hf hlast (hunlinks rfl)
        hflook rfl rfl
    · refine ⟨hunlinks rfl, isSome_of_set hc hclook, ?_, fun hl => absurd hl hlast,
        fun _ => ⟨?_, rfl⟩⟩
      · intro g hg
        show files.lookup g = _
        rw [hflook, if_neg hg]
      · show files.lookup f = _
        rw [hflook, if_pos rfl]

theorem close_ok {r : Int} (hcall : s.close dev c fd = .ok (r, s')) :
    ∃ f, s.descriptor c fd = some f := by
  obtain ⟨context, hc, hcall⟩ := bind_ok.mp hcall
  obtain ⟨f, hfd, _⟩ := bind_ok.mp hcall
  exact ⟨f, by rw [descriptor_of_lookup (get_ok hc), get_ok hfd]⟩

/-! ## Duplicating -/

/-- What a new descriptor `fd` of context `c` on the open file `f` changes. -/
structure Linked (s s' : Vfs σ) (c fd f : Nat) (file : OpenedFile) : Prop where
  links : s.Links s' c fd f
  contexts : ∀ b, (s'.contexts.lookup b).isSome = (s.contexts.lookup b).isSome
  others : ∀ g, g ≠ f → s'.openedFiles.lookup g = s.openedFiles.lookup g
  entry : s'.openedFiles.lookup f = some { file with refCount := file.refCount + 1 }
  calls : s'.calls = s.calls

theorem Inv.add_reference (h : s.Inv dev) (hs' : s'.Shaped)
    (hf : s.openedFiles.lookup f = some file) (hplace : (c, fd) ∈ places)
    (hnone : s.descriptor c fd = none) (hlinked : s.Linked s' c fd f file)
    (hlocals : s'.locallyOpenedFiles = s.locallyOpenedFiles) : s'.Inv dev := by
  have hrefs := hlinked.links.refs hplace hnone
  have hcount := h.counted f file hf
  have hself := hrefs f
  rw [if_pos rfl] at hself
  refine h.recount hs' hf hlinked.entry hlinked.others ?_ ?_ hlocals hlinked.calls
  · omega
  · intro g hg
    have hother := hrefs g
    rw [if_neg (Ne.symm hg)] at hother
    omega

section Alias

variable {srcContext srcFd dstContext dstFd : Nat} {source dest : Context}

theorem links_of_set {contexts : Pool Context 64 0xFFFF} {descriptors : Pool Nat 16 0xFFFF}
    (hdst : s.contexts.lookup dstContext = some dest)
    (hdlook : ∀ d, descriptors.lookup d = if d = dstFd then some f else dest.descriptors.lookup d)
    (hclook : ∀ b, contexts.lookup b
      = if b = dstContext then some ⟨descriptors⟩ else s.contexts.lookup b)
    (hcontexts : s'.contexts = contexts) : s.Links s' dstContext dstFd f := by
  intro b d
  rw [descriptor_of_set hclook hcontexts b d]
  by_cases hb : b = dstContext
  · rw [if_pos hb, hdlook]
    by_cases hd : d = dstFd
    · rw [if_pos hd, if_pos ⟨hb, hd⟩]
    · rw [if_neg hd, if_neg (fun hc => hd hc.2), hb, descriptor_of_lookup hdst]
  · rw [if_neg hb, if_neg (fun hc => hb hc.1)]

theorem link_spec (h : s.Inv dev) (hsrc : s.descriptor srcContext srcFd = some f)
    {file : OpenedFile} (hf : s.openedFiles.lookup f = some file)
    (hdst : s.contexts.lookup dstContext = some dest) (hroom : dstFd < 16)
    (hnone : s.descriptor dstContext dstFd = none) :
    ∃ s', s.link srcContext srcFd dstContext dstFd = .ok s' ∧ s'.Inv dev
      ∧ s.Linked s' dstContext dstFd f file := by
  obtain ⟨source, hsc, hsfd⟩ := descriptor_some hsrc
  obtain ⟨descriptors, hput, hdwf, hdlook⟩ :=
    emplace_spec (h.shaped.descriptors dstContext dest hdst) hroom f
  obtain ⟨contexts, hset, hcwf, hclook, hdeswf⟩ := h.shaped.set_context hdst hdwf
  obtain ⟨files, hfset, hfwf, hflook⟩ :=
    set_spec h.shaped.files hf { file with refCount := file.refCount + 1 }
  let s1 : Vfs σ := { s with contexts := contexts, openedFiles := files }
  have hlinks : s.Links s1 dstContext dstFd f := links_of_set hdst hdlook hclook rfl
  -- the source descriptor is read again after the new one was stored
  have hagain : s1.descriptor srcContext srcFd = some f := by
    rw [hlinks]
    split
    · rfl
    · exact hsrc
  obtain ⟨source', hsc', hsfd'⟩ := descriptor_some hagain
  have hlinked : s.Linked s1 dstContext dstFd f file := by
    refine ⟨hlinks, isSome_of_set hdst hclook, ?_, ?_, rfl⟩
    · intro g hg
      show files.lookup g = _
      rw [hflook, if_neg hg]
    · show files.lookup f = _
      rw [hflook, if_pos rfl]
  refine ⟨s1, ?_, ?_, hlinked⟩
  · have hsc'' : contexts.lookup srcContext = some source' := hsc'
    simp only [link, get_spec hsc, get_spec hsfd, get_spec hdst, hput, hset,
      get_spec hsc'', get_spec hsfd', get_spec hf, hfset, ok_bind]
    rfl
  · exact h.add_reference ⟨hcwf, hdeswf, hfwf, h.shaped.locals⟩ hf
      (mem_places.mpr ⟨Shaped.lt_capacity h.shaped.contexts hdst, hroom⟩) hnone hlinked rfl

theorem valid_eq_isSome (h : s.Shaped) {context : Context} (hc : s.contexts.lookup c = some context) :
    context.descriptors.valid fd = (s.descriptor c fd).isSome := by
  rw [descriptor_of_lookup hc, Bool.eq_iff_iff, (h.descriptors c context hc).valid_iff_lookup,
    isSome_iff_exists]

theorem refersTo_eq (h : s.Shaped) {context : Context} (hc : s.contexts.lookup c = some context) :
    refersTo context fd f = .ok (decide (s.descriptor c fd = some f)) := by
  unfold refersTo
  rw [valid_eq_isSome h hc]
  cases hd : s.descriptor c fd with
  | none => simp
  | some g =>
    have hfd : context.descriptors.lookup fd = some g := (descriptor_of_lookup hc).symm.trans hd
    rw [isSome_some, if_pos rfl, get_spec hfd, ok_bind]
    congr 1
    rw [Bool.eq_iff_iff]
    simp

theorem aliasFd_eq (h : s.Shaped) (hsrc : s.descriptor srcContext srcFd = some f)
    (hdst : s.contexts.lookup dstContext = some dest) :
    s.aliasFd dev srcContext srcFd dstContext dstFd =
      if s.descriptor dstContext dstFd = some f then .ok (0, s)
      else if (s.descriptor dstContext dstFd).isSome then
        s.close dev dstContext dstFd >>= fun r =>
          r.2.link srcContext srcFd dstContext dstFd >>= fun s => .ok (0, s)
      else s.link srcContext srcFd dstContext dstFd >>= fun s => .ok (0, s) := by
  obtain ⟨source, hsc, hsfd⟩ := descriptor_some hsrc
  have hvalid : source.descriptors.valid srcFd = true := by
    rw [valid_eq_isSome h hsc, hsrc]
    rfl
  simp only [aliasFd, get_spec hsc, get_spec hdst, hvalid, get_spec hsfd, ok_bind,
    Bool.true_eq_false, if_false, refersTo_eq h hdst, decide_eq_true_eq, valid_eq_isSome h hdst]

theorem aliasFd_missing (h : s.Shaped) (hsc : s.contexts.lookup srcContext = some source)
    (hsrc : s.descriptor srcContext srcFd = none)
    (hdst : s.contexts.lookup dstContext = some dest) :
    s.aliasFd dev srcContext srcFd dstContext dstFd = .ok (ENOENT, s) := by
  have hvalid : source.descriptors.valid srcFd = false := by
    rw [valid_eq_isSome h hsc, hsrc]
    rfl
  simp only [aliasFd, get_spec hsc, get_spec hdst, hvalid, ok_bind, if_true]

theorem aliasFd_same (h : s.Shaped) (hsrc : s.descriptor srcContext srcFd = some f)
    (hdst : s.descriptor dstContext dstFd = some f) :
    s.aliasFd dev srcContext srcFd dstContext dstFd = .ok (0, s) := by
  obtain ⟨dest, hdc, _⟩ := descriptor_some hdst
  rw [aliasFd_eq h hsrc hdc, if_pos hdst]

theorem aliasFd_spec (h : s.Inv dev) (hsrc : s.descriptor srcContext srcFd = some f)
    {file : OpenedFile} (hf : s.openedFiles.lookup f = some file)
    (hdst : s.contexts.lookup dstContext = some dest) (hroom : dstFd < 16)
    (hnone : s.descriptor dstContext dstFd = none) :
    ∃ s', s.aliasFd dev srcContext srcFd dstContext dstFd = .ok (0, s') ∧ s'.Inv dev
      ∧ s.Linked s' dstContext dstFd f file := by
  obtain ⟨s', hlink, hinv, hlinked⟩ := link_spec h hsrc hf hdst hroom hnone
  refine ⟨s', ?_, hinv, hlinked⟩
  rw [aliasFd_eq h.shaped hsrc hdst, hnone, if_neg (by simp), if_neg (by simp), hlink, ok_bind]

/-- Duplicating onto a descriptor that is open on another file, which is
closed first. -/
theorem aliasFd_replace (h : s.Inv dev) (hsrc : s.descriptor srcContext srcFd = some f) {g : Nat}
    (hdst : s.descriptor dstContext dstFd = some g) (hne : g ≠ f) :
    ∃ s1 s' old file, s.openedFiles.lookup g = some old ∧ s1.openedFiles.lookup f = some file
      ∧ s.aliasFd dev srcContext srcFd dstContext dstFd = .ok (0, s')
      ∧ s1.Inv dev ∧ s'.Inv dev ∧ s.Closed dev s1 dstContext dstFd g old
      ∧ s1.Linked s' dstContext dstFd f file := by
  obtain ⟨dest, hdc, hdfd⟩ := descriptor_some hdst
  obtain ⟨old, hold⟩ := h.file_of_descriptor hdst
  obtain ⟨s1, hclose, hinv, hclosed⟩ := close_spec h hdst hold
  have hplace : ¬ (srcContext = dstContext ∧ srcFd = dstFd) := by
    intro hc
    rw [hc.1, hc.2, hdst] at hsrc
    exact hne (some.inj hsrc)
  have hsrc' : s1.descriptor srcContext srcFd = some f := by
    rw [hclosed.unlinks, if_neg hplace, hsrc]
  obtain ⟨file, hf⟩ := hinv.file_of_descriptor hsrc'
  obtain ⟨dest', hdc'⟩ : ∃ dest', s1.contexts.lookup dstContext = some dest' := by
    apply isSome_iff_exists.mp
    rw [hclosed.contexts, hdc]
    rfl
  obtain ⟨s', hlink, hinv', hlinked⟩ := link_spec hinv hsrc' hf hdc'
    (Shaped.lt_capacity (h.shaped.descriptors dstContext dest hdc) hdfd)
    (by rw [hclosed.unlinks, if_pos ⟨rfl, rfl⟩])
  refine ⟨s1, s', old, file, hold, hf, ?_, hinv, hinv', hclosed, hlinked⟩
  rw [aliasFd_eq h.shaped hsrc hdc, hdst, if_neg (fun hc => hne (some.inj hc))]
  simp only [isSome_some, if_true, hclose, hlink, ok_bind]

theorem aliasFd_outside (h : s.Shaped) (hsrc : s.descriptor srcContext srcFd = some f)
    (hdst : s.contexts.lookup dstContext = some dest) (houtside : 16 ≤ dstFd) :
    s.aliasFd dev srcContext srcFd dstContext dstFd
      = .error (.assertion "_data_begin + idx < _data_end") := by
  have hnone : s.descriptor dstContext dstFd = none := by
    rw [descriptor_of_lookup hdst]
    by_contra hc
    obtain ⟨g, hg⟩ := ne_none_iff_exists'.mp hc
    have := Shaped.lt_capacity (h.descriptors dstContext dest hdst) hg
    omega
  obtain ⟨source, hsc, hsfd⟩ := descriptor_some hsrc
  have hput : dest.descriptors.emplace dstFd f
      = .error (.assertion "_data_begin + idx < _data_end") := by
    have hlimit : decide (dstFd < 16) = false := decide_eq_false (by omega)
    simp only [emplace, increaseSize, hlimit, check_false, error_bind]
  rw [aliasFd_eq h hsrc hdst, hnone, if_neg (by simp), if_neg (by simp)]
  simp only [link, get_spec hsc, get_spec hsfd, get_spec hdst, hput, ok_bind, error_bind]

end Alias

/-! ## Loops over a context -/

/-- The rule for the loop over the descriptors of a context. The body may close descriptors
and lower the watermark, but the loop still ends at an index from which on none is open. -/
theorem forDescriptors_spec (c : Nat) (body : Nat → Vfs σ → Checked (Vfs σ))
    (P : Nat → Vfs σ → Prop) (hlive : ∀ i s, P i s → s.Shaped ∧ (s.contexts.lookup c).isSome)
    (hskip : ∀ i s, P i s → s.descriptor c i = none → P (i + 1) s)
    (hbody : ∀ i s f, P i s → s.descriptor c i = some f →
      ∃ s', body i s = .ok s' ∧ P (i + 1) s') (h0 : P 0 s) :
    ∃ s' j, forDescriptors c body s = .ok s' ∧ P j s' ∧ ∀ d, j ≤ d → s'.descriptor c d = none := by
  -- the fuel is the number of descriptors still to come, and one
  have hrun : ∀ fuel i (s : Vfs σ), P i s → i + fuel = 17 → 0 < fuel →
      ∃ s' j, forDescriptorsFrom c body fuel i s = .ok s' ∧ P j s'
        ∧ ∀ d, j ≤ d → s'.descriptor c d = none := by
    intro fuel
    induction fuel with
    | zero =>
      intro i s _ _ hpos
      omega
    | succ fuel ih =>
      intro i s hP hfuel _
      obtain ⟨hshaped, hsome⟩ := hlive i s hP
      obtain ⟨context, hc⟩ := isSome_iff_exists.mp hsome
      have hwf := hshaped.descriptors c context hc
      unfold forDescriptorsFrom
      rw [get_spec hc, ok_bind]
      by_cases hi : i < context.descriptors.watermark
      · have hroom := hwf.room
        rw [if_pos hi, valid_eq_isSome hshaped hc]
        cases hd : s.descriptor c i with
        | none =>
          exact ih (i + 1) s (hskip i s hP hd) (by omega) (by omega)
        | some f =>
          obtain ⟨s1, hcall, hP1⟩ := hbody i s f hP hd
          simp only [isSome_some, if_true, hcall, ok_bind]
          exact ih (i + 1) s1 hP1 (by omega) (by omega)
      rw [if_neg hi]
      refine ⟨s, i, rfl, hP, ?_⟩
      intro d hd
      rw [descriptor_of_lookup hc]
      by_contra hopen
      obtain ⟨f, hf⟩ := ne_none_iff_exists'.mp hopen
      have := lookup_lt_watermark hf
      omega
  exact hrun 17 0 s h0 rfl (by omega)

end Vfs

end Peos2.Kernel
