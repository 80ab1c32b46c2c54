/-
  Kernel.OpenFiles — the file system over whole runs.

  A run starts after `vfs_init` and makes any calls, on any contexts, with any
  arguments, as long as the calls return.

  Main results: `open_files_counted`, `fork_independent`, `syscall_sound_iff`.
-/
import Peos2.Kernel.Contexts
import Peos2.Lib.Run

namespace Peos2.Kernel

open Peos2.Lib Peos2.Support Pool

namespace Vfs

variable {σ : Type} {dev : Devices σ} {s s' : Vfs σ}

/-! ## Runs -/

inductive Operation where
  | createContext
  | openPath (c : Nat) (filename : String) (flags : UInt32)
  | close (c fd : Nat)
  | aliasFd (srcContext srcFd dstContext dstFd : Nat)
  | forkContext (c : Nat)
  | closeNotMatching (c : Nat) (flags : UInt32)
  | destroyContext (c : Nat)

def Operation.run (dev : Devices σ) (s : Vfs σ) : Operation → Checked (Vfs σ)
  | .createContext => s.createContext.map Prod.snd
  | .openPath c filename flags => (s.openPath dev c filename flags).map Prod.snd
  | .close c fd => (s.close dev c fd).map Prod.snd
  | .aliasFd srcContext srcFd dstContext dstFd =>
    (s.aliasFd dev srcContext srcFd dstContext dstFd).map Prod.snd
  | .forkContext c => (s.forkContext dev c).map Prod.snd
  | .closeNotMatching c flags => s.closeNotMatching dev c flags
  | .destroyContext c => s.destroyContext dev c

def Initial (s : Vfs σ) : Prop :=
  s.contexts = Pool.blank ∧ s.openedFiles = Pool.blank ∧ s.locallyOpenedFiles = Pool.blank
    ∧ s.calls = []

def Step (dev : Devices σ) (s s' : Vfs σ) : Prop := ∃ op : Operation, op.run dev s = .ok s'

theorem Initial.inv (h : s.Initial) : s.Inv dev := by
  obtain ⟨hcontexts, hfiles, hlocals, hcalls⟩ := h
  have hblank : ∀ {α : Type} {n : Nat} (i : Nat), (blank : Pool α n 0xFFFF).lookup i = none :=
    fun i => lookup_blank i
  have htable : ∀ c fd, s.descriptor c fd = none := by
    intro c fd
    apply descriptor_none_of_dead
    rw [hcontexts, hblank]
  have hsession : ∀ f, s.session f = none := by
    intro f
    unfold session
    rw [hfiles]
    rfl
  refine ⟨⟨?_, ?_, ?_, ?_⟩, ?_, ?_, ?_, ?_, ?_⟩
  · rw [hcontexts]
    exact blank_wf (by decide)
  · intro c context hc
    rw [hcontexts] at hc
    cases hc
  · rw [hfiles]
    exact blank_wf (by decide)
  · rw [hlocals]
    exact blank_wf (by decide)
  · intro f file hf
    rw [hfiles] at hf
    cases hf
  · intro f _
    apply refCount_eq_zero.mpr
    intro p _
    rw [htable]
    simp
  · intro f handle hf
    rw [hsession] at hf
    cases hf
  · intro n hn
    rw [hlocals] at hn
    exact absurd rfl hn
  · intro device handle _
    have hzero : s.sessions device handle = 0 := by
      apply refCount_eq_zero.mpr
      intro f _
      rw [hsession]
      simp
    rw [hcalls, hzero]
    rfl

/-! ## What each call does to the invariant and to other contexts -/

/-- The calls that change one context only. -/
def Operation.On (a : Nat) : Operation → Prop
  | .createContext => False
  | .openPath c _ _ => c = a
  | .close c _ => c = a
  | .aliasFd _ _ dstContext _ => dstContext = a
  | .forkContext _ => False
  | .closeNotMatching c _ => c = a
  | .destroyContext c => c = a

variable {c : Nat} {context : Context} {r : Except Int Nat}

theorem live_of_get (h : s.contexts.get c = .ok context) : (s.contexts.lookup c).isSome := by
  rw [get_ok h]
  rfl

theorem openPath_step (h : s.Inv dev) {filename : String} {flags : UInt32}
    (hcall : s.openPath dev c filename flags = .ok (r, s')) :
    s'.Inv dev ∧ ∀ b, b ≠ c → Keeps b s s' := by
  have hlive : ∃ context, s.contexts.lookup c = some context := by
    obtain ⟨context, hc, _⟩ := bind_ok.mp hcall
    exact ⟨context, get_ok hc⟩
  obtain ⟨context, hc⟩ := hlive
  obtain ⟨device, restPath, accepted, hlocate, haccepts⟩ := openPath_answered hcall
  cases accepted with
  | false =>
    obtain ⟨e, drivers, hopen, _⟩ := openPath_refuses hlocate hc haccepts
    rw [hopen] at hcall
    cases hcall
    exact ⟨h.drivers drivers, fun b _ => keeps_drivers b s drivers⟩
  | true =>
    by_cases hfull : s.openedFiles.full = true ∨ context.descriptors.full = true
    · rw [openPath_full hlocate h hc haccepts hfull] at hcall
      cases hcall
    rw [not_or, Bool.not_eq_true, Bool.not_eq_true] at hfull
    obtain ⟨fd, s1, f, file, hopen, hinv, hopened⟩ :=
      openPath_accepts hlocate h hc haccepts hfull.1 hfull.2
    rw [hopen] at hcall
    cases hcall
    exact ⟨hinv, fun b hb => hopened.keeps hb⟩

theorem close_step (h : s.Inv dev) {fd : Nat} {r : Int} (hcall : s.close dev c fd = .ok (r, s')) :
    s'.Inv dev ∧ ∀ b, b ≠ c → Keeps b s s' := by
  obtain ⟨f, hd⟩ := close_ok hcall
  obtain ⟨file, hf⟩ := h.file_of_descriptor hd
  obtain ⟨s1, hclose, hinv, hclosed⟩ := close_spec h hd hf
  rw [hclose] at hcall
  cases hcall
  exact ⟨hinv, fun b hb => hclosed.keeps h hinv hd hf hb⟩

theorem aliasFd_step (h : s.Inv dev) {srcContext srcFd dstContext dstFd : Nat} {r : Int}
    (hcall : s.aliasFd dev srcContext srcFd dstContext dstFd = .ok (r, s')) :
    s'.Inv dev ∧ ∀ b, b ≠ dstContext → Keeps b s s' := by
  have hlive : ∃ source dest, s.contexts.lookup srcContext = some source
      ∧ s.contexts.lookup dstContext = some dest := by
    obtain ⟨source, hsc, hcall⟩ := bind_ok.mp hcall
    obtain ⟨dest, hdc, _⟩ := bind_ok.mp hcall
    exact ⟨source, dest, get_ok hsc, get_ok hdc⟩
  obtain ⟨source, dest, hsc, hdc⟩ := hlive
  cases hsrc : s.descriptor srcContext srcFd with
  | none =>
    rw [aliasFd_missing h.shaped hsc hsrc hdc] at hcall
    cases hcall
    exact ⟨h, fun b _ => Keeps.refl b s⟩
  | some f =>
    cases hdst : s.descriptor dstContext dstFd with
    | none =>
      by_cases hroom : dstFd < 16
      · obtain ⟨file, hf⟩ := h.file_of_descriptor hsrc
        obtain ⟨s1, halias, hinv, hlinked⟩ := aliasFd_spec h hsrc hf hdc hroom hdst
        rw [halias] at hcall
        cases hcall
        exact ⟨hinv, fun b hb => hlinked.keeps hf hb⟩
      · rw [aliasFd_outside h.shaped hsrc hdc (by omega)] at hcall
        cases hcall
    | some g =>
      by_cases hgf : g = f
      · rw [aliasFd_same h.shaped hsrc (hgf ▸ hdst)] at hcall
        cases hcall
        exact ⟨h, fun b _ => Keeps.refl b s⟩
      obtain ⟨s1, s2, old, file, hold, hf, halias, hinv1, hinv2, hclosed, hlinked⟩ :=
        aliasFd_replace h hsrc hdst hgf
      rw [halias] at hcall
      cases hcall
      exact ⟨hinv2, fun b hb =>
        (hclosed.keeps h hinv1 hdst hold hb).trans (hlinked.keeps hf hb)⟩

theorem live_of_forDescriptors {body : Nat → Vfs σ → Checked (Vfs σ)}
    (hcall : forDescriptors c body s = .ok s') : (s.contexts.lookup c).isSome := by
  obtain ⟨context, hc, _⟩ := bind_ok.mp hcall
  exact live_of_get hc

theorem closeNotMatching_step (h : s.Inv dev) {flags : UInt32}
    (hcall : s.closeNotMatching dev c flags = .ok s') : s'.Inv dev ∧ ∀ b, b ≠ c → Keeps b s s' := by
  obtain ⟨s1, hloop, hinv, _, hkeeps⟩ :=
    closeNotMatching_spec h (live_of_forDescriptors hcall) flags
  rw [hloop] at hcall
  cases hcall
  exact ⟨hinv, hkeeps⟩

theorem destroyContext_step (h : s.Inv dev) (hcall : s.destroyContext dev c = .ok s') :
    s'.Inv dev ∧ ∀ b, b ≠ c → Keeps b s s' := by
  have hlive : (s.contexts.lookup c).isSome := by
    obtain ⟨s1, hloop, _⟩ := bind_ok.mp hcall
    exact live_of_forDescriptors hloop
  obtain ⟨s1, hdestroy, hinv, _, hkeeps⟩ := destroyContext_spec h hlive
  rw [hdestroy] at hcall
  cases hcall
  exact ⟨hinv, hkeeps⟩

theorem createContext_step (h : s.Inv dev) (hcall : s.createContext = .ok (r, s')) :
    s'.Inv dev := by
  cases hfull : s.contexts.full with
  | true =>
    rw [createContext_full hfull] at hcall
    cases hcall
    exact h
  | false =>
    obtain ⟨n, s1, hcreate, hinv, _⟩ := createContext_spec h hfull
    rw [hcreate] at hcall
    cases hcall
    exact hinv

theorem forkContext_step (h : s.Inv dev) (hcall : s.forkContext dev c = .ok (r, s')) :
    s'.Inv dev := by
  cases hfull : s.contexts.full with
  | true =>
    unfold forkContext at hcall
    rw [createContext_full hfull, ok_bind] at hcall
    cases hcall
    exact h
  | false =>
    by_cases hlive : (s.contexts.lookup c).isSome
    · obtain ⟨n, s1, hfork, hinv, _⟩ := forkContext_spec h hlive hfull
      rw [hfork] at hcall
      cases hcall
      exact hinv
    -- the handle is not live: the loop can only run over the new context itself
    obtain ⟨n, s1, hcreate, hinv, _, _, htable, _⟩ := createContext_spec h hfull
    have hdead : s.contexts.lookup c = none := Option.not_isSome_iff_eq_none.mp hlive
    unfold forkContext at hcall
    rw [hcreate, ok_bind] at hcall
    obtain ⟨s2, hloop, hcall⟩ := bind_ok.mp hcall
    cases hcall
    obtain ⟨s3, j, hloop', hsame, _⟩ := forDescriptors_spec (s := s1) c (aliasEach dev c n)
      (fun _ s2 => s2 = s1)
      (fun i s2 hP => by
        rw [hP]
        exact ⟨hinv.shaped, live_of_forDescriptors hloop⟩)
      (fun i s2 hP _ => hP)
      (fun i s2 f hP hd => by
        rw [hP, htable, descriptor_none_of_dead hdead] at hd
        cases hd)
      rfl
    rw [hloop'] at hloop
    cases hloop
    rw [hsame]
    exact hinv

theorem Operation.step_inv (h : s.Inv dev) {op : Operation} (hrun : op.run dev s = .ok s') :
    s'.Inv dev := by
  cases op with
  | createContext =>
    obtain ⟨r, hcall, rfl⟩ := map_ok.mp hrun
    exact createContext_step h hcall
  | openPath c filename flags =>
    obtain ⟨r, hcall, rfl⟩ := map_ok.mp hrun
    exact (openPath_step h hcall).1
  | close c fd =>
    obtain ⟨r, hcall, rfl⟩ := map_ok.mp hrun
    exact (close_step h hcall).1
  | aliasFd srcContext srcFd dstContext dstFd =>
    obtain ⟨r, hcall, rfl⟩ := map_ok.mp hrun
    exact (aliasFd_step h hcall).1
  | forkContext c =>
    obtain ⟨r, hcall, rfl⟩ := map_ok.mp hrun
    exact forkContext_step h hcall
  | closeNotMatching c flags => exact (closeNotMatching_step h hrun).1
  | destroyContext c => exact (destroyContext_step h hrun).1

theorem Operation.step_keeps (h : s.Inv dev) {op : Operation} {a b : Nat} (hon : op.On a)
    (hb : b ≠ a) (hrun : op.run dev s = .ok s') : Keeps b s s' := by
  cases op with
  | createContext => cases hon
  | openPath c filename flags =>
    cases hon
    obtain ⟨r, hcall, rfl⟩ := map_ok.mp hrun
    exact (openPath_step h hcall).2 b hb
  | close c fd =>
    cases hon
    obtain ⟨r, hcall, rfl⟩ := map_ok.mp hrun
    exact (close_step h hcall).2 b hb
  | aliasFd srcContext srcFd dstContext dstFd =>
    cases hon
    obtain ⟨r, hcall, rfl⟩ := map_ok.mp hrun
    exact (aliasFd_step h hcall).2 b hb
  | forkContext c => cases hon
  | closeNotMatching c flags =>
    cases hon
    exact (closeNotMatching_step h hrun).2 b hb
  | destroyContext c =>
    cases hon
    exact (destroyContext_step h hrun).2 b hb

theorem reach_inv (h : Reach Initial (Step dev) s) : s.Inv dev := by
  refine Reach.invariant ?_ ?_ h
  · intro s h0
    exact h0.inv
  · rintro s s' _ hinv ⟨op, hrun⟩
    exact op.step_inv hinv hrun

def runAll (dev : Devices σ) (s : Vfs σ) (ops : List Operation) : Checked (Vfs σ) :=
  ops.foldlM (fun s op => Operation.run dev s op) s

theorem reach_runAll {ops : List Operation} (h : Reach Initial (Step dev) s)
    (hrun : s.runAll dev ops = .ok s') : Reach Initial (Step dev) s' :=
  h.foldlM (fun _ op _ _ hop => ⟨op, hop⟩) hrun

/-! ## Reference counts -/

/-- **Open files are counted.** After every run a file is open exactly while a descriptor refers
to it, and its count is the number of those; every open that a driver carried out was closed
once or is still an opened file; and closing a descriptor calls the driver exactly when it is
the last of its file. -/
theorem open_files_counted (h : Reach Initial (Step dev) s) :
    (∀ f, (∃ file, s.openedFiles.lookup f = some file) ↔ ∃ c fd, s.descriptor c fd = some f)
      ∧ (∀ f file, s.openedFiles.lookup f = some file → file.refCount = s.refs f)
      ∧ (∀ device handle, closes dev device = true →
          s.calls.count (.opened device handle)
            = s.calls.count (.closed device handle) + s.sessions device handle)
      ∧ ∀ c fd f file, s.descriptor c fd = some f → s.openedFiles.lookup f = some file →
          ∃ r s', s.close dev c fd = .ok (r, s')
            ∧ s'.calls = s.calls ++ if s.refs f = 1
                then closeCall dev file.device file.deviceLocalHandle else [] := by
  have hinv := reach_inv h
  refine ⟨?_, fun f file hf => (hinv.counted f file hf).1, hinv.logged, ?_⟩
  · intro f
    constructor
    · rintro ⟨file, hf⟩
      exact hinv.shaped.refs_pos.mp (hinv.counted f file hf).2
    · rintro ⟨c, fd, hd⟩
      exact hinv.file_of_descriptor hd
  · intro c fd f file hd hf
    obtain ⟨s', hclose, _, hclosed⟩ := close_spec hinv hd hf
    refine ⟨_, s', hclose, ?_⟩
    by_cases hlast : s.refs f = 1
    · rw [if_pos hlast]
      exact (hclosed.last hlast).2
    · rw [if_neg hlast, List.append_nil]
      exact (hclosed.more hlast).2

/-- A single device whose driver opens everything as handle 7. -/
def singleDevice : Devices Unit where
  locate path := .ok (1, path)
  lookup _ := .ok none
  hasOpen _ := true
  openFile _ _ _ _ := .ok (7, ())
  hasClose _ := true
  closeFile _ _ _ := (0, ())

def start : Vfs Unit := ⟨Pool.blank, Pool.blank, Pool.blank, (), []⟩

theorem start_reach : Reach Initial (Step singleDevice) start := .init ⟨rfl, rfl, rfl, rfl⟩

/-- One context opens a file and duplicates it; the file has two references,
and the driver has not been asked to close it. -/
theorem open_files_counted_twice :
    ∃ s : Vfs Unit, Reach Initial (Step singleDevice) s ∧ s.descriptor 0 3 = some 0
      ∧ (∃ file, s.openedFiles.lookup 0 = some file)
      ∧ s.calls.count (.opened 1 7) = s.calls.count (.closed 1 7) + s.sessions 1 7 := by
  have hrun : ((start.runAll singleDevice
      [.createContext, .openPath 0 "a" 0, .aliasFd 0 0 0 3]).map fun s => s.descriptor 0 3)
        = .ok (some 0) := by decide +kernel
  obtain ⟨s, hs, hd⟩ := map_ok.mp hrun
  have hreach := reach_runAll start_reach hs
  have hcounted := open_files_counted hreach
  exact ⟨s, hreach, hd, (hcounted.1 0).mpr ⟨0, 3, hd⟩, hcounted.2.2.1 1 7 rfl⟩

/-! ## Forked contexts -/

def StepOn (dev : Devices σ) (a : Nat) (s s' : Vfs σ) : Prop :=
  ∃ op : Operation, op.On a ∧ op.run dev s = .ok s'

theorem reachOn_keeps {s1 s2 : Vfs σ} (h : s1.Inv dev) {a b : Nat} (hb : b ≠ a)
    (hrun : Reach (· = s1) (StepOn dev a) s2) : s2.Inv dev ∧ Keeps b s1 s2 := by
  refine @Reach.invariant _ _ _ (fun s => s.Inv dev ∧ Keeps b s1 s) ?_ ?_ s2 hrun
  · rintro s rfl
    exact ⟨h, Keeps.refl b s⟩
  · intro s s' _ hinv hstep
    obtain ⟨op, hon, hop⟩ := hstep
    exact ⟨op.step_inv hinv.1 hop, hinv.2.trans (op.step_keeps hinv.1 hon hb hop)⟩

/-- **Forked contexts are equal and then independent.** `vfs_fork_context` makes a context with
the descriptors of the original on the same files; after any calls on one of the two, the other
maps its descriptors as before and its files are open. -/
theorem fork_independent (h : Reach Initial (Step dev) s) {c : Nat}
    (hlive : (s.contexts.lookup c).isSome) (hroom : s.contexts.full = false) :
    ∃ n s₁, s.forkContext dev c = .ok (.ok n, s₁) ∧ n ≠ c
      ∧ (∀ d, s₁.descriptor n d = s.descriptor c d ∧ s₁.descriptor c d = s.descriptor c d)
      ∧ ∀ a b, (a = c ∧ b = n) ∨ (a = n ∧ b = c) →
          ∀ s₂, Reach (· = s₁) (StepOn dev a) s₂ → Keeps b s₁ s₂
            ∧ ∀ d g, s₂.descriptor b d = some g →
                ∃ file, s₂.openedFiles.lookup g = some file := by
  obtain ⟨n, s₁, hfork, hinv, hfree, _, hcopy, hkeeps⟩ := forkContext_spec (reach_inv h) hlive hroom
  have hne : n ≠ c := by
    rintro rfl
    rw [hfree] at hlive
    cases hlive
  refine ⟨n, s₁, hfork, hne, fun d => ⟨hcopy d, (hkeeps c (Ne.symm hne)).descriptors d⟩, ?_⟩
  intro a b hab s₂ hrun
  have hb : b ≠ a := by
    rcases hab with ⟨ha, hb⟩ | ⟨ha, hb⟩
    · rw [ha, hb]
      exact hne
    · rw [ha, hb]
      exact Ne.symm hne
  obtain ⟨hinv₂, hkept⟩ := reachOn_keeps hinv hb hrun
  exact ⟨hkept, fun d g hd => hinv₂.file_of_descriptor hd⟩

theorem fork_independent_one :
    ∃ s : Vfs Unit, Reach Initial (Step singleDevice) s ∧ s.descriptor 0 0 = some 0
      ∧ ∃ n s₁, s.forkContext singleDevice 0 = .ok (.ok n, s₁) ∧ n ≠ 0
        ∧ s₁.descriptor n 0 = some 0 := by
  have hrun : ((start.runAll singleDevice [.createContext, .openPath 0 "a" 0]).map fun s =>
      (s.descriptor 0 0, (s.contexts.lookup 0).isSome, s.contexts.full))
        = .ok (some 0, true, false) := by decide +kernel
  obtain ⟨s, hs, hfacts⟩ := map_ok.mp hrun
  obtain ⟨hd, hlive, hroom⟩ : s.descriptor 0 0 = some 0 ∧ (s.contexts.lookup 0).isSome = true
      ∧ s.contexts.full = false := by
    simpa using hfacts
  have hreach := reach_runAll start_reach hs
  obtain ⟨n, s₁, hfork, hne, hcopy, _⟩ := fork_independent hreach hlive hroom
  exact ⟨s, hreach, hd, n, s₁, hfork, hne, (hcopy 0).1.trans hd⟩

/-! ## System calls -/

inductive Syscall where
  | openFile (filename : String) (flags : UInt32)
  | close (fd : Int)
  | dup2 (fd aliasFd : Int)

def Syscall.run (dev : Devices σ) (s : Vfs σ) (c : Nat) : Syscall → Checked (Int × Vfs σ)
  | .openFile filename flags => s.syscallOpen dev c filename flags
  | .close fd => s.syscallClose dev c fd
  | .dup2 fd aliasFd => s.syscallDup2 dev c fd aliasFd

/-- The call returns, and an error leaves every table as it was. -/
def Syscall.Sound (dev : Devices σ) (s : Vfs σ) (c : Nat) (call : Syscall) : Prop :=
  ∃ r s', call.run dev s c = .ok (r, s') ∧ (0 ≤ r
    ∨ (∀ b d, s'.descriptor b d = s.descriptor b d)
      ∧ ∀ f, s'.openedFiles.lookup f = s.openedFiles.lookup f)

def Syscall.Safe (dev : Devices σ) (s : Vfs σ) (c : Nat) (context : Context) : Syscall → Prop
  | .openFile filename flags => ∃ device restPath accepted,
      dev.locate filename = .ok (device, restPath)
      ∧ accepts dev s device restPath flags = .ok accepted
      ∧ (accepted = true → s.openedFiles.full = false ∧ context.descriptors.full = false)
  | .close fd => ∃ f file, s.descriptor c (toHandle fd) = some f
      ∧ s.openedFiles.lookup f = some file
      ∧ (file.refCount = 1 → 0 ≤ closeAnswer dev s file.device file.deviceLocalHandle)
  | .dup2 fd aliasFd => (s.descriptor c (toHandle fd)).isSome → toHandle aliasFd < 16

theorem openFile_sound_iff (h : s.Inv dev) (hc : s.contexts.lookup c = some context)
    (filename : String) (flags : UInt32) :
    (Syscall.openFile filename flags).Sound dev s c
      ↔ (Syscall.openFile filename flags).Safe dev s c context := by
  unfold Syscall.Sound Syscall.Safe Syscall.run syscallOpen
  simp only
  constructor
  · rintro ⟨r, s', hrun, _⟩
    obtain ⟨⟨result, s1⟩, hopen, _⟩ := bind_ok.mp hrun
    obtain ⟨device, restPath, accepted, hlocate, haccepts⟩ := openPath_answered hopen
    refine ⟨device, restPath, accepted, hlocate, haccepts, ?_⟩
    rintro rfl
    by_contra hfull
    rw [Classical.not_and_iff_not_or_not, Bool.not_eq_false, Bool.not_eq_false] at hfull
    rw [openPath_full hlocate h hc haccepts hfull] at hopen
    cases hopen
  · rintro ⟨device, restPath, accepted, hlocate, haccepts, hroom⟩
    cases accepted with
    | false =>
      obtain ⟨e, drivers, hopen, hneg⟩ := openPath_refuses hlocate hc haccepts
      refine ⟨e, { s with drivers := drivers }, ?_, .inr ⟨fun _ _ => rfl, fun _ => rfl⟩⟩
      rw [hopen, ok_bind]
      simp only [hneg, decide_true, check_true, ok_bind]
    | true =>
      obtain ⟨hfiles, hdescriptors⟩ := hroom rfl
      obtain ⟨fd, s', f, file, hopen, _⟩ :=
        openPath_accepts hlocate h hc haccepts hfiles hdescriptors
      exact ⟨fd, s', by rw [hopen, ok_bind], .inl (by omega)⟩

theorem close_sound_iff (h : s.Inv dev) (context : Context) (fd : Int) :
    (Syscall.close fd).Sound dev s c ↔ (Syscall.close fd).Safe dev s c context := by
  unfold Syscall.Sound Syscall.Safe Syscall.run syscallClose
  simp only
  constructor
  · rintro ⟨r, s', hcall, hsound⟩
    obtain ⟨f, hd⟩ := close_ok hcall
    obtain ⟨file, hf⟩ := h.file_of_descriptor hd
    refine ⟨f, file, hd, hf, ?_⟩
    intro hone
    obtain ⟨s1, hclose, _, hclosed⟩ := close_spec h hd hf
    have hlast : s.refs f = 1 := by
      have := (h.counted f file hf).1
      omega
    rw [if_pos hlast] at hclose
    rw [hclose] at hcall
    cases hcall
    -- an error code would come with the descriptor gone
    refine hsound.resolve_right ?_
    rintro ⟨htable, _⟩
    have hsame := htable c (toHandle fd)
    rw [hclosed.unlinks, if_pos ⟨rfl, rfl⟩, hd] at hsame
    cases hsame
  · rintro ⟨f, file, hd, hf, hanswer⟩
    obtain ⟨s1, hclose, _⟩ := close_spec h hd hf
    refine ⟨_, s1, hclose, .inl ?_⟩
    by_cases hlast : s.refs f = 1
    · rw [if_pos hlast]
      apply hanswer
      have := (h.counted f file hf).1
      omega
    · rw [if_neg hlast]

theorem dup2_sound_iff (h : s.Inv dev) (hc : s.contexts.lookup c = some context)
    (fd aliasFd : Int) :
    (Syscall.dup2 fd aliasFd).Sound dev s c ↔ (Syscall.dup2 fd aliasFd).Safe dev s c context := by
  unfold Syscall.Sound Syscall.Safe Syscall.run syscallDup2
  simp only
  cases hsrc : s.descriptor c (toHandle fd) with
  | none =>
    refine ⟨fun _ hsome => (by cases hsome), fun _ => ?_⟩
    exact ⟨ENOENT, s, aliasFd_missing h.shaped hc hsrc hc, .inr ⟨fun _ _ => rfl, fun _ => rfl⟩⟩
  | some f =>
    constructor
    · rintro ⟨r, s', hcall, _⟩ _
      by_contra hroom
      rw [aliasFd_outside h.shaped hsrc hc (by omega)] at hcall
      cases hcall
    · intro hsafe
      have hroom := hsafe rfl
      cases hdst : s.descriptor c (toHandle aliasFd) with
      | none =>
        obtain ⟨file, hf⟩ := h.file_of_descriptor hsrc
        obtain ⟨s', halias, _⟩ := aliasFd_spec h hsrc hf hc hroom hdst
        exact ⟨0, s', halias, .inl (by omega)⟩
      | some g =>
        by_cases hgf : g = f
        · exact ⟨0, s, aliasFd_same h.shaped hsrc (hgf ▸ hdst), .inl (by omega)⟩
        · obtain ⟨_, s', _, _, _, _, halias, _⟩ := aliasFd_replace h hsrc hdst hgf
          exact ⟨0, s', halias, .inl (by omega)⟩

/-- **When a system call on descriptors is sound.** `open` needs a driver that fails no assertion,
and room in both pools for a file that it opens; `close` an open descriptor, and a driver that
does not fail to close its file; `dup2` of an open descriptor an alias below 16. -/
theorem syscall_sound_iff (h : Reach Initial (Step dev) s) {c : Nat} {context : Context}
    (hc : s.contexts.lookup c = some context) (call : Syscall) :
    call.Sound dev s c ↔ call.Safe dev s c context := by
  have hinv := reach_inv h
  cases call with
  | openFile filename flags => exact openFile_sound_iff hinv hc filename flags
  | close fd => exact close_sound_iff hinv context fd
  | dup2 fd aliasFd => exact dup2_sound_iff hinv hc fd aliasFd

theorem syscall_sound_iff_last :
    ∃ s : Vfs Unit, Reach Initial (Step singleDevice) s ∧ s.descriptor 0 0 = some 0
      ∧ (Syscall.dup2 0 15).Sound singleDevice s 0 := by
  have hrun : ((start.runAll singleDevice [.createContext, .openPath 0 "a" 0]).map fun s =>
      s.descriptor 0 0) = .ok (some 0) := by decide +kernel
  obtain ⟨s, hs, hd⟩ := map_ok.mp hrun
  have hreach := reach_runAll start_reach hs
  obtain ⟨context, hc, _⟩ := descriptor_some hd
  exact ⟨s, hreach, hd, (syscall_sound_iff hreach hc (.dup2 0 15)).mpr fun _ => by decide⟩

/-- The terminals: `open` asserts that nothing is left of the path. -/
def terminals : Devices Unit :=
  { singleDevice with
    openFile := fun _ _ path _ => do
      check (path.isEmpty) "path[0] == '\\0'"
      .ok (0, ()) }

/-- **Four calls that stop the kernel**: closing a descriptor that is not open, duplicating
beyond the 16 descriptors, opening a seventeenth file, and opening a file below a terminal. -/
theorem syscalls_stop :
    (start.runAll singleDevice [.createContext] >>= fun s =>
        s.syscallClose singleDevice 0 (-1)).map Prod.fst = .error (.assertion "valid(idx)")
      ∧ (start.runAll singleDevice [.createContext, .openPath 0 "a" 0] >>= fun s =>
          s.syscallDup2 singleDevice 0 0 16).map Prod.fst
        = .error (.assertion "_data_begin + idx < _data_end")
      ∧ (start.runAll singleDevice (.createContext :: List.replicate 16 (.openPath 0 "a" 0))
          >>= fun s => s.syscallOpen singleDevice 0 "a" 0).map Prod.fst
        = .error (.assertion "_data_begin + idx < _data_end")
      ∧ (start.runAll terminals [.createContext] >>= fun s =>
          s.syscallOpen terminals 0 "x" 0).map Prod.fst
        = .error (.assertion "path[0] == '\\0'") := by
  refine ⟨?_, ?_, ?_, ?_⟩
  · decide +kernel
  · decide +kernel
  · decide +kernel
  · decide +kernel

end Vfs

end Peos2.Kernel
