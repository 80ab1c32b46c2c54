/-
  Kernel.Memory — the areas of an address space and the check of user buffers
  (`kernel/memory.cc`, `kernel/memory_private.h`, `kernel/syscall_utils.h`).

  `valid_buffer` looks up two addresses: the first of the buffer, which must lie in an
  area open to system calls, and the sum of address and length, which must lie in the
  same area. The sum is one past the buffer, and is taken modulo 2^32.

  Main result: `validBuffer_exact_iff`.
-/
import Peos2.Lib.Word
import Peos2.Support.Pool

namespace Peos2.Kernel

open Peos2.Lib Peos2.Support

/-! ## Spaces and areas -/

/-- `area_info` -/
structure AreaInfo where
  start : UInt32
  stop : UInt32
  type : UInt16
  flags : UInt16
  infoHandle : UInt16
  deriving DecidableEq

/-- `#define MEM_AREA_SYSCALL 0x0100` -/
def memAreaSyscall : UInt16 := 0x0100

/-- `space_info`, as far as the lookup of areas reads it. -/
structure SpaceInfo where
  areas : Pool AreaInfo 32 0xFFFF

/-- `address >= area.start && address < area.end` -/
def AreaInfo.holds (area : AreaInfo) (address : UInt32) : Bool :=
  address ≥ area.start && address < area.stop

/-- `p2::opt<mem_area> mem_find_area(mem_space space_handle, uintptr_t address)` -/
def memFindArea (space : SpaceInfo) (address : UInt32) : Checked (Option Nat) :=
  space.areas.scan fun area => area.holds address

/-- `p2::opt<uint16_t> mem_area_flags(mem_space space_handle, const void *address)` -/
def memAreaFlags (space : SpaceInfo) (address : UInt32) : Checked (Option UInt16) := do
  match ← memFindArea space address with
  | some handle =>
    let area ← space.areas.get handle
    .ok (some area.flags)
  | none => .ok none

/-- `bool valid_pointer(const void *address)`, in the space of the caller. -/
def validPointer (space : SpaceInfo) (address : UInt32) : Checked Bool := do
  match ← memAreaFlags space address with
  | some flags => .ok (flags &&& memAreaSyscall != 0)
  | none => .ok false

/-- `bool valid_buffer(const void *address, size_t length)`, in the space of
the caller. -/
def validBuffer (space : SpaceInfo) (address length : UInt32) : Checked Bool := do
  if !(← validPointer space address) then .ok false
  else
    match ← memFindArea space address with
    | none => .ok false
    | some startArea =>
      match ← memFindArea space (address + length) with
      | none => .ok false
      | some endArea => .ok (startArea == endArea)

/-! ## What the lookups find -/

/-- The area contains the address, in whole numbers. -/
def AreaInfo.Spans (area : AreaInfo) (n : Nat) : Prop :=
  area.start.toNat ≤ n ∧ n < area.stop.toNat

/-- System calls may be given pointers into the area. -/
def AreaInfo.Open (area : AreaInfo) : Prop := area.flags &&& memAreaSyscall ≠ 0

instance (area : AreaInfo) : Decidable area.Open := inferInstanceAs (Decidable (_ ≠ _))

theorem AreaInfo.holds_iff {area : AreaInfo} {address : UInt32} :
    area.holds address = true ↔ area.Spans address.toNat := by
  unfold AreaInfo.holds AreaInfo.Spans
  rw [Bool.and_eq_true, decide_eq_true_eq, decide_eq_true_eq, ge_iff_le, le_iff_toNat, lt_iff_toNat]

namespace SpaceInfo

def Has (space : SpaceInfo) (i : Nat) (area : AreaInfo) : Prop := space.areas.lookup i = some area

def Disjoint (space : SpaceInfo) : Prop :=
  ∀ i j area area' n, space.Has i area → space.Has j area' → area.Spans n → area'.Spans n → i = j

theorem Has.unique {space : SpaceInfo} {i : Nat} {area area' : AreaInfo} (h : space.Has i area)
    (h' : space.Has i area') : area = area' := Option.some.inj (h.symm.trans h')

end SpaceInfo

variable {space : SpaceInfo}

/-- The search returns an area of the address, or finds there is none. -/
theorem memFindArea_spec (hwf : space.areas.WF) (address : UInt32) :
    (∃ i area, memFindArea space address = .ok (some i) ∧ space.Has i area
        ∧ area.Spans address.toNat)
      ∨ (memFindArea space address = .ok none
        ∧ ∀ i area, space.Has i area → ¬ area.Spans address.toNat) := by
  obtain ⟨r, hr, hfound⟩ := Pool.scan_spec hwf fun area => area.holds address
  cases r with
  | some i =>
    obtain ⟨area, hhas, htest⟩ := hfound
    exact .inl ⟨i, area, hr, hhas, AreaInfo.holds_iff.mp htest⟩
  | none =>
    refine .inr ⟨hr, ?_⟩
    intro i area hhas hspans
    have hno : area.holds address = false := hfound i area (Nat.zero_le i) hhas
    rw [AreaInfo.holds_iff.mpr hspans] at hno
    cases hno

theorem memFindArea_of_spans (hwf : space.areas.WF) (hdisj : space.Disjoint) {address : UInt32}
    {i : Nat} {area : AreaInfo} (hhas : space.Has i area) (hspans : area.Spans address.toNat) :
    memFindArea space address = .ok (some i) := by
  rcases memFindArea_spec hwf address with ⟨j, area', hfind, hhas', hspans'⟩ | ⟨_, hnone⟩
  · rw [hfind, hdisj i j area area' _ hhas hhas' hspans hspans']
  · exact absurd hspans (hnone i area hhas)

theorem validBuffer_eq (hwf : space.areas.WF) (hdisj : space.Disjoint) (address length : UInt32) :
    ∃ b, validBuffer space address length = .ok b ∧ (b = true ↔
      ∃ i area, space.Has i area ∧ area.Open ∧ area.Spans address.toNat
        ∧ area.Spans (address + length).toNat) := by
  rcases memFindArea_spec hwf address with ⟨i, area, hfind, hhas, hspans⟩ | ⟨hfind, hnone⟩
  · have hpointer : validPointer space address = .ok (area.flags &&& memAreaSyscall != 0) := by
      simp only [validPointer, memAreaFlags, hfind, ok_bind, Pool.get_spec hhas]
    by_cases hopen : area.Open
    · have htest : (area.flags &&& memAreaSyscall != 0) = true := bne_iff_ne.mpr hopen
      rcases memFindArea_spec hwf (address + length) with
        ⟨j, area', hfind', hhas', hspans'⟩ | ⟨hfind', hnone'⟩
      · refine ⟨i == j, ?_, ?_⟩
        · simp only [validBuffer, hpointer, htest, ok_bind, Bool.not_true, Bool.false_eq_true,
            if_false, hfind, hfind']
        · rw [beq_iff_eq]
          constructor
          · rintro rfl
            exact ⟨i, area, hhas, hopen, hspans, hhas.unique hhas' ▸ hspans'⟩
          · rintro ⟨k, area'', hk, _, hk1, hk2⟩
            rw [hdisj i k area area'' _ hhas hk hspans hk1,
              hdisj j k area' area'' _ hhas' hk hspans' hk2]
      refine ⟨false, ?_, ?_⟩
      · simp only [validBuffer, hpointer, htest, ok_bind, Bool.not_true, Bool.false_eq_true,
          if_false, hfind, hfind']
      · simp only [Bool.false_eq_true, false_iff]
        rintro ⟨k, area'', hk, _, _, hk2⟩
        exact hnone' k area'' hk hk2
    · have htest : (area.flags &&& memAreaSyscall != 0) = false := by
        rw [bne_eq_false_iff_eq]
        exact not_not.mp hopen
      refine ⟨false, ?_, ?_⟩
      · simp only [validBuffer, hpointer, htest, ok_bind, Bool.not_false, if_true]
      · simp only [Bool.false_eq_true, false_iff]
        rintro ⟨k, area'', hk, hko, hk1, _⟩
        have hik := hdisj i k area area'' _ hhas hk hspans hk1
        subst hik
        exact hopen (hhas.unique hk ▸ hko)
  · refine ⟨false, ?_, ?_⟩
    · simp only [validBuffer, validPointer, memAreaFlags, hfind, ok_bind, Bool.not_false, if_true]
    · simp only [Bool.false_eq_true, false_iff]
      rintro ⟨k, area'', hk, _, hk1, _⟩
      exact hnone k area'' hk hk1

/-! ## When the answer is right -/

/-- The buffer does not wrap, and every byte of it lies in one area open to
system calls. -/
def SafeBuffer (space : SpaceInfo) (address length : UInt32) : Prop :=
  address.toNat + length.toNat < 4294967296
    ∧ ∃ i area, space.Has i area ∧ area.Open
      ∧ ∀ n, address.toNat ≤ n → n < address.toNat + length.toNat → area.Spans n

/-- The buffer starts in an open area and ends with it, or wraps around to an
address of it. -/
def Misjudged (space : SpaceInfo) (address length : UInt32) : Prop :=
  ∃ i area, space.Has i area ∧ area.Open ∧ area.Spans address.toNat
    ∧ (address.toNat + length.toNat = area.stop.toNat
      ∨ area.start.toNat + 4294967296 ≤ address.toNat + length.toNat)

/-- **The check of a buffer is right except for two kinds**: those that end where their area
ends are refused, and those long enough to wrap around to their own area are let through. -/
theorem validBuffer_exact_iff (hwf : space.areas.WF) (hdisj : space.Disjoint)
    {address length : UInt32} (hlength : 1 ≤ length.toNat) :
    ((validBuffer space address length = .ok true) ↔ SafeBuffer space address length)
      ↔ ¬ Misjudged space address length := by
  obtain ⟨b, hb, hmeaning⟩ := validBuffer_eq hwf hdisj address length
  have hsum := toNat_add_eq address length
  have hlong := toNat_lt_border length
  have htrue : validBuffer space address length = .ok true ↔ b = true := by
    rw [hb]
    simp
  rw [htrue, hmeaning]
  constructor
  · rintro hexact ⟨i, area, hhas, hopen, hspans, hbad⟩
    have hstop := toNat_lt_border area.stop
    have h1 := hspans.1
    have h2 := hspans.2
    rcases hbad with hend | hwrap
    · -- ends with its area: safe, yet the sum is outside
      have hsafe : SafeBuffer space address length := by
        refine ⟨by omega, i, area, hhas, hopen, ?_⟩
        intro n hn1 hn2
        exact ⟨by omega, by omega⟩
      obtain ⟨j, area', hhas', _, hstart, hsumin⟩ := hexact.mpr hsafe
      have hij := hdisj i j area area' _ hhas hhas' hspans hstart
      subst hij
      have hsame := hhas.unique hhas'
      subst hsame
      have := hsumin.2
      omega
    · -- wraps around to its area: not safe, yet the sum is inside
      have hsafe := hexact.mp ⟨i, area, hhas, hopen, hspans, ⟨by omega, by omega⟩⟩
      have := hsafe.1
      omega
  · intro hfine
    constructor
    · rintro ⟨i, area, hhas, hopen, hspans, hsumin⟩
      have h1 := hspans.1
      have hs1 := hsumin.1
      have hs2 := hsumin.2
      have hnowrap : address.toNat + length.toNat < 4294967296 := by
        by_contra hwrap
        exact hfine ⟨i, area, hhas, hopen, hspans, .inr (by omega)⟩
      refine ⟨hnowrap, i, area, hhas, hopen, ?_⟩
      intro n hn1 hn2
      exact ⟨by omega, by omega⟩
    · rintro ⟨hnowrap, i, area, hhas, hopen, hall⟩
      have hspans := hall address.toNat (by omega) (by omega)
      have hlast := hall (address.toNat + length.toNat - 1) (by omega) (by omega)
      have h1 := hlast.1
      have h2 := hlast.2
      have hne : address.toNat + length.toNat ≠ area.stop.toNat := fun hend =>
        hfine ⟨i, area, hhas, hopen, hspans, .inl hend⟩
      exact ⟨i, area, hhas, hopen, hspans, ⟨by omega, by omega⟩⟩

def SpaceInfo.single (area : AreaInfo) : SpaceInfo := ⟨Pool.blank.topped area⟩

theorem SpaceInfo.single_wf (area : AreaInfo) : (single area).areas.WF :=
  ⟨by decide, by show 0 + 1 ≤ 32; decide, [], (Pool.clear_freeList Pool.blank).topped area⟩

theorem SpaceInfo.single_disjoint (area : AreaInfo) : (single area).Disjoint := by
  have hzero : ∀ {i : Nat} {area' : AreaInfo}, (single area).Has i area' → i = 0 := by
    intro i area' hhas
    have hlt : i < 0 + 1 := Pool.lookup_lt_watermark hhas
    omega
  intro i j area' area'' n hi hj _ _
  rw [hzero hi, hzero hj]

def openPage : AreaInfo := ⟨0x1000, 0x2000, 2, memAreaSyscall, 0⟩

theorem validBuffer_exact_iff_middle :
    (validBuffer (.single openPage) 0x1800 0x100 = .ok true
      ↔ SafeBuffer (.single openPage) 0x1800 0x100) := by
  refine (validBuffer_exact_iff (SpaceInfo.single_wf openPage) (SpaceInfo.single_disjoint openPage)
    (by decide)).mpr ?_
  rintro ⟨i, area, hhas, _, _, hbad⟩
  have hlt : i < 0 + 1 := Pool.lookup_lt_watermark hhas
  have hi : i = 0 := by omega
  subst hi
  cases hhas
  revert hbad
  decide

/-- **Both errors.** The last byte of the page is refused although it lies there; a buffer of
length -0x700, seen unsigned, is let through although it wraps. -/
theorem validBuffer_misjudges :
    (SpaceInfo.single openPage).Disjoint
      ∧ (validBuffer (.single openPage) 0x1FFF 1 = .ok false
        ∧ SafeBuffer (.single openPage) 0x1FFF 1)
      ∧ validBuffer (.single openPage) 0x1800 (unsigned (-0x700)) = .ok true
      ∧ ¬ SafeBuffer (.single openPage) 0x1800 (unsigned (-0x700)) := by
  refine ⟨SpaceInfo.single_disjoint openPage, ⟨by decide, ?_⟩, by decide, ?_⟩
  · refine ⟨by decide, 0, openPage, rfl, by decide, ?_⟩
    intro n hn1 hn2
    have h1 : 0x1FFF ≤ n := hn1
    have h2 : n < 0x1FFF + 1 := hn2
    exact ⟨show 0x1000 ≤ n by omega, show n < 0x2000 by omega⟩
  · intro hsafe
    exact absurd hsafe.1 (by decide)

end Peos2.Kernel
