/-
  Support.PageAlloc — the allocator of physical pages (`libraries/support/page_alloc.h`).

  The first pages of a region hold a stack of addresses that were given back; the rest
  was handed out up to a watermark. A page that is given back lowers the watermark if it
  is the last one below it, and goes onto the stack otherwise.

  Main result: `pages_once`.
-/
import Mathlib.Data.Set.Insert
import Peos2.Lib.Run
import Peos2.Support.Pool

namespace Peos2.Support

open Peos2.Lib List

/-- `p2::page_allocator`; the stack is listed from its top. -/
structure PageAllocator where
  /-- `_phys_region.end` -/
  regionEnd : Nat
  /-- `_phys_bookkeeping.end` -/
  bookkeepingEnd : Nat
  watermark : Nat
  /-- `*_fs_start` up to `*_fs_head` -/
  freeStack : List Nat
  /-- `_fs_end - _fs_start` -/
  capacity : Nat

namespace PageAllocator

/-- `page_allocator(const region &phys_region, uintptr_t virtual_offset)`, for a
region that does not end before it starts. -/
def create (start stop : Nat) : Checked PageAllocator := do
  check (start % 0x1000 = 0) "(phys_region.start & 0xFFF) == 0"
  check (stop % 0x1000 = 0) "(phys_region.end & 0xFFF) == 0"
  let neededForBookkeeping := (stop - start) / 0x1000 * 4
  let freeListSizePages := (neededForBookkeeping + 0x0FFF) / 0x1000
  let bookkeepingEnd := start + freeListSizePages * 0x1000
  check (bookkeepingEnd % 0x1000 = 0) "(_phys_bookkeeping.end & 0xFFF) == 0"
  check (bookkeepingEnd < stop) "_phys_bookkeeping.end < phys_region.end"
  .ok ⟨stop, bookkeepingEnd, bookkeepingEnd, [], freeListSizePages * 0x400⟩

/-- `void *alloc_page()` -/
def allocPage (a : PageAllocator) : Checked (Nat × PageAllocator) :=
  match a.freeStack with
  | page :: rest => do
      check (a.freeStack.length < a.capacity) "_fs_head < _fs_end"
      .ok (page, { a with freeStack := rest })
  | [] => do
      check (a.watermark < a.regionEnd) "(uintptr_t)_watermark < _phys_region.end"
      .ok (a.watermark, { a with watermark := a.watermark + 0x1000 })

/-- `void free_page(void *page)` -/
def freePage (a : PageAllocator) (page : Nat) : Checked PageAllocator := do
  check (page % 0x1000 = 0) "((uintptr_t)page & 0xFFF) == 0"
  if page + 0x1000 = a.watermark then do
    check (a.watermark > a.bookkeepingEnd) "(uintptr_t)_watermark > _phys_bookkeeping.end"
    .ok { a with watermark := a.watermark - 0x1000 }
  else do
    check (a.freeStack.length < a.capacity) "_fs_head < _fs_end"
    .ok { a with freeStack := page :: a.freeStack }

/-- The pages in `out` are those handed out and not given back. -/
structure Tracks (a : PageAllocator) (out : Set Nat) : Prop where
  startAligned : a.bookkeepingEnd % 0x1000 = 0
  aligned : a.watermark % 0x1000 = 0
  low : a.bookkeepingEnd ≤ a.watermark
  endAligned : a.regionEnd % 0x1000 = 0
  high : a.watermark ≤ a.regionEnd
  /-- The stack has room for every page. -/
  room : (a.regionEnd - a.bookkeepingEnd) / 0x1000 < a.capacity
  nodup : a.freeStack.Nodup
  /-- The pages below the watermark are out or on the stack. -/
  split : ∀ p, (p ∈ out ∨ p ∈ a.freeStack)
    ↔ p % 0x1000 = 0 ∧ a.bookkeepingEnd ≤ p ∧ p < a.watermark
  apart : ∀ p ∈ a.freeStack, p ∉ out

variable {a a' : PageAllocator} {out : Set Nat} {page : Nat}

theorem tracks_create {start stop : Nat} (h : create start stop = .ok a) : a.Tracks ∅ := by
  obtain ⟨_, hstart, h⟩ := bind_ok.mp h
  obtain ⟨_, hstop, h⟩ := bind_ok.mp h
  obtain ⟨_, hbook, h⟩ := bind_ok.mp h
  obtain ⟨_, hroom, h⟩ := bind_ok.mp h
  rw [check_ok, decide_eq_true_eq] at hstart hstop hbook hroom
  cases h
  refine ⟨hbook, hbook, Nat.le_refl _, hstop, Nat.le_of_lt hroom, ?_, nodup_nil, ?_, ?_⟩
  · -- the stack has a word for every page of the region, and the region lost at least one page
    show (stop - (start + ((stop - start) / 0x1000 * 4 + 0x0FFF) / 0x1000 * 0x1000)) / 0x1000
      < ((stop - start) / 0x1000 * 4 + 0x0FFF) / 0x1000 * 0x400
    omega
  · intro p
    constructor
    · rintro (hp | hp)
      · exact absurd hp (Set.notMem_empty p)
      · cases hp
    · rintro ⟨_, hle, hlt⟩
      exact absurd hlt (Nat.not_lt.mpr hle)
  · intro p hp
    cases hp

theorem Tracks.stack_lt (h : a.Tracks out) : a.freeStack.length < a.capacity := by
  have hpage : ∀ p ∈ a.freeStack, p % 0x1000 = 0 ∧ a.bookkeepingEnd ≤ p ∧ p < a.watermark :=
    fun p hp => (h.split p).mp (.inr hp)
  have hroom := h.room
  have hhigh := h.high
  have hend := h.endAligned
  have hlength := Pool.length_le_of_nodup
    (l := a.freeStack.map fun p => (p - a.bookkeepingEnd) / 0x1000)
    (n := (a.regionEnd - a.bookkeepingEnd) / 0x1000)
    (List.Nodup.map_on (fun p hp q hq heq => by
      have := hpage p hp
      have := hpage q hq
      omega) h.nodup)
    (fun i hi => by
      obtain ⟨p, hp, rfl⟩ := mem_map.mp hi
      have := hpage p hp
      omega)
  rw [length_map] at hlength
  omega

theorem Tracks.alloc (h : a.Tracks out) (hcall : a.allocPage = .ok (page, a')) :
    page ∉ out ∧ page % 0x1000 = 0 ∧ a'.Tracks (insert page out) := by
  unfold allocPage at hcall
  cases hstack : a.freeStack with
  | cons top rest =>
    rw [hstack] at hcall
    obtain ⟨_, _, hcall⟩ := bind_ok.mp hcall
    cases hcall
    have hnodup := h.nodup
    rw [hstack] at hnodup
    have htop : page ∈ a.freeStack := by simp [hstack]
    refine ⟨h.apart page htop, ((h.split page).mp (.inr htop)).1, ?_⟩
    refine ⟨h.startAligned, h.aligned, h.low, h.endAligned, h.high, h.room,
      (nodup_cons.mp hnodup).2, ?_, ?_⟩
    · intro p
      have hsplit := h.split p
      rw [hstack, mem_cons] at hsplit
      rw [Set.mem_insert_iff]
      tauto
    · intro p hp hout
      rcases Set.mem_insert_iff.mp hout with rfl | hout
      · exact (nodup_cons.mp hnodup).1 hp
      · exact h.apart p (by rw [hstack]; exact mem_cons_of_mem _ hp) hout
  | nil =>
    rw [hstack] at hcall
    obtain ⟨_, hroom, hcall⟩ := bind_ok.mp hcall
    rw [check_ok, decide_eq_true_eq] at hroom
    cases hcall
    have haligned := h.aligned
    have hend := h.endAligned
    have hlow := h.low
    have hsplit : ∀ p, p ∈ out ↔ p % 0x1000 = 0 ∧ a.bookkeepingEnd ≤ p ∧ p < a.watermark := by
      intro p
      rw [← h.split p, hstack]
      simp
    refine ⟨fun hout => ?_, haligned, ?_⟩
    · have := ((hsplit a.watermark).mp hout).2.2
      omega
    · refine ⟨h.startAligned, ?_, ?_, hend, ?_, h.room, nodup_nil, ?_, ?_⟩
      · show (a.watermark + 0x1000) % 0x1000 = 0
        omega
      · show a.bookkeepingEnd ≤ a.watermark + 0x1000
        omega
      · show a.watermark + 0x1000 ≤ a.regionEnd
        omega
      · intro p
        show (p ∈ insert a.watermark out ∨ p ∈ [])
          ↔ p % 0x1000 = 0 ∧ a.bookkeepingEnd ≤ p ∧ p < a.watermark + 0x1000
        rw [Set.mem_insert_iff, hsplit p]
        simp only [not_mem_nil, or_false]
        omega
      · intro p hp
        cases hp

theorem Tracks.free (h : a.Tracks out) (hp : page ∈ out) :
    ∃ a', a.freePage page = .ok a' ∧ a'.Tracks (out \ {page}) := by
  obtain ⟨hpage, _⟩ := (h.split page).mp (.inl hp)
  have hstack : page ∉ a.freeStack := fun hmem => h.apart page hmem hp
  have hrest : ∀ p ∈ a.freeStack, p ∉ out \ {page} := fun p hmem hout => h.apart p hmem hout.1
  unfold freePage
  rw [decide_eq_true hpage, check_true, ok_bind]
  by_cases htop : page + 0x1000 = a.watermark
  · rw [if_pos htop, decide_eq_true (by omega : a.watermark > a.bookkeepingEnd), check_true,
      ok_bind]
    have hbound := h.high
    refine ⟨_, rfl, h.startAligned, ?_, ?_, h.endAligned, ?_, h.room, h.nodup, ?_, hrest⟩
    · show (a.watermark - 0x1000) % 0x1000 = 0
      omega
    · show a.bookkeepingEnd ≤ a.watermark - 0x1000
      omega
    · show a.watermark - 0x1000 ≤ a.regionEnd
      omega
    · intro p
      show (p ∈ out \ {page} ∨ p ∈ a.freeStack)
        ↔ p % 0x1000 = 0 ∧ a.bookkeepingEnd ≤ p ∧ p < a.watermark - 0x1000
      have hsplit := h.split p
      rw [Set.mem_sdiff, Set.mem_singleton_iff]
      by_cases heq : p = page
      · subst heq
        simp only [not_true_eq_false, and_false, false_or]
        exact ⟨fun hmem => absurd hmem hstack, fun hin => by omega⟩
      · simp only [heq, not_false_eq_true, and_true]
        rw [hsplit]
        omega
  · rw [if_neg htop, decide_eq_true h.stack_lt, check_true, ok_bind]
    refine ⟨_, rfl, h.startAligned, h.aligned, h.low, h.endAligned, h.high, h.room,
      nodup_cons.mpr ⟨hstack, h.nodup⟩, ?_, ?_⟩
    · intro p
      show (p ∈ out \ {page} ∨ p ∈ page :: a.freeStack) ↔ _
      rw [← h.split p, Set.mem_sdiff]
      by_cases heq : p = page
      · subst heq
        simp [hp]
      · simp [heq]
    · intro p hmem hout
      rcases mem_cons.mp hmem with rfl | hmem
      · exact hout.2 rfl
      · exact hrest p hmem hout

/-! The pages that may still be handed out. -/

/-! ## What is left -/

/-- `size_t free_pages() const` -/
def freePages (a : PageAllocator) : Nat :=
  (a.regionEnd - a.watermark) / 0x1000 + a.freeStack.length

/-- The pages from the bookkeeping area up to the watermark, in order. -/
def pagesBelow (a : PageAllocator) : List Nat :=
  (List.range ((a.watermark - a.bookkeepingEnd) / 0x1000)).map (a.bookkeepingEnd + 0x1000 * ·)

theorem Tracks.perm_pagesBelow {l : List Nat} (h : a.Tracks {p | p ∈ l}) (hnodup : l.Nodup) :
    (l ++ a.freeStack).Perm a.pagesBelow := by
  have hleft : (l ++ a.freeStack).Nodup :=
    nodup_append.mpr ⟨hnodup, h.nodup, fun p hp q hq heq => h.apart q hq (heq ▸ hp)⟩
  have hright : a.pagesBelow.Nodup := by
    refine List.Nodup.map_on ?_ nodup_range
    intro i _ j _ heq
    omega
  have hstart := h.startAligned
  have haligned := h.aligned
  refine (perm_ext_iff_of_nodup hleft hright).mpr fun p => ?_
  rw [mem_append]
  show (p ∈ {p | p ∈ l} ∨ p ∈ a.freeStack) ↔ _
  rw [h.split p, pagesBelow]
  simp only [mem_map, mem_range]
  constructor
  · intro hp
    exact ⟨(p - a.bookkeepingEnd) / 0x1000, by omega, by omega⟩
  · intro hp
    omega

theorem Tracks.freePages_add {l : List Nat} (h : a.Tracks {p | p ∈ l}) (hnodup : l.Nodup) :
    a.freePages + l.length = (a.regionEnd - a.bookkeepingEnd) / 0x1000 := by
  have hlength := (h.perm_pagesBelow hnodup).length_eq
  rw [length_append, pagesBelow, length_map, length_range] at hlength
  have hlow := h.low
  have hhigh := h.high
  have hstart := h.startAligned
  have haligned := h.aligned
  unfold freePages
  omega

theorem Tracks.alloc_spec (h : a.Tracks out) (hfree : 0 < a.freePages) :
    ∃ page a', a.allocPage = .ok (page, a') := by
  unfold allocPage
  cases hstack : a.freeStack with
  | cons top rest =>
    have hroom := h.stack_lt
    rw [hstack] at hroom
    simp only
    rw [decide_eq_true hroom, check_true, ok_bind]
    exact ⟨_, _, rfl⟩
  | nil =>
    have hroom : a.watermark < a.regionEnd := by
      rw [freePages, hstack, length_nil] at hfree
      omega
    rw [decide_eq_true hroom, check_true, ok_bind]
    exact ⟨_, _, rfl⟩

def SameRegion (a a' : PageAllocator) : Prop :=
  a'.regionEnd = a.regionEnd ∧ a'.bookkeepingEnd = a.bookkeepingEnd

theorem allocPage_sameRegion (hcall : a.allocPage = .ok (page, a')) : a.SameRegion a' := by
  unfold allocPage at hcall
  split at hcall
  all_goals
    obtain ⟨_, _, hcall⟩ := bind_ok.mp hcall
    cases hcall
    exact ⟨rfl, rfl⟩

theorem freePage_sameRegion (hcall : a.freePage page = .ok a') : a.SameRegion a' := by
  obtain ⟨_, _, hcall⟩ := bind_ok.mp hcall
  split at hcall
  all_goals
    obtain ⟨_, _, hcall⟩ := bind_ok.mp hcall
    cases hcall
    exact ⟨rfl, rfl⟩

def bookkeepingSize (start stop : Nat) : Nat :=
  ((stop - start) / 0x1000 * 4 + 0x0FFF) / 0x1000 * 0x1000

theorem create_spec {start stop : Nat} (hstart : start % 0x1000 = 0) (hstop : stop % 0x1000 = 0)
    (hsize : bookkeepingSize start stop < stop - start) :
    ∃ a, create start stop = .ok a ∧ a.regionEnd = stop
      ∧ a.bookkeepingEnd = start + bookkeepingSize start stop := by
  unfold bookkeepingSize at hsize ⊢
  unfold create
  rw [decide_eq_true hstart, check_true, ok_bind, decide_eq_true hstop, check_true, ok_bind]
  simp only
  rw [decide_eq_true (by omega), check_true, ok_bind, decide_eq_true (by omega), check_true,
    ok_bind]
  exact ⟨_, rfl, rfl, rfl⟩

end PageAllocator

/-! ## Whole runs -/

inductive PageCall
  /-- `alloc_page()` -/
  | alloc
  /-- `free_page(page)` -/
  | free (page : Nat)

/-- An allocator and the pages that its user was given and has not given back. -/
structure PageUser where
  allocator : PageAllocator
  out : List Nat

namespace PageUser

def perform (u : PageUser) : PageCall → Checked PageUser
  | .alloc => do
      let (page, allocator) ← u.allocator.allocPage
      .ok ⟨allocator, page :: u.out⟩
  | .free page => do
      let allocator ← u.allocator.freePage page
      .ok ⟨allocator, u.out.erase page⟩

/-- Pages are asked for while some are left, and given back by whoever has
them. -/
def Permitted (u : PageUser) : PageCall → Prop
  | .alloc => 0 < u.allocator.freePages
  | .free page => page ∈ u.out

def Step (u u' : PageUser) : Prop := ∃ call, u.Permitted call ∧ u.perform call = .ok u'

structure Sound (u : PageUser) : Prop where
  tracks : u.allocator.Tracks {p | p ∈ u.out}
  nodup : u.out.Nodup

variable {u u' : PageUser} {call : PageCall}

theorem Sound.returns (h : u.Sound) (hpermitted : u.Permitted call) :
    ∃ u', u.perform call = .ok u' := by
  cases call with
  | alloc =>
    obtain ⟨page, a, hcall⟩ := h.tracks.alloc_spec hpermitted
    exact ⟨⟨a, page :: u.out⟩, by rw [perform, hcall, ok_bind]⟩
  | free page =>
    obtain ⟨a, hcall, _⟩ := h.tracks.free hpermitted
    exact ⟨⟨a, u.out.erase page⟩, by rw [perform, hcall, ok_bind]⟩

variable {page : Nat}

theorem Sound.alloc (h : u.Sound) {a : PageAllocator}
    (hcall : u.allocator.allocPage = .ok (page, a)) :
    page ∉ u.out ∧ (PageUser.mk a (page :: u.out)).Sound := by
  obtain ⟨hfresh, _, htracks⟩ := h.tracks.alloc hcall
  refine ⟨hfresh, ?_, nodup_cons.mpr ⟨hfresh, h.nodup⟩⟩
  have hset : {p | p ∈ page :: u.out} = insert page {p | p ∈ u.out} := by
    ext p
    exact mem_cons
  show a.Tracks {p | p ∈ page :: u.out}
  rw [hset]
  exact htracks

theorem Sound.free (h : u.Sound) {a : PageAllocator} (hpage : page ∈ u.out)
    (hcall : u.allocator.freePage page = .ok a) : (PageUser.mk a (u.out.erase page)).Sound := by
  obtain ⟨a', hcall', htracks⟩ := h.tracks.free hpage
  rw [hcall] at hcall'
  cases hcall'
  refine ⟨?_, h.nodup.erase page⟩
  have hset : {p | p ∈ u.out.erase page} = {p | p ∈ u.out} \ {page} := by
    ext p
    show p ∈ u.out.erase page ↔ p ∈ u.out ∧ p ≠ page
    rw [h.nodup.mem_erase_iff]
    exact and_comm
  show a.Tracks {p | p ∈ u.out.erase page}
  rw [hset]
  exact htracks

theorem Sound.step (h : u.Sound) (hstep : u.Step u') :
    u'.Sound ∧ u.allocator.SameRegion u'.allocator := by
  obtain ⟨call, hpermitted, hcall⟩ := hstep
  cases call with
  | alloc =>
    rw [perform, bind_ok] at hcall
    obtain ⟨⟨page, a⟩, halloc, hcall⟩ := hcall
    cases hcall
    exact ⟨(h.alloc halloc).2, PageAllocator.allocPage_sameRegion halloc⟩
  | free page =>
    rw [perform, bind_ok] at hcall
    obtain ⟨a, hfree, hcall⟩ := hcall
    cases hcall
    exact ⟨h.free hpermitted hfree, PageAllocator.freePage_sameRegion hfree⟩

theorem Sound.out_page (h : u.Sound) (hpage : page ∈ u.out) :
    page % 0x1000 = 0 ∧ u.allocator.bookkeepingEnd ≤ page
      ∧ page + 0x1000 ≤ u.allocator.regionEnd := by
  have hin := (h.tracks.split page).mp (.inl hpage)
  have haligned := h.tracks.aligned
  have hhigh := h.tracks.high
  omega

end PageUser

open PageAllocator in
/-- **Each page is handed out once.** For every region of whole pages larger than its
bookkeeping area, in every run of permitted calls: what is out are pages behind that area,
`free_pages` counts the others there, every permitted call returns, and `alloc_page` returns a
page that nobody has. -/
theorem pages_once (start stop : Nat) (hstart : start % 0x1000 = 0) (hstop : stop % 0x1000 = 0)
    (hsize : bookkeepingSize start stop < stop - start) :
    ∃ a, create start stop = .ok a ∧
      ∀ u, Reach (· = PageUser.mk a []) PageUser.Step u →
        u.out.Nodup
        ∧ (∀ page ∈ u.out, page % 0x1000 = 0 ∧ start + bookkeepingSize start stop ≤ page
            ∧ page + 0x1000 ≤ stop)
        ∧ u.out.length ≤ (stop - (start + bookkeepingSize start stop)) / 0x1000
        ∧ u.allocator.freePages
            = (stop - (start + bookkeepingSize start stop)) / 0x1000 - u.out.length
        ∧ (∀ call, u.Permitted call → ∃ u', u.perform call = .ok u')
        ∧ ∀ page a', u.allocator.allocPage = .ok (page, a') → page ∉ u.out
            ∧ page % 0x1000 = 0 ∧ start + bookkeepingSize start stop ≤ page
            ∧ page + 0x1000 ≤ stop := by
  obtain ⟨a, hcreate, hend, hbook⟩ := create_spec hstart hstop hsize
  refine ⟨a, hcreate, fun u hreach => ?_⟩
  obtain ⟨hsound, hregion, hbooks⟩ : u.Sound ∧ u.allocator.regionEnd = stop
      ∧ u.allocator.bookkeepingEnd = start + bookkeepingSize start stop := by
    refine @Reach.invariant _ _ _ (fun u => u.Sound ∧ u.allocator.regionEnd = stop
      ∧ u.allocator.bookkeepingEnd = start + bookkeepingSize start stop) ?_ ?_ u hreach
    · intro u hu
      subst hu
      refine ⟨⟨?_, nodup_nil⟩, hend, hbook⟩
      have hset : {p | p ∈ ([] : List Nat)} = ∅ := by
        ext p
        simp
      show a.Tracks {p | p ∈ ([] : List Nat)}
      rw [hset]
      exact tracks_create hcreate
    · intro u u' _ hu hstep
      obtain ⟨hu', hsame⟩ := hu.1.step hstep
      exact ⟨hu', hsame.1.trans hu.2.1, hsame.2.trans hu.2.2⟩
  have hcount := hsound.tracks.freePages_add hsound.nodup
  rw [hregion, hbooks] at hcount
  refine ⟨hsound.nodup, fun page hpage => ?_, by omega, by omega,
    fun call hcall => hsound.returns hcall, fun page a' halloc => ?_⟩
  · rw [← hbooks, ← hregion]
    exact hsound.out_page hpage
  · -- after the call the page is out
    obtain ⟨hfresh, hsound'⟩ := hsound.alloc halloc
    obtain ⟨hregion', hbooks'⟩ := allocPage_sameRegion halloc
    rw [← hbooks, ← hregion, ← hbooks', ← hregion']
    exact ⟨hfresh, hsound'.out_page (mem_cons_self ..)⟩

instance PageUser.decidablePermitted (u : PageUser) : (call : PageCall) → Decidable (u.Permitted call)
  | .alloc => inferInstanceAs (Decidable (0 < _))
  | .free page => inferInstanceAs (Decidable (page ∈ u.out))

/-- Of four pages the first is given back and handed out again. One is left then, and the next
call returns it. -/
theorem pages_once_reused : ∃ a u u', PageAllocator.create 0x1000 0x6000 = .ok a
    ∧ runGuarded PageUser.Permitted PageUser.perform
        [.alloc, .alloc, .free 0x2000, .alloc, .alloc] ⟨a, []⟩ = .ok u
    ∧ u.out = [0x4000, 0x2000, 0x3000] ∧ u.allocator.freePages = 1
    ∧ u.perform .alloc = .ok u' := by
  obtain ⟨a, hcreate, hruns⟩ := pages_once 0x1000 0x6000 (by decide) (by decide) (by decide)
  have hrun : (PageAllocator.create 0x1000 0x6000 >>= fun a => (runGuarded PageUser.Permitted
      PageUser.perform [.alloc, .alloc, .free 0x2000, .alloc, .alloc] ⟨a, []⟩).map PageUser.out)
      = .ok [0x4000, 0x2000, 0x3000] := by
    decide +kernel
  rw [hcreate, ok_bind] at hrun
  obtain ⟨u, hcalls, hout⟩ := map_ok.mp hrun
  have hreach : Reach (· = PageUser.mk a []) PageUser.Step u :=
    Reach.runGuarded (fun _ call _ _ hpermitted hcall => ⟨call, hpermitted, hcall⟩) (.init rfl) hcalls
  obtain ⟨_, _, _, hfree, hreturns, _⟩ := hruns u hreach
  rw [hout] at hfree
  obtain ⟨u', hnext⟩ := hreturns .alloc (show 0 < u.allocator.freePages by rw [hfree]; decide)
  exact ⟨a, u, u', hcreate, hcalls, hout, hfree, hnext⟩

end Peos2.Support
