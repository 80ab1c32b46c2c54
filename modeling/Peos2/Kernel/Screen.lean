/-
  Kernel.Screen — text on the screen (`kernel/screen.cc`, `kernel/screen_private.h`).

  Every terminal prints into a buffer of its own. What is printed to the current one is
  printed a second time into the memory of the screen. Nothing compares the two: that
  they show the same rests on both doing the same with every character.

  Left out: what is sent to the serial port for buffer 0, and whether the cursor is
  visible.

  Main result: `front_mirrors`.
-/
import Peos2.Lib.Run
import Peos2.Support.MemRange
import Peos2.Support.Pool

namespace Peos2.Kernel

open Peos2.Lib Peos2.Support Pool

/-! ## Buffers -/

/-- `NUM_COLUMNS` -/
def numColumns : Int := 80

/-- `NUM_ROWS` -/
def numRows : Int := 25

/-- `entry(bg_color, fg_color, letter)` -/
def entry (bgColor fgColor letter : UInt8) : UInt16 :=
  ((bgColor &&& 0xF).toUInt16 <<< 4 ||| (fgColor &&& 0xF).toUInt16) <<< 8
    ||| (letter &&& 0x7F).toUInt16

/-- White on black. -/
def plain (letter : UInt8) : UInt16 := entry 0x0 0xF letter

def blankEntry : UInt16 := plain 0x20

/-- `strlen`; a message is the memory from where it starts. -/
def strlen : List UInt8 → Checked UInt32
  | [] => .error .outOfBounds
  | c :: rest =>
    if c = 0 then .ok 0
    else do
      let length ← strlen rest
      .ok (length + 1)

/-- `buffer`, with its cells at the addresses 0 to 1999. -/
structure Buffer where
  cells : Memory UInt16
  position : Int

namespace Buffer

/-- `_buffer` -/
def range : MemRange := ⟨0, numColumns * numRows⟩

def new (storage : Memory UInt16) : Buffer := ⟨range.fill blankEntry storage, 0⟩

/-- The part of the loop of `print` that deals with a full screen. -/
def scroll (b : Buffer) (clearUntilEnd newline : Bool) : Checked (Buffer × Bool) :=
  if b.position ≥ numColumns * numRows then do
    let position := b.position - numColumns
    let cells ← (range.subrange 0 (numColumns * (numRows - 1))).assignOverlap
      (range.subrange numColumns (-1)) b.cells
    if newline then
      .ok (⟨(range.subrange position (-1)).fill blankEntry cells, position⟩, clearUntilEnd)
    else .ok (⟨cells, position⟩, true)
  else .ok (b, clearUntilEnd)

/-- The body of the loop of `print`, with `clear_until_end`. -/
def put (b : Buffer) (clearUntilEnd : Bool) (c : UInt8) : Checked (Buffer × Bool) :=
  if c = 0x08 then
    -- '\b'
    if b.position > 0 then do
      let cells ← range.set b.cells (b.position - 1) blankEntry
      .ok (⟨cells, b.position - 1⟩, clearUntilEnd)
    else .ok (b, clearUntilEnd)
  else if c = 0x0A then
    -- '\n' goes to the start of the next line
    scroll { b with position := b.position + (numColumns - b.position.tmod numColumns) }
      clearUntilEnd true
  else do
    let (b, clearUntilEnd) ← b.scroll clearUntilEnd false
    let cells ← range.set b.cells b.position (plain c)
    .ok (⟨cells, b.position + 1⟩, clearUntilEnd)

/-- The loop of `print`. -/
def printFrom : Buffer → Bool → List UInt8 → Int → Checked (Buffer × Bool)
  | _, _, [], _ => .error .outOfBounds
  | b, clearUntilEnd, c :: rest, count =>
    if c = 0 ∨ count = 0 then .ok (b, clearUntilEnd)
    else if count = -2147483648 then .error .overflow
    else do
      let (b, clearUntilEnd) ← b.put clearUntilEnd c
      printFrom b clearUntilEnd rest (if count = -1 then count else count - 1)

/-- `void print(const char *message, int count)`, without the cursor. -/
def print (b : Buffer) (message : List UInt8) (count : Int) : Checked Buffer := do
  let (b, clearUntilEnd) ← b.printFrom false message count
  if clearUntilEnd then
    .ok { b with cells := (range.subrange b.position (-1)).fill blankEntry b.cells }
  else .ok b

/-- `void assign(const buffer &other)`, without the cursor. -/
def assign (b other : Buffer) : Checked Buffer := do
  let cells ← range.assignDisjunct range b.cells other.cells
  .ok ⟨cells, other.position⟩

end Buffer

/-! ## The screen -/

/-- The state of `screen.cc`, and where the hardware shows its cursor. -/
structure Screen where
  frontBuffer : Buffer
  buffers : Pool Buffer 16 0xFFFF
  currentBuffer : Nat
  targetBuffer : Nat
  cursor : UInt16

namespace Screen

/-- Before `screen_init`: what the memory of the screen holds is overwritten, and the
cursor may be anywhere. -/
def unset (storage : Memory UInt16) (cursor : UInt16) : Screen :=
  ⟨.new storage, .blank, 0xFFFF, 0xFFFF, cursor⟩

/-- `void set_cursor(uint16_t position)` -/
def setCursor (s : Screen) (position : Int) : Screen :=
  { s with cursor := UInt16.ofInt position }

/-- `screen_buffer screen_create_buffer()`, with what the storage holds. -/
def screenCreateBuffer (s : Screen) (storage : Memory UInt16) : Checked (Nat × Screen) := do
  let (handle, buffers) ← s.buffers.emplaceAnywhere (.new storage)
  .ok (handle, { s with buffers })

/-- `void screen_set_target_buffer(screen_buffer buffer_handle)` -/
def screenSetTargetBuffer (s : Screen) (handle : Nat) : Screen :=
  { s with targetBuffer := handle }

/-- `void screen_switch_buffer(screen_buffer buffer_handle)` -/
def screenSwitchBuffer (s : Screen) (handle : Nat) : Checked Screen :=
  if s.currentBuffer = handle then .ok s
  else do
    let buf ← s.buffers.get handle
    let frontBuffer ← s.frontBuffer.assign buf
    .ok ({ s with currentBuffer := handle, frontBuffer }.setCursor buf.position)

/-- `front_buffer.print(message, count)` -/
def printFront (s : Screen) (message : List UInt8) (count : Int) : Checked Screen := do
  let frontBuffer ← s.frontBuffer.print message count
  .ok ({ s with frontBuffer }.setCursor frontBuffer.position)

/-- `buffers[buffer_handle].print(message, count)` -/
def printBack (s : Screen) (handle : Nat) (message : List UInt8) (count : Int) :
    Checked Screen := do
  let buf ← s.buffers.get handle
  let buf ← buf.print message count
  let buffers ← s.buffers.set handle buf
  .ok { s with buffers }

/-- `if (count == -1) count = strlen(message)` -/
def lengthOf (message : List UInt8) (count : Int) : Checked Int :=
  if count = -1 then do
    let length ← strlen message
    .ok (signed length)
  else .ok count

/-- `void screen_print(screen_buffer buffer_handle, const char *message, int count)` -/
def screenPrint (s : Screen) (handle : Nat) (message : List UInt8) (count : Int) :
    Checked Screen := do
  let count ← lengthOf message count
  let s ← if handle = s.currentBuffer then s.printFront message count else .ok s
  s.printBack handle message count

/-- `void print(const char *message, int count)` -/
def print (s : Screen) (message : List UInt8) (count : Int) : Checked Screen := do
  let count ← lengthOf message count
  s.screenPrint s.targetBuffer message count

/-- `void screen_seek(screen_buffer buffer_handle, uint16_t position)` -/
def screenSeek (s : Screen) (handle : Nat) (position : UInt16) : Checked Screen := do
  let buf ← s.buffers.get handle
  let buffers ← s.buffers.set handle { buf with position := position.toNat }
  let s := { s with buffers }
  if handle = s.currentBuffer then
    .ok ({ s with frontBuffer := { s.frontBuffer with position := position.toNat } }.setCursor
      position.toNat)
  else .ok s

/-- `void screen_init()` -/
def screenInit (s : Screen) (storage : Memory UInt16) : Checked Screen := do
  let (mainBackBuffer, s) ← s.screenCreateBuffer storage
  (s.screenSetTargetBuffer mainBackBuffer).screenSwitchBuffer mainBackBuffer

inductive Call where
  | create (storage : Memory UInt16)
  | setTarget (handle : Nat)
  | switch (handle : Nat)
  | screenPrint (handle : Nat) (message : List UInt8) (count : Int)
  | print (message : List UInt8) (count : Int)
  | seek (handle : Nat) (position : UInt16)

def run (s : Screen) : Call → Checked Screen
  | .create storage => do
      let (_, s) ← s.screenCreateBuffer storage
      .ok s
  | .setTarget handle => .ok (s.screenSetTargetBuffer handle)
  | .switch handle => s.screenSwitchBuffer handle
  | .screenPrint handle message count => s.screenPrint handle message count
  | .print message count => s.print message count
  | .seek handle position => s.screenSeek handle position

/-- A position that is sought is on the screen. -/
def Call.Permitted : Call → Prop
  | .seek _ position => position.toNat < 2000
  | _ => True

def Initial (s : Screen) : Prop :=
  ∃ front cursor storage, (unset front cursor).screenInit storage = .ok s

def Step (s s' : Screen) : Prop := ∃ call : Call, call.Permitted ∧ s.run call = .ok s'

/-- The states the calls lead to after `screen_init`. -/
def Reachable : Screen → Prop := Reach Initial Step

end Screen

/-! ## Buffers that show the same -/

namespace Buffer

/-- The position is on the screen, or just behind its last cell. -/
def Within (b : Buffer) : Prop := 0 ≤ b.position ∧ b.position ≤ 2000

structure Same (a b : Buffer) : Prop where
  cells : range.Agree a.cells b.cells
  position : a.position = b.position

variable {a b : Buffer}

theorem same_refl (a : Buffer) : Same a a := ⟨fun _ _ _ => rfl, rfl⟩

theorem new_within (storage : Memory UInt16) : (new storage).Within :=
  ⟨Int.le_refl 0, (by decide : (0 : Int) ≤ 2000)⟩

/-! ### Printing as a function of the buffer -/

/-- The rows moved up by one; the last one stays. -/
def shifted (cells : Memory UInt16) : Memory UInt16 :=
  fun i => if 0 ≤ i ∧ i < 1920 then cells (i + 80) else cells i

def cleared (position : Int) (cells : Memory UInt16) : Memory UInt16 :=
  fun i => if position ≤ i ∧ i < 2000 then blankEntry else cells i

def nextRow (position : Int) : Int := position + (80 - position.tmod 80)

/-- One character, with `clear_until_end`. -/
def step (x : Buffer × Bool) (c : UInt8) : Buffer × Bool :=
  let p := x.1.position
  if c = 0x08 then
    if p > 0 then (⟨MemRange.store x.1.cells (p - 1) blankEntry, p - 1⟩, x.2) else x
  else if c = 0x0A then
    if nextRow p ≥ 2000 then
      (⟨cleared (nextRow p - 80) (shifted x.1.cells), nextRow p - 80⟩, x.2)
    else (⟨x.1.cells, nextRow p⟩, x.2)
  else if p ≥ 2000 then
    (⟨MemRange.store (shifted x.1.cells) (p - 80) (plain c), p - 80 + 1⟩, true)
  else (⟨MemRange.store x.1.cells p (plain c), p + 1⟩, x.2)

def ended (x : Buffer × Bool) : Buffer :=
  if x.2 then ⟨cleared x.1.position x.1.cells, x.1.position⟩ else x.1

/-- The characters of a message that are printed. -/
def printed : List UInt8 → Int → Checked (List UInt8)
  | [], _ => .error .outOfBounds
  | c :: rest, count =>
    if c = 0 ∨ count = 0 then .ok []
    else if count = -2147483648 then .error .overflow
    else (printed rest (if count = -1 then count else count - 1)).map (c :: ·)

variable {x y : Buffer × Bool} {c : UInt8} {clear : Bool} {message : List UInt8} {count : Int}

theorem fill_eq (position : Int) (cells : Memory UInt16) :
    (range.subrange position (-1)).fill blankEntry cells = cleared position cells := by
  funext i
  show MemRange.fillFrom blankEntry (0 + position + (80 * 25 - 0 - position)
    - (0 + position)).toNat (0 + position) cells i = _
  rw [MemRange.fillFrom_eq, cleared]
  grind

theorem scroll_eq (newline : Bool) : b.scroll clear newline =
    .ok (if b.position ≥ 2000 then
      if newline then (⟨cleared (b.position - 80) (shifted b.cells), b.position - 80⟩, clear)
      else (⟨shifted b.cells, b.position - 80⟩, true) else (b, clear)) := by
  have hshift : (range.subrange 0 1920).assignOverlap (range.subrange 80 (-1)) b.cells
      = .ok (shifted b.cells) :=
    MemRange.assignFrom_down (k := 80) (by decide) (by decide) 1920 (by decide) (by decide)
      (by decide)
  show (if b.position ≥ 2000 then
    (range.subrange 0 1920).assignOverlap (range.subrange 80 (-1)) b.cells >>= _ else _) = _
  rw [hshift, ok_bind]
  simp only [fill_eq]
  split
  · cases newline <;> rfl
  · rfl

theorem nextRow_bounds {p : Int} (h0 : 0 ≤ p) : p < nextRow p ∧
    (p < 1920 → nextRow p ≤ 1920) ∧ (1920 ≤ p → 2000 ≤ nextRow p) ∧ nextRow p ≤ p + 80 := by
  have := Int.mul_tdiv_add_tmod p 80
  have := Int.tmod_nonneg 80 h0
  have := Int.tmod_lt_of_pos p (show (0 : Int) < 80 by decide)
  unfold nextRow
  omega

theorem put_eq (hin : b.Within) : b.put clear c = .ok (step (b, clear) c) := by
  obtain ⟨h0, hle⟩ := hin
  have hset : ∀ (m : Memory UInt16) i v, 0 ≤ i → i < 2000 →
      range.set m i v = .ok (MemRange.store m i v) := by
    intro m i v hlow hhigh
    rw [MemRange.set_spec hlow (show 0 + i < 80 * 25 by omega), show range.start + i = i from
      Int.zero_add i]
  unfold put step
  simp only [scroll_eq, ok_bind]
  split
  · split
    · rw [hset _ _ _ (by omega) (by omega), ok_bind]
    · rfl
  split
  · rfl
  · split
    · simp only [Bool.false_eq_true, if_false]
      rw [hset _ _ _ (by omega) (by omega), ok_bind]
    · rw [hset _ _ _ h0 (by omega), ok_bind]

theorem within_step (hin : x.1.Within) : (step x c).1.Within := by
  obtain ⟨h0, hle⟩ := hin
  have := nextRow_bounds h0
  unfold step Within
  grind

theorem within_foldl {s : List UInt8} (hin : x.1.Within) : (s.foldl step x).1.Within := by
  induction s generalizing x with
  | nil => exact hin
  | cons c s ih => exact ih (within_step hin)

theorem position_ended : (ended x).position = x.1.position := by
  unfold ended
  split <;> rfl

theorem within_ended (hin : x.1.Within) : (ended x).Within := by
  rw [Within, position_ended]
  exact hin

theorem printFrom_eq (message : List UInt8) : ∀ {x : Buffer × Bool} {count : Int}, x.1.Within →
    x.1.printFrom x.2 message count = (printed message count).map (·.foldl step x) := by
  induction message with
  | nil => exact fun _ => rfl
  | cons c rest ih =>
    intro x count hin
    unfold printFrom printed
    split
    · rfl
    split
    · rfl
    · rw [put_eq hin, ok_bind]
      refine (ih (within_step hin)).trans ?_
      cases printed rest (if count = -1 then count else count - 1) <;> rfl

/-- A call prints one character after the other and then clears. -/
theorem print_eq (hin : b.Within) :
    b.print message count = (printed message count).map fun s => ended (s.foldl step (b, false)) := by
  rw [print, @printFrom_eq message (b, false) count hin]
  cases printed message count with
  | error => rfl
  | ok s =>
    show (if (s.foldl step (b, false)).2 then _ else _) = Except.ok (ended _)
    simp only [fill_eq, ended]
    split <;> rfl

/-! ### Printing the same -/

theorem position_step (h : x.1.position = y.1.position) :
    (step x c).1.position = (step y c).1.position := by
  unfold step
  grind

theorem flag_step : (step x c).2 = (x.2 || (c ≠ 0x08 ∧ c ≠ 0x0A ∧ x.1.position ≥ 2000)) := by
  unfold step
  grind

theorem cells_step (h : Same x.1 y.1) :
    range.Agree (step x c).1.cells (step y c).1.cells := by
  intro i hlow hhigh
  obtain ⟨hlow, hhigh⟩ : 0 ≤ i ∧ i < 2000 := ⟨hlow, hhigh⟩
  have hcells : ∀ j, 0 ≤ j → j < 2000 → x.1.cells j = y.1.cells j := h.cells
  unfold step
  rw [← h.position]
  simp only
  split
  · split
    · simp only [MemRange.store, hcells i hlow hhigh]
    · exact hcells i hlow hhigh
  · split
    · split
      · simp only [cleared, shifted]
        grind
      · exact hcells i hlow hhigh
    · split
      · simp only [MemRange.store, shifted]
        grind
      · simp only [MemRange.store, hcells i hlow hhigh]

theorem foldl_same {s : List UInt8} (h : Same x.1 y.1) (hflag : x.2 = y.2) :
    Same (s.foldl step x).1 (s.foldl step y).1 ∧ (s.foldl step x).2 = (s.foldl step y).2 := by
  induction s generalizing x y with
  | nil => exact ⟨h, hflag⟩
  | cons c s ih =>
    refine ih ⟨cells_step h, position_step h.position⟩ ?_
    rw [flag_step, flag_step, hflag, h.position]

theorem ended_same (h : Same x.1 y.1) (hflag : x.2 = y.2) : Same (ended x) (ended y) := by
  refine ⟨fun i hlow hhigh => ?_, by rw [position_ended, position_ended, h.position]⟩
  have := h.cells i hlow hhigh
  have := h.position
  unfold ended cleared
  grind

/-- Printing does the same with buffers that are the same. -/
theorem print_same {a' : Buffer} (hsame : Same a b) (hin : a.Within)
    (h : a.print message count = .ok a') :
    ∃ b', b.print message count = .ok b' ∧ Same a' b' ∧ a'.Within := by
  have hin' : b.Within := by
    rw [Within, ← hsame.position]
    exact hin
  rw [print_eq hin, map_ok] at h
  obtain ⟨s, hs, rfl⟩ := h
  obtain ⟨hsame', hflag⟩ := @foldl_same (a, false) (b, false) s hsame rfl
  refine ⟨_, ?_, ended_same hsame' hflag, within_ended (within_foldl hin)⟩
  rw [print_eq hin', hs]
  rfl

theorem print_returns (hin : b.Within) (hterm : 0 ∈ message) (hcount : -1 ≤ count) :
    ∃ b', b.print message count = .ok b' := by
  have hprinted : ∃ s, printed message count = .ok s := by
    induction message generalizing count with
    | nil => simp at hterm
    | cons c rest ih =>
      unfold printed
      split
      · exact ⟨[], rfl⟩
      next hgo =>
        obtain ⟨s, hs⟩ := @ih (if count = -1 then count else count - 1)
          ((List.mem_cons.mp hterm).resolve_left fun h => hgo (.inl h.symm)) (by omega)
        rw [if_neg (by omega), hs]
        exact ⟨c :: s, rfl⟩
  obtain ⟨s, hs⟩ := hprinted
  rw [print_eq hin, hs]
  exact ⟨_, rfl⟩

theorem assign_same (a b : Buffer) : ∃ a', a.assign b = .ok a' ∧ Same a' b := by
  obtain ⟨m, hm, hagree⟩ := @MemRange.assignDisjunct_spec _ range a.cells b.cells (by decide)
    (by decide)
  exact ⟨⟨m, b.position⟩, by rw [assign, hm, ok_bind], hagree, rfl⟩

end Buffer

/-! ## What the calls do -/

namespace Screen

variable {s s' : Screen}

structure Sound (s : Screen) : Prop where
  wf : s.buffers.WF
  within : ∀ i b, s.buffers.lookup i = some b → b.Within

/-- The screen shows the current buffer, and the cursor of the hardware stands at
its position. -/
structure Mirrors (s : Screen) : Prop extends s.Sound where
  current : ∃ b, s.buffers.lookup s.currentBuffer = some b ∧ s.frontBuffer.Same b
  cursor : s.cursor = UInt16.ofInt s.frontBuffer.position

variable {handle : Nat} {count : Int} {message : List UInt8}

theorem Sound.store (h : s.Sound) {buffers : Pool Buffer 16 0xFFFF} {b : Buffer}
    (hwf : buffers.WF) (hb : b.Within)
    (hlookup : ∀ j, buffers.lookup j = if j = handle then some b else s.buffers.lookup j) :
    Sound { s with buffers } := by
  refine ⟨hwf, fun j c hc => ?_⟩
  rw [hlookup j] at hc
  split at hc
  · cases hc
    exact hb
  · exact h.within j c hc

theorem screenCreateBuffer_ok {storage : Memory UInt16} (hwf : s.buffers.WF)
    (h : s.screenCreateBuffer storage = .ok (handle, s')) :
    ∃ buffers, s' = { s with buffers } ∧ buffers.WF ∧ s.buffers.lookup handle = none ∧
      ∀ j, buffers.lookup j = if j = handle then some (.new storage) else s.buffers.lookup j := by
  rw [screenCreateBuffer, bind_ok] at h
  obtain ⟨⟨i, buffers⟩, hput, h⟩ := h
  cases h
  obtain ⟨_, hwf', hnew, hlookup⟩ := emplaceAnywhere_ok hwf hput
  exact ⟨buffers, rfl, hwf', hnew, hlookup⟩

theorem Sound.switch (hs : s.Sound) (hother : s.currentBuffer ≠ handle)
    (h : s.screenSwitchBuffer handle = .ok s') : s'.Mirrors := by
  rw [screenSwitchBuffer, if_neg hother, bind_ok] at h
  obtain ⟨buf, hget, h⟩ := h
  obtain ⟨front, hassign, hsame⟩ := s.frontBuffer.assign_same buf
  rw [hassign, ok_bind] at h
  cases h
  refine ⟨⟨hs.wf, hs.within⟩, ⟨buf, get_ok hget, hsame⟩, ?_⟩
  show UInt16.ofInt buf.position = UInt16.ofInt front.position
  rw [hsame.position]

theorem printBack_ok (hwf : s.buffers.WF) (h : s.printBack handle message count = .ok s') :
    ∃ buf buf' buffers, s.buffers.lookup handle = some buf ∧ buf.print message count = .ok buf' ∧
      s' = { s with buffers } ∧ buffers.WF ∧
      ∀ j, buffers.lookup j = if j = handle then some buf' else s.buffers.lookup j := by
  rw [printBack, bind_ok] at h
  obtain ⟨buf, hget, h⟩ := h
  obtain ⟨buf', hprint, h⟩ := bind_ok.mp h
  obtain ⟨buffers, hset, h⟩ := bind_ok.mp h
  cases h
  obtain ⟨_, hwf', hlookup⟩ := set_ok hwf hset
  exact ⟨buf, buf', buffers, get_ok hget, hprint, rfl, hwf', hlookup⟩

theorem screenPrint_other (hs : s.Sound) (hother : handle ≠ s.currentBuffer)
    (h : s.screenPrint handle message count = .ok s') :
    s'.frontBuffer = s.frontBuffer ∧ s'.cursor = s.cursor ∧ s'.Sound ∧
      s'.currentBuffer = s.currentBuffer ∧
      ∀ j, j ≠ handle → s'.buffers.lookup j = s.buffers.lookup j := by
  rw [screenPrint, bind_ok] at h
  obtain ⟨n, _, h⟩ := h
  rw [if_neg hother, ok_bind] at h
  obtain ⟨buf, buf', buffers, hbuf, hprint, rfl, hwf, hlookup⟩ := printBack_ok hs.wf h
  obtain ⟨_, _, _, hin⟩ := Buffer.print_same buf.same_refl (hs.within handle buf hbuf) hprint
  exact ⟨rfl, rfl, hs.store hwf hin hlookup, rfl, fun j hj => by rw [hlookup j, if_neg hj]⟩

/-- Printing keeps the screen the same as the current buffer. -/
theorem Mirrors.screenPrint (hs : s.Mirrors) (h : s.screenPrint handle message count = .ok s') :
    s'.Mirrors := by
  obtain ⟨b, hb, hsame⟩ := hs.current
  by_cases hcurrent : handle = s.currentBuffer
  · rw [Screen.screenPrint, bind_ok] at h
    obtain ⟨n, _, h⟩ := h
    rw [if_pos hcurrent, printFront, bind_assoc, bind_ok] at h
    obtain ⟨front, hfront, h⟩ := h
    change printBack _ handle message n = .ok s' at h
    obtain ⟨buf, buf', buffers, hbuf, hprint, rfl, hwf, hlookup⟩ :=
      printBack_ok (show ({ s with frontBuffer := front }.setCursor front.position).buffers.WF
        from hs.wf) h
    -- the buffer that is printed into a second time is the current one
    have hbuf' : s.buffers.lookup handle = some buf := hbuf
    have hlookup' : ∀ j, buffers.lookup j
        = if j = handle then some buf' else s.buffers.lookup j := hlookup
    rw [hcurrent, hb] at hbuf'
    cases hbuf'
    have hfrontIn : s.frontBuffer.Within := by
      rw [Buffer.Within, hsame.position]
      exact hs.within _ b hb
    obtain ⟨b', hb', hsame', hin⟩ := Buffer.print_same hsame hfrontIn hfront
    cases hb'.symm.trans hprint
    have hin' : buf'.Within := by
      rw [Buffer.Within, ← hsame'.position]
      exact hin
    have hsound := hs.toSound.store hwf hin' hlookup'
    refine ⟨⟨hsound.wf, hsound.within⟩, ⟨buf', ?_, hsame'⟩, rfl⟩
    show buffers.lookup s.currentBuffer = some buf'
    rw [hlookup', if_pos hcurrent.symm]
  · obtain ⟨hfront, hcursor, hsound, hcur, hlookup⟩ := screenPrint_other hs.toSound hcurrent h
    refine ⟨hsound, ⟨b, ?_, hfront ▸ hsame⟩, ?_⟩
    · rw [hcur, hlookup _ (Ne.symm hcurrent)]
      exact hb
    · rw [hcursor, hfront]
      exact hs.cursor

theorem Mirrors.screenSeek {position : UInt16} (hs : s.Mirrors) (hlt : position.toNat < 2000)
    (h : s.screenSeek handle position = .ok s') : s'.Mirrors := by
  obtain ⟨b, hb, hsame⟩ := hs.current
  rw [Screen.screenSeek, bind_ok] at h
  obtain ⟨buf, hget, h⟩ := h
  obtain ⟨buffers, hset, h⟩ := bind_ok.mp h
  obtain ⟨_, hwf, hlookup⟩ := set_ok hs.wf hset
  have hin : Buffer.Within { buf with position := position.toNat } :=
    ⟨show (0 : Int) ≤ position.toNat by omega, show (position.toNat : Int) ≤ 2000 by omega⟩
  have hsound := hs.toSound.store hwf hin hlookup
  by_cases hcurrent : handle = s.currentBuffer
  · rw [if_pos hcurrent] at h
    cases h
    have hbuf := get_ok hget
    rw [hcurrent, hb] at hbuf
    cases hbuf
    refine ⟨⟨hsound.wf, hsound.within⟩, ⟨{ b with position := position.toNat }, ?_,
      hsame.cells, rfl⟩, rfl⟩
    show buffers.lookup s.currentBuffer = _
    rw [hlookup, if_pos hcurrent.symm]
  rw [if_neg hcurrent] at h
  cases h
  refine ⟨hsound, ⟨b, ?_, hsame⟩, hs.cursor⟩
  show buffers.lookup s.currentBuffer = _
  rw [hlookup, if_neg (Ne.symm hcurrent)]
  exact hb

/-- One call keeps the screen the same as the current buffer. -/
theorem Mirrors.step (hs : s.Mirrors) (h : Step s s') : s'.Mirrors := by
  obtain ⟨call, hpermitted, h⟩ := h
  cases call with
  | create storage =>
    obtain ⟨⟨handle, s1⟩, hcreate, h⟩ := bind_ok.mp h
    cases h
    obtain ⟨b, hb, hsame⟩ := hs.current
    obtain ⟨buffers, rfl, hwf, hnew, hlookup⟩ := screenCreateBuffer_ok hs.wf hcreate
    refine ⟨hs.toSound.store hwf (Buffer.new_within storage) hlookup, ⟨b, ?_, hsame⟩, hs.cursor⟩
    show buffers.lookup s.currentBuffer = some b
    -- the new buffer does not take the place of the current one
    rw [hlookup, if_neg (fun heq => by rw [heq, hnew] at hb; exact absurd hb (by simp))]
    exact hb
  | setTarget handle =>
    cases h
    exact ⟨⟨hs.wf, hs.within⟩, hs.current, hs.cursor⟩
  | switch handle =>
    by_cases hcurrent : s.currentBuffer = handle
    · simp only [run, screenSwitchBuffer] at h
      rw [if_pos hcurrent] at h
      cases h
      exact hs
    · exact hs.toSound.switch hcurrent h
  | screenPrint handle message count => exact hs.screenPrint h
  | print message count =>
    obtain ⟨n, _, h⟩ := bind_ok.mp h
    exact hs.screenPrint h
  | seek handle position => exact hs.screenSeek hpermitted h

theorem Initial.mirrors (h : Initial s) : s.Mirrors := by
  obtain ⟨front, cursor, storage, h⟩ := h
  rw [screenInit, bind_ok] at h
  obtain ⟨⟨handle, s1⟩, hcreate, h⟩ := h
  have hblank : Sound (unset front cursor) :=
    ⟨blank_wf (by decide), fun i b hb => absurd ((lookup_blank i).symm.trans hb) (by simp)⟩
  obtain ⟨buffers, rfl, hwf, _, hlookup⟩ := screenCreateBuffer_ok hblank.wf hcreate
  have hsound := hblank.store hwf (Buffer.new_within storage) hlookup
  -- no buffer has the end sentinel for its handle
  have hfound : buffers.lookup handle = some (.new storage) := by rw [hlookup, if_pos rfl]
  have hsmall : handle < 65535 := Nat.lt_of_lt_of_le (lookup_lt_watermark hfound) hwf.watermark_le
  have hother : (65535 : Nat) ≠ handle := by omega
  have htarget : Sound { unset front cursor with buffers, targetBuffer := handle } :=
    ⟨hsound.wf, hsound.within⟩
  exact htarget.switch hother h

theorem Reachable.mirrors (h : Reachable s) : s.Mirrors := by
  refine Reach.invariant ?_ ?_ h
  · exact fun t ht => ht.mirrors
  · exact fun t t' _ ht hstep => ht.step hstep

theorem strlen_returns (hterm : 0 ∈ message) :
    ∃ length, strlen message = .ok length ∧ length.toNat < message.length := by
  induction message with
  | nil => simp at hterm
  | cons c rest ih =>
    unfold strlen
    by_cases hzero : c = 0
    · rw [if_pos hzero]
      exact ⟨0, rfl, by simp⟩
    rw [if_neg hzero]
    have hrest : 0 ∈ rest := (List.mem_cons.mp hterm).resolve_left (Ne.symm hzero)
    obtain ⟨length, hlength, _⟩ := ih hrest
    rw [hlength, ok_bind]
    refine ⟨length + 1, rfl, ?_⟩
    have hsum : (length + 1).toNat ≤ length.toNat + 1 := by
      exact Nat.mod_le _ _
    rw [List.length_cons]
    omega

theorem Mirrors.screenPrint_returns {b : Buffer} (hs : s.Mirrors)
    (hb : s.buffers.lookup handle = some b) (hterm : 0 ∈ message)
    (hlength : message.length ≤ 2147483648) (hcount : -1 ≤ count) :
    ∃ s', s.screenPrint handle message count = .ok s' := by
  have hlen : ∃ n, lengthOf message count = .ok n ∧ -1 ≤ n := by
    unfold lengthOf
    split
    · obtain ⟨length, hstr, _⟩ := strlen_returns hterm
      rw [hstr, ok_bind]
      refine ⟨_, rfl, ?_⟩
      rw [signed_of_lt (by omega)]
      omega
    · exact ⟨count, rfl, hcount⟩
  obtain ⟨n, hn, hn'⟩ := hlen
  -- the buffer itself is printed to last
  have hback : ∀ t : Screen, t.buffers = s.buffers →
      ∃ s', t.printBack handle message n = .ok s' := by
    intro t ht
    obtain ⟨b', hb'⟩ := Buffer.print_returns (hs.within handle b hb) hterm hn'
    obtain ⟨buffers, hset, _⟩ := set_spec hs.wf hb b'
    exact ⟨{ t with buffers }, by
      rw [printBack, ht, get_spec hb, ok_bind, hb', ok_bind, hset, ok_bind]⟩
  rw [Screen.screenPrint, hn, ok_bind]
  split
  · obtain ⟨c, hc, hsame⟩ := hs.current
    have hin : s.frontBuffer.Within := by
      rw [Buffer.Within, hsame.position]
      exact hs.within _ c hc
    obtain ⟨front, hfront⟩ := Buffer.print_returns hin hterm hn'
    rw [printFront, hfront, ok_bind, ok_bind]
    exact hback _ rfl
  · exact hback s rfl

theorem exists_initial (front storage : Memory UInt16) (cursor : UInt16) :
    ∃ s, (unset front cursor).screenInit storage = .ok s := by
  obtain ⟨handle, buffers, hput, _, _, hlookup⟩ := emplaceAnywhere_spec
    (blank_wf (by decide) : (blank : Pool Buffer 16 0xFFFF).WF) rfl (.new storage)
  have hfound : buffers.lookup handle = some (.new storage) := by rw [hlookup, if_pos rfl]
  obtain ⟨f, hf, _⟩ := Buffer.assign_same (.new front) (.new storage)
  show ∃ s, ((blank.emplaceAnywhere (Buffer.new storage) >>= _) >>= _) = .ok s
  rw [hput, ok_bind, ok_bind]
  show ∃ s, screenSwitchBuffer _ handle = .ok s
  unfold screenSwitchBuffer
  split
  · exact ⟨_, rfl⟩
  · show ∃ s, (buffers.get handle >>= _) = .ok s
    rw [get_spec hfound, ok_bind]
    show ∃ s, ((Buffer.new front).assign _ >>= _) = .ok s
    rw [hf, ok_bind]
    exact ⟨_, rfl⟩

/-! ## The screen mirrors the current buffer -/

/-- **The screen shows the current buffer** after any calls: the same cells, the same position.
Printing a message that ends returns, and if its buffer is not the current one the screen stays
as it is. -/
theorem front_mirrors (h : Reachable s) :
    (∃ b, s.buffers.lookup s.currentBuffer = some b ∧
      (∀ i, 0 ≤ i → i < 2000 → s.frontBuffer.cells i = b.cells i) ∧
      s.frontBuffer.position = b.position ∧ s.cursor = UInt16.ofInt b.position) ∧
    (∀ handle message count s', handle ≠ s.currentBuffer →
      s.screenPrint handle message count = .ok s' →
      s'.frontBuffer = s.frontBuffer ∧ s'.cursor = s.cursor) ∧
    (∀ handle b message count, s.buffers.lookup handle = some b → 0 ∈ message →
      message.length ≤ 2147483648 → -1 ≤ count →
      ∃ s', s.screenPrint handle message count = .ok s') := by
  have hs := h.mirrors
  refine ⟨?_, ?_, ?_⟩
  · obtain ⟨b, hb, hsame⟩ := hs.current
    refine ⟨b, hb, fun i h0 hlt => hsame.cells i h0 hlt, hsame.position, ?_⟩
    rw [← hsame.position]
    exact hs.cursor
  · intro handle message count s' hother hprint
    obtain ⟨hfront, hcursor, _⟩ := screenPrint_other hs.toSound hother hprint
    exact ⟨hfront, hcursor⟩
  · exact fun handle b message count => hs.screenPrint_returns

theorem front_mirrors_letter :
    ∃ s s' b b', Reachable s ∧ s.screenPrint s.currentBuffer [0x41, 0] (-1) = .ok s' ∧
      s.buffers.lookup s.currentBuffer = some b ∧ s.frontBuffer.cells 0 = b.cells 0 ∧
      s'.buffers.lookup s'.currentBuffer = some b' ∧ s'.frontBuffer.cells 0 = b'.cells 0 := by
  obtain ⟨s, hs⟩ := exists_initial (fun _ => 0) (fun _ => 0) 0
  have hreach : Reachable s := .init ⟨_, _, _, hs⟩
  obtain ⟨⟨b, hb, hcells, _⟩, _, hreturns⟩ := front_mirrors hreach
  obtain ⟨s', hprint⟩ := hreturns s.currentBuffer b [0x41, 0] (-1) hb (by decide) (by decide)
    (by decide)
  have hreach' : Reachable s' := hreach.step ⟨.screenPrint _ _ _, trivial, hprint⟩
  obtain ⟨⟨b', hb', hcells', _⟩, _⟩ := front_mirrors hreach'
  exact ⟨s, s', b, b', hreach, hprint, hb, hcells 0 (by decide) (by decide), hb',
    hcells' 0 (by decide) (by decide)⟩

end Screen

end Peos2.Kernel
