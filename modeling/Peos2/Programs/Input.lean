/-
  Programs.Input — how programs read (`libraries/support/userspace.h`,
  `libraries/support/utils.cc`, `programs/shell/shell.cc`).

  The kernel may answer a `read` with fewer bytes than were asked for. The loop of
  `read` asks again, but for the same place, so that a second piece covers the first.
  The shell keeps what it was given in a buffer and takes lines off its front.

  Main results: `assembles_iff`, `readLines_exact`.
-/
import Peos2.Support.RingBuffer

namespace Peos2.Programs

open Peos2.Lib Peos2.Support Bytes List

/-- Bytes copied to `buf` at an offset. -/
def poke (buf : Bytes) (offset : Nat) (bytes : List UInt8) : Bytes := fun i =>
  if offset ≤ i ∧ i < offset + bytes.length then bytes.getD (i - offset) 0 else buf i

/-! ## `read` -/

/-- The loop of `read`; `pieces` is what the system call hands over, call by call, until it
answers 0 or less, and never more than it is asked for. -/
def readLoop : List (List UInt8) → Bytes → UInt32 → UInt32 → Checked (UInt32 × Bytes)
  | [], buf, _, total => .ok (total, buf)
  | piece :: pieces, buf, length, total =>
    if length.toNat < piece.length then .error .outOfBounds
    else readLoop pieces (poke buf 0 piece) (length - UInt32.ofNat piece.length)
      (total + UInt32.ofNat piece.length)

/-- `int read(int fd, char *buf, size_t length)`; `ret` is the last answer. -/
def read (pieces : List (List UInt8)) (ret : Int) (buf : Bytes) (length : UInt32) :
    Checked (Int × Bytes) := do
  let (total, buf) ← readLoop pieces buf length 0
  .ok (if ret < 0 then ret else signed total, buf)

/-- Pieces of these sizes are put together: all of them are counted and are in the buffer
in their order, and nothing is written behind it. -/
def Assembles (length : UInt32) (sizes : List Nat) : Prop :=
  ∀ pieces buf, pieces.map List.length = sizes →
    ∃ buf', read pieces 0 buf length = .ok ((pieces.flatten.length : Int), buf')
      ∧ buf'.first pieces.flatten.length = pieces.flatten ∧ ∀ j, length.toNat ≤ j → buf' j = buf j

theorem first_poke (buf : Bytes) (offset : Nat) (bytes : List UInt8) :
    (poke buf offset bytes).first (offset + bytes.length) = buf.first offset ++ bytes := by
  apply ext_getElem?
  intro i
  unfold first poke
  grind

theorem readLoop_covers {c : UInt8} (pieces : List (List UInt8)) : ∀ {buf buf' : Bytes}
    {length total t : UInt32}, (∀ piece ∈ pieces, piece.head? = some c) →
    (pieces = [] → buf 0 = c) → readLoop pieces buf length total = .ok (t, buf') → buf' 0 = c := by
  induction pieces with
  | nil =>
    intro buf buf' length total t _ hbuf hcall
    cases hcall
    exact hbuf rfl
  | cons piece pieces ih =>
    intro buf buf' length total t hpieces _ hcall
    rw [readLoop] at hcall
    split at hcall
    · cases hcall
    refine ih (fun p hp => hpieces p (mem_cons_of_mem _ hp)) (fun _ => ?_) hcall
    obtain ⟨tail, rfl⟩ := head?_eq_some_iff.mp (hpieces piece mem_cons_self)
    exact if_pos ⟨Nat.le_refl 0, by simp⟩

/-- **Short reads are not put together**: `read` is right exactly if the kernel hands over
everything at once. -/
theorem assembles_iff (length : UInt32) (sizes : List Nat)
    (hsizes : ∀ n ∈ sizes, 0 < n ∧ n < 2147483648) (hsum : sizes.sum ≤ length.toNat) :
    Assembles length sizes ↔ sizes.length ≤ 1 := by
  match sizes with
  | [] =>
    refine iff_of_true ?_ (Nat.zero_le 1)
    intro pieces buf hpieces
    obtain rfl := map_eq_nil_iff.mp hpieces
    exact ⟨buf, rfl, rfl, fun _ _ => rfl⟩
  | [n] =>
    refine iff_of_true ?_ (Nat.le_refl 1)
    intro pieces buf hpieces
    obtain ⟨piece, rfl, hlen⟩ : ∃ piece, pieces = [piece] ∧ piece.length = n := by
      obtain ⟨piece, rest, rfl, hlen, hrest⟩ := map_eq_cons_iff.mp hpieces
      exact ⟨piece, by rw [map_eq_nil_iff.mp hrest], hlen⟩
    have hn := (hsizes n mem_cons_self).2
    have hfit : n ≤ length.toNat := by simpa using hsum
    have hcount : signed (0 + UInt32.ofNat piece.length) = (piece.length : Int) := by
      rw [UInt32.zero_add, signed_of_lt (by rw [toNat_ofNat_lt (by omega)]; omega),
        toNat_ofNat_lt (by omega)]
    have hfirst := first_poke buf 0 piece
    rw [Nat.zero_add] at hfirst
    rw [flatten_singleton]
    refine ⟨poke buf 0 piece, ?_, hfirst, fun j hj => if_neg (by omega)⟩
    rw [read, readLoop, if_neg (by omega), readLoop, ok_bind]
    exact congrArg (fun ret => Except.ok (ret, poke buf 0 piece)) hcount
  | n :: k :: rest =>
    refine iff_of_false ?_ (by simp)
    intro h
    -- zeros first, and then ones
    obtain ⟨buf', hcall, hfirst, _⟩ := h (replicate n 0 :: (k :: rest).map (replicate · 1))
      (fun _ => 1) (by simp [Function.comp_def])
    obtain ⟨n, rfl⟩ := Nat.exists_eq_succ_of_ne_zero (hsizes n mem_cons_self).1.ne'
    have hzero : buf' 0 = 0 := by
      rw [flatten_cons, replicate_succ, cons_append, length_cons, first_succ] at hfirst
      exact (cons.inj hfirst).1
    obtain ⟨⟨t, b⟩, hloop, hcall⟩ := bind_ok.mp hcall
    obtain rfl : buf' = b := (Prod.mk.inj (Except.ok.inj hcall)).2.symm
    rw [readLoop] at hloop
    split at hloop
    · cases hloop
    have hone : buf' 0 = 1 := by
      refine readLoop_covers _ ?_ (fun hnil => by cases hnil) hloop
      intro piece hpiece
      obtain ⟨m, hm, rfl⟩ := mem_map.mp hpiece
      rw [head?_replicate, if_neg (hsizes m (mem_cons_of_mem _ hm)).1.ne']
    rw [hzero] at hone
    cases hone

theorem assembles_iff_once : Assembles 4 [3] :=
  (assembles_iff 4 [3] (by decide) (by decide)).2 (by decide)

/-- Two pieces of two bytes: the second covers the first. -/
theorem second_piece_covers : ((read [[1, 2], [3, 4]] 0 (fun _ => 9) 4).map fun r =>
    (r.1, r.2.first 4)) = .ok (4, [3, 4, 9, 9]) := by
  decide

/-! ## The shell -/

/-- `char *strnchr(char *str, char c, size_t len)`, as an offset; `size` is how much there is
behind `str`. -/
def strnchr (c : UInt8) : Nat → Nat → Bytes → Checked (Option Nat)
  | 0, _, _ => .error .outOfBounds
  | size + 1, len, str =>
    if str 0 = c then .ok (if len = 0 then none else some 0)
    else if str 0 = 0 ∨ len = 0 then .ok none
    else do
      let pos ← strnchr c size (len - 1) fun i => str (i + 1)
      .ok (pos.map (· + 1))

/-- The loop of `memcpy` inside one array, `n` bytes to `i` from `src` bytes further on. -/
def memcpyFrom (src : Nat) : Nat → Nat → Bytes → Bytes
  | 0, _, mem => mem
  | n + 1, i, mem => memcpyFrom src n (i + 1) (storeAt mem i (mem (src + i)))

/-- `input_buffer` and `input_buffer_size`; what the terminal has not yet handed over, and
how often it was asked. -/
structure Shell where
  inputBuffer : Bytes
  inputBufferSize : Nat
  pending : List UInt8
  asked : Nat

namespace Shell

/-- `int consume_line_from_buffer(char *out, size_t length)`; what is copied to `out`. -/
def consumeLineFromBuffer (s : Shell) (length : Nat) : Checked (List UInt8 × Shell) := do
  match ← strnchr 10 512 s.inputBufferSize s.inputBuffer with
  | none => .ok ([], s)
  | some nl =>
    .ok (s.inputBuffer.first (min length (nl + 1)),
      { s with
        inputBuffer := memcpyFrom (nl + 1) (s.inputBufferSize - (nl + 1)) 0 s.inputBuffer
        inputBufferSize := s.inputBufferSize - (nl + 1) })

/-- How many bytes the terminal hands over: what it chooses to, as far as there is room and
there are any. -/
def granted (choice : Nat → Nat) (s : Shell) : Nat :=
  min (choice s.asked + 1) (min (512 - s.inputBufferSize) s.pending.length)

/-- The system call `read` behind what is in the buffer. -/
def fetch (choice : Nat → Nat) (s : Shell) : Shell where
  inputBuffer := poke s.inputBuffer s.inputBufferSize (s.pending.take (s.granted choice))
  inputBufferSize := s.inputBufferSize + s.granted choice
  pending := s.pending.drop (s.granted choice)
  asked := s.asked + 1

/-- The loop of `read_line`; every round but the last makes the buffer fuller. -/
def readLineFrom (choice : Nat → Nat) (length : Nat) : Nat → Shell → Checked (List UInt8 × Shell)
  | 0, _ => .error .outOfFuel
  | fuel + 1, s => do
      let (line, s) ← s.consumeLineFromBuffer length
      if line ≠ [] then .ok (line, s)
      else if s.granted choice = 0 then .ok ([], s)
      else readLineFrom choice length fuel (s.fetch choice)

/-- `int read_line(char *out, size_t length)` -/
def readLine (choice : Nat → Nat) (length : Nat) (s : Shell) : Checked (List UInt8 × Shell) :=
  s.readLineFrom choice length 513

/-- `read_line` as often as there are to be lines. -/
def readLines (choice : Nat → Nat) : Nat → Shell → Checked (List (List UInt8) × Shell)
  | 0, s => .ok ([], s)
  | n + 1, s => do
      let (line, s) ← s.readLine choice 127
      let (lines, s) ← readLines choice n s
      .ok (line :: lines, s)

def buffered (s : Shell) : List UInt8 := s.inputBuffer.first s.inputBufferSize

/-- A line that fits, with its newline. -/
def IsLine (line : List UInt8) : Prop :=
  ∃ body, line = body ++ [10] ∧ (∀ c ∈ body, c ≠ 10 ∧ c ≠ 0) ∧ body.length < 127

theorem strnchr_eq {c : UInt8} (after body : List UInt8) :
    ∀ {size len : Nat} {str : Bytes}, str.first len = body ++ after →
    (∀ b ∈ body, b ≠ c ∧ b ≠ 0) → after = [] ∨ after.head? = some c → body.length < size →
    strnchr c size len str = .ok (if after = [] then none else some body.length) := by
  induction body with
  | nil =>
    intro size len str hstr _ hafter hsize
    obtain ⟨size, rfl⟩ := Nat.exists_eq_add_of_lt hsize
    cases len with
    | zero =>
      obtain rfl : after = [] := hstr.symm
      rw [strnchr]
      split <;> simp
    | succ len =>
      rw [first_succ, nil_append] at hstr
      subst hstr
      rw [strnchr, if_pos (by simpa using hafter)]
      rfl
  | cons b body ih =>
    intro size len str hstr hbody hafter hsize
    obtain ⟨size, rfl⟩ : ∃ n, size = n + 1 := ⟨size - 1, by omega⟩
    cases len with
    | zero => cases hstr
    | succ len =>
      rw [first_succ, cons_append] at hstr
      obtain ⟨hb, hrest⟩ := cons.inj hstr
      obtain ⟨hne, hnul⟩ := hbody b mem_cons_self
      rw [length_cons] at hsize
      rw [strnchr, hb, if_neg hne, if_neg (by simp [hnul]), Nat.add_sub_cancel,
        ih hrest (fun b hb => hbody b (mem_cons_of_mem _ hb)) hafter (by omega), ok_bind]
      split <;> rfl

/-- An overlapping copy to the front copies what was there before. -/
theorem memcpyFrom_eq (src n : Nat) : ∀ (i : Nat) (mem : Bytes) (j : Nat),
    memcpyFrom src n i mem j = if i ≤ j ∧ j < i + n then mem (src + j) else mem j := by
  induction n with
  | zero =>
    intro i mem j
    exact (if_neg (by omega)).symm
  | succ n ih =>
    intro i mem j
    rw [memcpyFrom, ih]
    unfold storeAt
    grind

theorem first_memcpyFrom (k n : Nat) (mem : Bytes) :
    (memcpyFrom k n 0 mem).first n = (mem.first (k + n)).drop k := by
  apply ext_getElem?
  intro i
  unfold first
  grind [memcpyFrom_eq]

variable {s : Shell} {line rest : List UInt8}

theorem consume_line (hline : IsLine line) (hbuffered : s.buffered = line ++ rest) :
    ∃ s', s.consumeLineFromBuffer 127 = .ok (line, s') ∧ s'.buffered = rest
      ∧ s'.pending = s.pending ∧ s'.inputBufferSize ≤ s.inputBufferSize := by
  obtain ⟨body, rfl, hbody, hlen⟩ := hline
  rw [append_assoc] at hbuffered
  have hsize : s.inputBufferSize = body.length + 1 + rest.length := by
    have hlength := congrArg length hbuffered
    simp [buffered] at hlength
    omega
  have hcopied : s.inputBuffer.first (min 127 (body.length + 1)) = body ++ [10] := by
    have htake := congrArg (take (body.length + 1)) hbuffered
    rw [buffered, take_first] at htake
    rw [show min 127 (body.length + 1) = min s.inputBufferSize (body.length + 1) by omega, htake]
    rw [← append_assoc, take_left' (by simp)]
  refine ⟨{ s with
    inputBuffer := memcpyFrom (body.length + 1) (s.inputBufferSize - (body.length + 1)) 0 s.inputBuffer
    inputBufferSize := s.inputBufferSize - (body.length + 1) }, ?_, ?_, rfl, Nat.sub_le _ _⟩
  · rw [consumeLineFromBuffer, strnchr_eq ([10] ++ rest) body hbuffered hbody (.inr rfl) (by omega), ok_bind,
      ← hcopied]
    rfl
  · show first (memcpyFrom _ _ 0 _) _ = rest
    rw [first_memcpyFrom, Nat.add_sub_cancel' (by omega)]
    show drop _ s.buffered = rest
    rw [hbuffered, ← append_assoc, drop_left' (by simp)]

theorem consume_nothing (hbytes : ∀ c ∈ s.buffered, c ≠ 10 ∧ c ≠ 0)
    (hsize : s.inputBufferSize < 512) (length : Nat) :
    s.consumeLineFromBuffer length = .ok ([], s) := by
  rw [consumeLineFromBuffer, strnchr_eq [] s.buffered (append_nil _).symm hbytes (.inl rfl)
    (by rw [buffered, length_first]; exact hsize), ok_bind]
  rfl

theorem buffered_fetch (choice : Nat → Nat) (s : Shell) :
    (s.fetch choice).buffered = s.buffered ++ s.pending.take (s.granted choice) := by
  have hle : s.granted choice ≤ s.pending.length := by
    unfold granted
    omega
  have hpoke := first_poke s.inputBuffer s.inputBufferSize (s.pending.take (s.granted choice))
  rwa [length_take, Nat.min_eq_left hle] at hpoke

/-- One line: however the terminal hands it over, `read_line` returns the first line and
leaves what is behind it. -/
theorem readLineFrom_spec (choice : Nat → Nat) (hline : IsLine line) (fuel : Nat) : ∀ {s : Shell},
    s.inputBufferSize ≤ 512 → 512 - s.inputBufferSize < fuel →
    s.buffered ++ s.pending = line ++ rest →
    ∃ s', s.readLineFrom choice 127 fuel = .ok (line, s') ∧ s'.buffered ++ s'.pending = rest
      ∧ s'.inputBufferSize ≤ 512 := by
  have hne : line ≠ [] := by
    obtain ⟨body, rfl, _⟩ := hline
    simp
  induction fuel with
  | zero => exact fun _ hfuel => absurd hfuel (Nat.not_lt_zero _)
  | succ fuel ih =>
    intro s hsize hfuel hstream
    have hlength := congrArg length hstream
    have hbuffered : s.buffered.length = s.inputBufferSize := length_first _ _
    rw [length_append, length_append, hbuffered] at hlength
    rw [readLineFrom]
    by_cases hcomplete : line.length ≤ s.inputBufferSize
    · -- the line is in the buffer
      obtain ⟨after, hafter⟩ : line <+: s.buffered :=
        prefix_of_prefix_length_le (hstream ▸ prefix_append line rest) (prefix_append _ _) (by omega)
      obtain ⟨s', hconsume, hbuffered', hpending, hsize'⟩ := consume_line hline hafter.symm
      refine ⟨s', ?_, ?_, by omega⟩
      · rw [hconsume, ok_bind]
        exact if_pos hne
      · rw [← hafter, append_assoc] at hstream
        rw [hbuffered', hpending, append_cancel_left hstream]
    · -- only a part of it
      obtain ⟨body, rfl, hbody, hlen⟩ := hline
      rw [length_append, length_singleton] at hcomplete hlength
      have hpart : s.buffered <+: body := by
        rw [append_assoc] at hstream
        exact prefix_of_prefix_length_le (hstream ▸ prefix_append s.buffered s.pending)
          (prefix_append body _) (by omega)
      have hgranted : 0 < s.granted choice := by
        unfold granted
        omega
      have hroom : s.granted choice ≤ 512 - s.inputBufferSize := by
        unfold granted
        omega
      rw [consume_nothing (fun c hc => hbody c (hpart.subset hc)) (by omega), ok_bind]
      simp only [ne_eq, not_true_eq_false, if_false, if_neg hgranted.ne']
      refine ih (s := s.fetch choice) ?_ ?_ ?_
      · show s.inputBufferSize + s.granted choice ≤ 512
        omega
      · show 512 - (s.inputBufferSize + s.granted choice) < fuel
        omega
      · rw [buffered_fetch, append_assoc]
        show _ ++ (_ ++ s.pending.drop _) = _
        rw [take_append_drop, hstream]

/-- **Lines come out as they went in**, whatever the terminal chooses to hand over in one
call. -/
theorem readLines_exact (choice : Nat → Nat) (lines : List (List UInt8)) : ∀ {s : Shell},
    s.inputBufferSize ≤ 512 → (∀ line ∈ lines, IsLine line) →
    s.buffered ++ s.pending = lines.flatten ++ rest →
    ∃ s', s.readLines choice lines.length = .ok (lines, s') ∧ s'.buffered ++ s'.pending = rest := by
  induction lines with
  | nil => exact fun _ _ hstream => ⟨_, rfl, hstream⟩
  | cons line lines ih =>
    intro s hsize hlines hstream
    rw [flatten_cons, append_assoc] at hstream
    obtain ⟨s1, hcall, hstream1, hsize1⟩ :=
      readLineFrom_spec choice (hlines line mem_cons_self) 513 hsize (by omega) hstream
    obtain ⟨s2, hcalls, hstream2⟩ := ih hsize1 (fun l hl => hlines l (mem_cons_of_mem _ hl)) hstream1
    refine ⟨s2, ?_, hstream2⟩
    rw [length_cons, readLines, readLine, hcall, ok_bind]
    simp only
    rw [hcalls, ok_bind]

/-- Two lines, of which the second is handed over in two parts. -/
theorem readLines_exact_two : ∃ s', readLines (fun _ => 2) 2 ⟨fun _ => 10, 0, [97, 10, 98, 99, 10], 0⟩
    = .ok ([[97, 10], [98, 99, 10]], s') := by
  have hlines : ∀ line ∈ [[97, 10], [98, 99, 10]], IsLine line := by
    intro line hline
    rcases mem_cons.mp hline with rfl | hline
    · exact ⟨[97], rfl, by simp, by simp⟩
    · obtain rfl := mem_singleton.mp hline
      exact ⟨[98, 99], rfl, by simp, by simp⟩
  obtain ⟨s', hcall, _⟩ := readLines_exact (fun _ => 2) _
    (s := ⟨fun _ => 10, 0, [97, 10, 98, 99, 10], 0⟩) (by decide) hlines (append_nil _).symm
  exact ⟨s', hcall⟩

end Shell

end Peos2.Programs
