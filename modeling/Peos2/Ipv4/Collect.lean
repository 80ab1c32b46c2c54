/-
  Ipv4.Collect — one reassembly buffer and the fragments of one datagram.

  A payload is cut at multiples of eight into fragments, each but the last of at
  least forty bytes. The buffer knows which it has by the holes between them, and
  whether it has the last one by a flag.
-/
import Mathlib.Data.Finset.Card
import Mathlib.Data.Finset.Range
import Peos2.Ipv4.Protocol

namespace Peos2.Ipv4

open Peos2.Lib Peos2.Support List FragBuffer

/-! ## Fragments of a payload -/

/-- A payload and where it is cut: fragment `k` begins at `cut k`. -/
structure Split where
  payload : List UInt8
  count : Nat
  cut : Nat → Nat
  count_pos : 0 < count
  cut_zero : cut 0 = 0
  cut_count : cut count = payload.length
  aligned : ∀ k < count, 8 ∣ cut k
  wide : ∀ k, k + 1 < count → cut k + 40 ≤ cut (k + 1)
  tail : cut (count - 1) + 1 ≤ cut count
  short : payload.length ≤ 10000

namespace Split

variable (s : Split)

def piece (k : Nat) : List UInt8 := (s.payload.drop (s.cut k)).take (s.cut (k + 1) - s.cut k)

variable {k : Nat}

theorem cut_lt_succ (hk : k < s.count) : s.cut k < s.cut (k + 1) := by
  by_cases hlast : k + 1 < s.count
  · have hwide := s.wide k hlast
    omega
  · have htail := s.tail
    rw [show s.count - 1 = k by omega, show s.count = k + 1 by omega] at htail
    omega

theorem cut_mono {j : Nat} (hjk : j ≤ k) (hk : k ≤ s.count) : s.cut j ≤ s.cut k := by
  induction k with
  | zero =>
    rw [Nat.le_zero.mp hjk]
  | succ k ih =>
    rcases Nat.lt_or_eq_of_le hjk with _ | heq
    · have hstep := s.cut_lt_succ (show k < s.count by omega)
      omega
    · rw [heq]

theorem cut_le_length (hk : k ≤ s.count) : s.cut k ≤ s.payload.length := by
  rw [← s.cut_count]
  exact s.cut_mono hk (Nat.le_refl _)

theorem forty_mul_le (hk : k < s.count) : 40 * k ≤ s.cut k := by
  induction k with
  | zero => omega
  | succ k ih =>
    have hwide := s.wide k hk
    omega

theorem count_le : s.count ≤ 250 := by
  have hpos := s.count_pos
  have hlast := s.forty_mul_le (show s.count - 1 < s.count by omega)
  have htail := s.tail
  have hend := s.cut_count
  have hshort := s.short
  omega

theorem length_pos : 0 < s.payload.length := by
  have htail := s.tail
  have hend := s.cut_count
  omega

theorem exists_piece {x : Nat} (hx : x < s.payload.length) :
    ∃ k < s.count, s.cut k ≤ x ∧ x < s.cut (k + 1) := by
  have hfind : ∀ n ≤ s.count, x < s.cut n → ∃ k < n, s.cut k ≤ x ∧ x < s.cut (k + 1) := by
    intro n
    induction n with
    | zero =>
      intro _ hlt
      rw [s.cut_zero] at hlt
      omega
    | succ n ih =>
      intro hn hlt
      by_cases hbefore : x < s.cut n
      · obtain ⟨k, _, h⟩ := ih (by omega) hbefore
        exact ⟨k, by omega, h⟩
      · exact ⟨n, by omega, by omega, hlt⟩
  exact hfind s.count (Nat.le_refl _) (by rw [s.cut_count]; exact hx)

theorem piece_unique {j : Nat} (hj : j < s.count) (hk : k < s.count) {x : Nat}
    (hjx : s.cut j ≤ x ∧ x < s.cut (j + 1)) (hkx : s.cut k ≤ x ∧ x < s.cut (k + 1)) : j = k := by
  rcases Nat.lt_trichotomy j k with _ | heq | _
  · have hmono := s.cut_mono (show j + 1 ≤ k by omega) (by omega)
    omega
  · exact heq
  · have hmono := s.cut_mono (show k + 1 ≤ j by omega) (by omega)
    omega

theorem length_piece (hk : k < s.count) : (s.piece k).length = s.cut (k + 1) - s.cut k := by
  have hle := s.cut_le_length (show k + 1 ≤ s.count by omega)
  unfold piece
  rw [length_take, length_drop]
  omega

theorem getElem?_piece {i : Nat} (hi : i < s.cut (k + 1) - s.cut k) :
    (s.piece k)[i]? = s.payload[s.cut k + i]? := by
  unfold piece
  rw [getElem?_take_of_lt hi, getElem?_drop]

end Split

/-! ## What a buffer has collected -/

/-- The buffer holds exactly the fragments with the indices in `received`. -/
structure Collects (v : ReassemblyBuffer) (s : Split) (received : Finset Nat) : Prop where
  neat : v.data.Neat
  indices : received ⊆ Finset.range s.count
  size : v.data.holes.size ≤ received.card + 1
  filled : ∀ x : Nat, x < 2147483647 →
    (v.data.Filled x ↔ ∃ k ∈ received, s.cut k ≤ x ∧ x < s.cut (k + 1))
  bytes : ∀ k ∈ received, ∀ x, s.cut k ≤ x → x < s.cut (k + 1) →
    s.payload[x]? = some (v.data.data x)
  last : v.receivedLast = true ↔ s.count - 1 ∈ received

variable {v : ReassemblyBuffer} {s : Split} {received : Finset Nat}

theorem collects_new (stale : Bytes) (s : Split) :
    ∃ v, ReassemblyBuffer.new stale = .ok v ∧ Collects v s ∅ := by
  obtain ⟨data, hnew⟩ : ∃ data : FragBuffer 10000, new stale = .ok data :=
    reset_returns _ (by decide) (by decide)
  obtain ⟨hwf, hvalues, _⟩ := reset_ok (by decide) hnew
  refine ⟨⟨20000, false, data⟩, ?_, FragBuffer.Neat.of_new (by decide) hnew,
    Finset.empty_subset _, ?_, ?_, ?_, ?_⟩
  · unfold ReassemblyBuffer.new
    rw [hnew]
    rfl
  · show data.holes.size ≤ _
    rw [← hwf.length_values, hvalues]
    simp
  · intro x hx
    show data.Filled x ↔ _
    rw [filled_of_new (by decide) hnew]
    unfold intMax
    constructor
    · intro hnot
      omega
    · rintro ⟨k, hk, _⟩
      exact absurd hk (Finset.notMem_empty k)
  · intro k hk
    exact absurd hk (Finset.notMem_empty k)
  · simp

variable {k : Nat}

section

variable (h : Collects v s received)

include h

theorem Collects.not_splits (hk : k < s.count)
    (hthere : k ∈ received ∨ received = (Finset.range s.count).erase k) :
    ∀ hole ∈ v.data.holes.values,
      ¬ Span.splits ⟨(s.cut k : Int), (s.cut (k + 1) : Int)⟩ hole = true := by
  intro hole hmem hsplit
  obtain ⟨hfirst, hbefore⟩ := holds_of_splits hsplit
  have hend := s.cut_le_length (Nat.le_of_lt hk)
  have hshort := s.short
  rcases hthere with hdup | hothers
  · have hfilled := (h.filled (s.cut k) (by omega)).mpr ⟨k, hdup, Nat.le_refl _, s.cut_lt_succ hk⟩
    exact hfilled hole hmem hfirst
  -- every other fragment is there, so the byte before this one is
  have hpos : 0 < s.cut k := by
    have hrange := (h.neat.range hole hmem).1
    have hleft := hbefore.1
    simp only at hleft
    omega
  obtain ⟨j, hj, hjx⟩ := s.exists_piece (show s.cut k - 1 < s.payload.length by omega)
  have hne : j ≠ k := by
    rintro rfl
    omega
  have hjmem : j ∈ received := by
    rw [hothers, Finset.mem_erase, Finset.mem_range]
    exact ⟨hne, hj⟩
  have hfilled := (h.filled (s.cut k - 1) (by omega)).mpr ⟨j, hjmem, hjx⟩
  apply hfilled hole hmem
  have hcast : ((s.cut k - 1 : Nat) : Int) = (s.cut k : Int) - 1 := by omega
  rw [hcast]
  exact hbefore

theorem Collects.not_crowded (hk : k < s.count) :
    v.data.crowded ⟨(s.cut k : Int), (s.cut (k + 1) : Int)⟩ = false := by
  by_contra hcrowd
  rw [Bool.not_eq_false, crowded, Bool.and_eq_true, decide_eq_true_eq, any_eq_true] at hcrowd
  obtain ⟨_, hole, hmem, hsplit⟩ := hcrowd
  refine h.not_splits hk ?_ hole hmem hsplit
  by_cases hdup : k ∈ received
  · exact .inl hdup
  right
  have hsub : received ⊆ (Finset.range s.count).erase k := by
    intro j hj
    rw [Finset.mem_erase]
    refine ⟨?_, h.indices hj⟩
    rintro rfl
    exact hdup hj
  apply Finset.eq_of_subset_of_card_le hsub
  have hsize := h.size
  have hcount := s.count_le
  rw [Finset.card_erase_of_mem (Finset.mem_range.mpr hk), Finset.card_range]
  omega

theorem Collects.countP_splits (hk : k < s.count) :
    v.data.holes.size
        + v.data.holes.values.countP (Span.splits ⟨(s.cut k : Int), (s.cut (k + 1) : Int)⟩)
      ≤ (insert k received).card + 1 := by
  have hsize := h.size
  by_cases hdup : k ∈ received
  · have hnone : v.data.holes.values.countP
        (Span.splits ⟨(s.cut k : Int), (s.cut (k + 1) : Int)⟩) = 0 :=
      countP_eq_zero.mpr (h.not_splits hk (.inl hdup))
    rw [Finset.insert_eq_of_mem hdup]
    omega
  · have hone : v.data.holes.values.countP
        (Span.splits ⟨(s.cut k : Int), (s.cut (k + 1) : Int)⟩) ≤ 1 :=
      countP_splits_le_one h.neat.tidy.separated
    rw [Finset.card_insert_of_notMem hdup]
    omega

theorem Collects.insert {k : Nat} (hk : k < s.count) (bytes : Bytes)
    (hbytes : bytes.first (s.cut (k + 1) - s.cut k) = s.piece k) (isLast : Bool)
    (hlast : isLast = true ↔ k + 1 = s.count) :
    ∃ d, v.data.insert (s.cut k : Int) bytes ((s.cut (k + 1) - s.cut k : Nat) : Int) = .ok d ∧
      Collects { v with receivedLast := v.receivedLast || isLast, data := d } s
        (insert k received) := by
  have hlt := s.cut_lt_succ hk
  have hend := s.cut_le_length (show k + 1 ≤ s.count by omega)
  have hshort := s.short
  have hstop : (s.cut k : Int) + ((s.cut (k + 1) - s.cut k : Nat) : Int) = s.cut (k + 1) := by
    omega
  have hroom := h.not_crowded hk
  have hcount := h.countP_splits hk
  rw [← hstop] at hroom hcount
  obtain ⟨d, hcall, hneat, hsize, hfilled, hkeep, hnew⟩ := h.neat.insert bytes (by decide)
    (Int.natCast_nonneg _) (show (1 : Int) ≤ ((s.cut (k + 1) - s.cut k : Nat) : Int) by omega)
    (show _ ≤ ((10000 : Nat) : Int) by omega) hroom
  -- the new bytes are those of the payload
  have hpiece : ∀ x : Nat, s.cut k ≤ x → x < s.cut (k + 1) →
      s.payload[x]? = some (bytes ((x : Int) - s.cut k).toNat) := by
    intro x h1 h2
    have hindex : ((x : Int) - s.cut k).toNat = x - s.cut k := by omega
    have hread := Bytes.getElem?_first bytes (show x - s.cut k < s.cut (k + 1) - s.cut k by omega)
    rw [hbytes, s.getElem?_piece (by omega), show s.cut k + (x - s.cut k) = x by omega] at hread
    rw [hindex]
    exact hread
  refine ⟨d, hcall, hneat, ?_, ?_, ?_, ?_, ?_⟩
  · exact Finset.insert_subset (Finset.mem_range.mpr hk) h.indices
  · exact Nat.le_trans hsize hcount
  · intro x hx
    show d.Filled x ↔ _
    rw [hfilled, h.filled x hx]
    constructor
    · rintro (⟨j, hj, hjx⟩ | hin)
      · exact ⟨j, Finset.mem_insert_of_mem hj, hjx⟩
      · exact ⟨k, Finset.mem_insert_self k received, by omega, by omega⟩
    · rintro ⟨j, hj, hjx⟩
      rcases Finset.mem_insert.mp hj with rfl | hj
      · exact .inr (by omega)
      · exact .inl ⟨j, hj, hjx⟩
  · intro j hj x h1 h2
    show s.payload[x]? = some (d.data x)
    have hjcount : j < s.count := by
      rcases Finset.mem_insert.mp hj with rfl | hj
      · exact hk
      · exact Finset.mem_range.mp (h.indices hj)
    have hjend := s.cut_le_length (show j + 1 ≤ s.count by omega)
    by_cases hthere : v.data.Filled x
    · obtain ⟨m, hm, hmx⟩ := (h.filled x (by omega)).mp hthere
      rcases hkeep x with hsame | ⟨_, _, hwritten⟩
      · rw [hsame]
        exact h.bytes m hm x hmx.1 hmx.2
      · rw [hwritten]
        exact hpiece x (by omega) (by omega)
    -- the position was missing, so it lies in this fragment
    have hjk : j = k := by
      rcases Finset.mem_insert.mp hj with rfl | hold
      · rfl
      · exact absurd ((h.filled x (by omega)).mpr ⟨j, hold, h1, h2⟩) hthere
    subst hjk
    rw [hnew x (by omega) (by omega) hthere]
    exact hpiece x h1 h2
  · show (v.receivedLast || isLast) = true ↔ _
    rw [Bool.or_eq_true, h.last, hlast, Finset.mem_insert]
    constructor
    · rintro (hold | hnow)
      · exact .inr hold
      · exact .inl (by omega)
    · rintro (hnow | hold)
      · exact .inr (by omega)
      · exact .inl hold

/-! ## Completion -/

theorem Collects.open_end {x : Nat} (hx : s.payload.length ≤ x)
    (hmax : x < 2147483647) : ∃ hole ∈ v.data.holes.values, hole.Holds x := by
  rw [← not_filled, h.filled x hmax]
  rintro ⟨k, hk, hkx⟩
  have hk' := Finset.mem_range.mp (h.indices hk)
  have hend := s.cut_le_length (show k + 1 ≤ s.count by omega)
  omega

end

/-- Nothing is missing: the flag is set, and the one hole begins where the
payload ends. -/
theorem Collects.complete (h : Collects v s (Finset.range s.count)) :
    v.receivedLast = true ∧ v.data.continuousSize = .ok s.payload.length ∧
      v.data.data.first s.payload.length = s.payload := by
  have hpos := s.count_pos
  have hshort := s.short
  have hfill : ∀ x : Int, (∃ hole ∈ v.data.holes.values, hole.Holds x) ↔
      (s.payload.length : Int) ≤ x ∧ x < intMax := by
    intro x
    constructor
    · rintro ⟨hole, hmem, hx⟩
      obtain ⟨hlow, _, hhigh⟩ := h.neat.range hole hmem
      have hmax : x < intMax := Int.lt_of_lt_of_le hx.2 hhigh
      obtain ⟨n, rfl⟩ := Int.eq_ofNat_of_zero_le (Int.le_trans hlow hx.1)
      refine ⟨?_, hmax⟩
      by_contra hbefore
      obtain ⟨k, hk, hkx⟩ := s.exists_piece (show n < s.payload.length by omega)
      exact (h.filled n (by omega)).mpr ⟨k, Finset.mem_range.mpr hk, hkx⟩ hole hmem hx
    · rintro ⟨hbehind, hmax⟩
      unfold intMax at hmax
      obtain ⟨n, rfl⟩ := Int.eq_ofNat_of_zero_le (show 0 ≤ x by omega)
      exact h.open_end (by omega) (by omega)
  have hone := Span.eq_singleton_of_fill h.neat.apart (fun hole hmem => (h.neat.range hole hmem).2.1)
    (show (s.payload.length : Int) < intMax by unfold intMax; omega) hfill
  refine ⟨h.last.mpr (Finset.mem_range.mpr (by omega)), ?_, ?_⟩
  · rcases continuousSize_spec h.neat.wf with ⟨_, hvalues, hsize⟩ | ⟨hnot, _⟩
    · rw [hone, singleton_inj] at hvalues
      rw [hsize, ← hvalues]
    · rw [hone] at hnot
      exact absurd rfl hnot
  · apply ext_getElem?
    intro x
    by_cases hx : x < s.payload.length
    · obtain ⟨k, hk, hkx⟩ := s.exists_piece hx
      rw [Bytes.getElem?_first _ hx, h.bytes k (Finset.mem_range.mpr hk) x hkx.1 hkx.2]
    · rw [getElem?_eq_none (by simp; omega), getElem?_eq_none (by omega)]

/-- Something is missing: the flag is not set or there is no single hole
behind the beginning. -/
theorem Collects.incomplete (h : Collects v s received) (hmissing : received ≠ Finset.range s.count)
    (hlast : v.receivedLast = true) : ∃ c, v.data.continuousSize = .ok c ∧ ¬ c > 0 := by
  rcases continuousSize_spec h.neat.wf with ⟨hole, hvalues, hsize⟩ | ⟨_, hsize⟩
  · refine ⟨hole.start, hsize, ?_⟩
    intro _
    apply hmissing
    have honly : ∀ x : Nat, x < 2147483647 → ¬ hole.Holds x → v.data.Filled x := by
      intro x _ hnot k hk
      rw [hvalues, mem_singleton] at hk
      rw [hk]
      exact hnot
    have hshort := s.short
    have hlength := s.length_pos
    -- the hole has no end, and the last byte of the payload lies in front of it
    obtain ⟨far, hfarMem, hfar⟩ :=
      h.open_end (show s.payload.length ≤ 2147483646 by omega) (by decide)
    rw [hvalues, mem_singleton] at hfarMem
    rw [hfarMem] at hfar
    have hlastByte : v.data.Filled ((s.payload.length - 1 : Nat) : Int) := by
      refine (h.filled _ (by omega)).mpr ⟨s.count - 1, h.last.mp hlast, ?_, ?_⟩
      · have htail := s.tail
        have hend := s.cut_count
        omega
      · have hcount := s.count_pos
        rw [show s.count - 1 + 1 = s.count by omega, s.cut_count]
        omega
    have hfront : (s.payload.length : Int) ≤ hole.start := by
      by_contra hbefore
      refine hlastByte hole (by simp [hvalues]) ⟨?_, ?_⟩
      · omega
      · have hstop := hfar.2
        omega
    -- so every fragment begins at a filled position
    apply Finset.Subset.antisymm h.indices
    intro j hj
    rw [Finset.mem_range] at hj
    have hlt := s.cut_lt_succ hj
    have hjend := s.cut_le_length (show j + 1 ≤ s.count by omega)
    have hstart : v.data.Filled (s.cut j) := by
      apply honly _ (by omega)
      intro hheld
      have hleft := hheld.1
      omega
    obtain ⟨k, hk, hkx⟩ := (h.filled _ (by omega)).mp hstart
    have hsame := s.piece_unique hj (Finset.mem_range.mp (h.indices hk)) ⟨Nat.le_refl _, hlt⟩ hkx
    rw [hsame]
    exact hk
  · exact ⟨0, hsize, by decide⟩

end Peos2.Ipv4
