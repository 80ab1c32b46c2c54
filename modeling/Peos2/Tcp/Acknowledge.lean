/-
  Tcp.Acknowledge — which acknowledgment numbers `send_queue::ack` takes well.

  The loop of `ack` pops segments until the number is reached and asserts that there is
  one to pop. A number beyond the last queued segment runs into the assertion, and one
  beyond what was sent pops segments that the remote end cannot have seen.

  Main result: `acksWell_iff`.
-/
import Peos2.Tcp.SendQueue

namespace Peos2.Tcp

open Peos2.Lib Peos2.Support

namespace SendQueue

/-! ## Queues whose numbers do not wrap -/

/-- A send queue between whose ack position and write cursor the numbers do
not wrap. -/
structure Sound (q : SendQueue) : Prop where
  laid : q.Laid
  ordered : q.ackPos.toNat + q.span = q.writePos.toNat

def startNat (s : SendSegment) : Nat := s.seqnbr.toNat

def lengthNat (s : SendSegment) : Nat := s.dataLength.toNat

variable {q q' : SendQueue} {s : SendSegment} {n : SequenceNumber}

theorem Sound.ack_le_write (h : q.Sound) : q.ackPos.toNat ≤ q.writePos.toNat := by
  have := h.ordered
  omega

theorem Sound.startNat_eq (h : q.Sound) (hs : s ∈ q.queued) :
    startNat s = q.ackPos.toNat + serialDist s.seqnbr q.ackPos := by
  have hmem := (h.laid.spaced.mem hs).2
  have hord := h.ordered
  have hw := toNat_lt_border q.writePos
  have hseq := toNat_lt_border s.seqnbr
  have hle : q.ackPos.toNat + serialDist s.seqnbr q.ackPos < 4294967296 := by
    omega
  unfold startNat
  rw [serialDist_eq] at hle ⊢
  omega

theorem Sound.spaced (h : q.Sound) :
    Spaced startNat lengthNat q.ackPos.toNat q.queued q.writePos.toNat := by
  have hraise := h.laid.spaced.raise (fun s hs => h.startNat_eq hs)
  rw [h.ordered] at hraise
  exact hraise

theorem Sound.toNat_end (h : q.Sound) (hs : s ∈ q.queued) :
    (s.seqnbr + s.dataLength).toNat = startNat s + lengthNat s := by
  have hmem := (h.spaced.mem hs).2
  have hw := toNat_lt_border q.writePos
  unfold startNat lengthNat at hmem ⊢
  rw [toNat_add_eq]
  omega

theorem reset_sound (q : SendQueue) (isn : SequenceNumber) : (q.reset isn).Sound := by
  refine ⟨reset_laid q isn, ?_⟩
  show isn.toNat + serialDist isn isn = isn.toNat
  rw [serialDist_self]
  rfl

theorem Sound.pop (h : q.Sound) {rest : List SendSegment} (hpop : Pop n q q' s rest) :
    q'.Sound := by
  refine ⟨h.laid.pop hpop, ?_⟩
  have hs : s ∈ q.queued := by
    rw [hpop.before]
    simp
  have hend := h.toNat_end hs
  have hmem := (h.spaced.mem hs).2
  have hw := toNat_lt_border q.writePos
  rw [← hpop.ackPos] at hend
  show q'.ackPos.toNat + serialDist q'.writePos q'.ackPos = q'.writePos.toNat
  rw [hpop.writePos, serialDist_eq]
  omega

theorem Sound.pops (h : Relation.ReflTransGen (Pops n) q q') (hq : q.Sound) : q'.Sound := by
  induction h with
  | refl => exact hq
  | tail _ hpop ih =>
    obtain ⟨s, rest, hpop⟩ := hpop
    exact ih.pop hpop

theorem Sound.ack (h : q.Sound) (hcall : q.ack n = .ok q') : q'.Sound :=
  Sound.pops (ackFrom_pops _ h.laid.wf hcall).1 h

/-! ## What was sent, and what may be acknowledged -/

/-- Behind the last record that was read, which is the last one sent. -/
def sentEnd (q : SendQueue) : Nat :=
  lastEnd startNat lengthNat q.ackPos.toNat (q.queued.take q.readPos.toNat)

def NeverSent (q : SendQueue) (n : SequenceNumber) : Prop := q.sentEnd < n.toNat

/-- The number stops the loop at once, or lies within what was sent. -/
def AckFits (q : SendQueue) (n : SequenceNumber) : Prop :=
  Stops n q ∨ n.toNat ≤ q.sentEnd

/-- The ack position is where it was or behind a segment, and did not leave
the queue. -/
structure Boundary (q q' : SendQueue) : Prop where
  boundary : q'.ackPos = q.ackPos ∨ ∃ s ∈ q.queued, q'.ackPos = s.seqnbr + s.dataLength
  above : q.ackPos ≤ q'.ackPos
  below : q'.ackPos ≤ q.writePos

/-- `ack` returns at a boundary, and takes no segment off for data that was
never sent. -/
def AcksWell (q : SendQueue) (n : SequenceNumber) : Prop :=
  ∃ q', q.ack n = .ok q' ∧ Boundary q q' ∧ (q.NeverSent n → q'.queued = q.queued)

/-! ## The loop -/

theorem ack_of_stops (h : q.WF) (hstop : Stops n q) : q.ack n = .ok q := by
  rcases ackFrom_turn h n with ⟨_, ht⟩ | ⟨hn, hq, _⟩ | ⟨q', s, rest, hpop, _⟩
  · exact ht _
  · rcases hstop with hle | ⟨s, rest, hs, _⟩
    · rw [le_iff_toNat] at hle
      rw [gt_iff_lt, lt_iff_toNat] at hn
      omega
    · rw [hq] at hs
      simp at hs
  rcases hstop with hle | ⟨s', rest', hs, hend⟩
  · have hn := hpop.above
    rw [le_iff_toNat] at hle
    rw [gt_iff_lt, lt_iff_toNat] at hn
    omega
  · rw [hpop.before] at hs
    cases hs
    exact absurd hend hpop.reached

/-- A number up to the end of the last queued segment is taken. Induction
on the bound of the loop, which pops a segment in every turn. -/
theorem ackFrom_of_le (fuel : Nat) : ∀ {q : SendQueue}, q.Sound →
    q.queued.length < fuel →
    n.toNat ≤ lastEnd startNat lengthNat q.ackPos.toNat q.queued →
    ∃ q', ackFrom n fuel q = .ok q' := by
  induction fuel with
  | zero =>
    intro q _ hlt
    omega
  | succ fuel ih =>
    intro q hq hlt hn
    rcases ackFrom_turn hq.laid.wf n with ⟨_, ht⟩ | ⟨hgt, hempty, _⟩ | ⟨q1, s, rest, hpop, ht⟩
    · exact ⟨q, ht fuel⟩
    · -- nothing queued: the number is not above the ack position
      rw [hempty] at hn
      rw [gt_iff_lt, lt_iff_toNat] at hgt
      have : n.toNat ≤ q.ackPos.toNat := hn
      omega
    rw [ht fuel]
    have hs : s ∈ q.queued := by
      rw [hpop.before]
      simp
    refine ih (hq.pop hpop) ?_ ?_
    · rw [hpop.after]
      rw [hpop.before, List.length_cons] at hlt
      omega
    · rw [hpop.before, lastEnd_cons] at hn
      rw [hpop.after, hpop.ackPos, hq.toNat_end hs]
      exact hn

theorem ack_of_le (h : q.Sound)
    (hn : n.toNat ≤ lastEnd startNat lengthNat q.ackPos.toNat q.queued) :
    ∃ q', q.ack n = .ok q' := by
  refine ackFrom_of_le _ h ?_ hn
  have hsize : q.segments.size = q.queued.length := h.laid.wf.segments.size_eq
  omega

theorem pops_boundary (hq : q.Sound) (h : Relation.ReflTransGen (Pops n) q q') :
    Boundary q q' ∧ q'.queued <:+ q.queued ∧ q'.writePos = q.writePos := by
  induction h with
  | refl =>
    refine ⟨⟨Or.inl rfl, UInt32.le_refl _, ?_⟩, List.suffix_refl _, rfl⟩
    exact hq.ack_le_write
  | tail hrun hpop ih =>
    obtain ⟨hb, hsuffix, hwrite⟩ := ih
    obtain ⟨s, rest, hpop⟩ := hpop
    have hmid := Sound.pops hrun hq
    have hs := List.mem_cons_self (a := s) (l := rest)
    rw [← hpop.before] at hs
    have hend := hmid.toNat_end hs
    have hmem := hmid.spaced.mem hs
    rw [← hpop.ackPos] at hend
    refine ⟨⟨Or.inr ⟨s, hsuffix.subset hs, hpop.ackPos⟩, ?_, ?_⟩, ?_, ?_⟩
    · have habove := hb.above
      rw [le_iff_toNat] at habove ⊢
      omega
    · rw [le_iff_toNat, ← hwrite]
      omega
    · rw [hpop.after]
      exact (by rw [hpop.before]; exact List.suffix_cons s rest : rest <:+ _).trans hsuffix
    · rw [hpop.writePos, hwrite]

/-! ## When `ack` does well -/

theorem ackFits_of_acksWell (h : q.Sound) (hw : AcksWell q n) : AckFits q n := by
  obtain ⟨q', hcall, _, hunsent⟩ := hw
  by_contra hnot
  unfold AckFits at hnot
  rw [not_or] at hnot
  obtain ⟨hstop, hsent⟩ := hnot
  have hsame := hunsent (Nat.lt_of_not_le hsent)
  have hcall' : ackFrom n (q.segments.size.toNat + 1) q = .ok q' := hcall
  rcases ackFrom_turn h.laid.wf n with ⟨hs, _⟩ | ⟨_, _, ht⟩ | ⟨q1, s, rest, hpop, ht⟩
  · exact hstop hs
  · rw [ht] at hcall'
    simp at hcall'
  -- a segment went
  rw [ht] at hcall'
  obtain ⟨hrun, _⟩ := ackFrom_pops _ hpop.wf hcall'
  have hlen := (pops_boundary (h.pop hpop) hrun).2.1.length_le
  rw [hsame, hpop.before, hpop.after, List.length_cons] at hlen
  omega

theorem acksWell_of_ackFits (h : q.Sound) (hfits : AckFits q n) : AcksWell q n := by
  have hcall : ∃ q', q.ack n = .ok q' := by
    rcases hfits with hstop | hsent
    · exact ⟨q, ack_of_stops h.laid.wf hstop⟩
    · exact ack_of_le h (Nat.le_trans hsent (h.spaced.lastEnd_take_le _))
  obtain ⟨q', hcall⟩ := hcall
  refine ⟨q', hcall, (pops_boundary h (ackFrom_pops _ h.laid.wf hcall).1).1, ?_⟩
  intro hnever
  rcases hfits with hstop | _
  · rw [ack_of_stops h.laid.wf hstop] at hcall
    cases hcall
    rfl
  · unfold NeverSent at hnever
    omega

/-- `ack` does well exactly when the number fits. -/
theorem acksWell_iff (h : q.Sound) (n : SequenceNumber) : AcksWell q n ↔ AckFits q n :=
  ⟨ackFits_of_acksWell h, acksWell_of_ackFits h⟩

end SendQueue

end Peos2.Tcp
