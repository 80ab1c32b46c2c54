/-
  Tcp.PureAcks — an acknowledgment that is acknowledged.

  In `ESTABLISHED` every segment is sequenced, an empty one as well. An
  empty segment at the read cursor becomes readable, `step` consumes it, and
  since something was consumed and nothing else is to be sent, `step` puts
  out an ACK: the answer to an ACK is an ACK.

  Main results: `silent_iff`, `pureAck_answered`.
-/
import Peos2.Tcp.Acknowledge
import Peos2.Tcp.SequenceSpace
import Peos2.Tcp.Shutdown
import Peos2.Tcp.Transmit

namespace Peos2.Tcp

open Peos2.Lib Peos2.Support List ReceiveQueue

/-! ## The send queue of a connection that lives -/

namespace World

variable (env : Environment)

variable {w w' : World}

theorem Move.txQueue_call (h : Move env w w') :
    w'.conn.txQueue = w.conn.txQueue ∨ SendQueue.Call w.conn.txQueue w'.conn.txQueue := by
  cases h with
  | acked call => exact .inr (.ack call)
  | transmitted _ shorter call => exact .inr (.write shorter call)
  | left _ _ call => exact .inr (.write (by decide) call)
  | emitted emit =>
    cases emit with
    | fetched readable call => exact .inr (.read readable call)
    | sent => exact .inl rfl
  | _ => exact .inl rfl

theorem Moves.txQueue_reachable (h : Moves env w w') (htx : w.conn.txQueue.Reachable) :
    w'.conn.txQueue.Reachable := by
  induction h with
  | refl => exact htx
  | tail _ hmove ih =>
    rcases hmove.txQueue_call env with heq | hcall
    · rw [heq]
      exact ih
    · exact Reach.step ih hcall

theorem Arrival.txQueue_eq {metadata : SegmentMetadata} {data : Bytes} {length : UInt32}
    (h : Arrival w metadata data length w') : w'.conn.txQueue = w.conn.txQueue := by
  cases h <;> rfl

theorem perform_txQueue {fuel : Nat} {event : Event} (hcall : w.perform env fuel event = .ok w')
    (h : w.conn.txQueue.Reachable) : w'.conn.txQueue.Reachable := by
  cases event with
  | received metadata data length =>
    obtain ⟨w1, harrival, hmoves⟩ := onReceive_moves env hcall
    apply Moves.txQueue_reachable env hmoves
    rw [harrival.txQueue_eq]
    exact h
  | stepped => exact Moves.txQueue_reachable env (step_moves env hcall) h
  | closed => exact Moves.txQueue_reachable env (close_moves env hcall) h
  | sent data => exact Moves.txQueue_reachable env (sendData_moves env hcall) h
  | elsewhere table =>
    cases hcall
    exact h

end World

variable {w : World} {n seqNbr : SequenceNumber} {q q' : SendQueue} {rxQueue : ReceiveQueue}

theorem Born.txQueue_reachable {env : Environment} (h : Born env w) : w.conn.txQueue.Reachable := by
  obtain ⟨table, metadata, connIdx, table', client, fuel, _, haccept, hget, hstep⟩ := h
  obtain ⟨r, rxQueue, _, rfl⟩ := World.acceptSyn_ok haccept hget
  apply World.Moves.txQueue_reachable env (World.step_moves env hstep)
  exact Reach.init ⟨_, _, rfl⟩

theorem LifeRun.txQueue_reachable {env : Environment} (h : LifeRun env w) :
    w.conn.txQueue.Reachable :=
  h.invariant (fun _ hborn => hborn.txQueue_reachable)
    (fun _ _ _ ih ⟨_, _, hcall⟩ => World.perform_txQueue env hcall ih)

theorem SendQueue.Pop.idle {s : SendSegment} {rest : List SendSegment} (h : Pop n q q' s rest)
    (hidle : q.queued.length ≤ q.readPos.toNat) : q'.queued.length ≤ q'.readPos.toNat := by
  rw [h.before, length_cons] at hidle
  rw [h.after, h.readPos]
  omega

theorem SendQueue.pops_idle (h : Relation.ReflTransGen (Pops n) q q')
    (hidle : q.queued.length ≤ q.readPos.toNat) : q'.queued.length ≤ q'.readPos.toNat := by
  induction h with
  | refl => exact hidle
  | tail _ hpop ih =>
    obtain ⟨s, rest, hpop⟩ := hpop
    exact hpop.idle ih

theorem SendQueue.ack_idle (hq : q.WF) (hcall : q.ack n = .ok q') (hidle : q.hasReadable = false) :
    q'.hasReadable = false := by
  obtain ⟨hpops, _, hwf⟩ := ackFrom_pops _ hq hcall
  have hread {p : SendQueue} (hp : p.WF) :
      p.hasReadable = false ↔ p.queued.length ≤ p.readPos.toNat := by
    rw [Bool.eq_false_iff, ne_eq, hasReadable_iff hp, Nat.not_lt]
  rw [hread hwf]
  exact pops_idle hpops ((hread hq).mp hidle)

/-! ## What becomes readable at once -/

/-- A segment that a drained queue can read at once is one that fits. -/
theorem FinFits.of_readable {q q' : ReceiveQueue} (hq : q.WF)
    (hdrained : q.hasReadable = .ok false) {flags : UInt16} {data : Bytes} {length : UInt32}
    {r : Bool} (hins : q.insert ⟨flags, seqNbr, 0⟩ data length = .ok (r, q'))
    (hread : q'.hasReadable = .ok true) : FinFits q seqNbr := by
  rcases insert_ok_cases hq hins with
    ⟨_, rfl⟩ | ⟨_, hfull, _, hwf, hrc, _, i, hnone, hl⟩
  · -- refused, so still drained
    rw [hdrained] at hread
    exact absurd hread (by decide)
  obtain ⟨j, s, hfront, hseq⟩ := (hasReadable_true hwf).mp hread
  obtain ⟨rfl, rfl⟩ := front_stored_last hq hdrained hnone hl hrc hfront hseq
  have hcursor : seqNbr = q.readCursor := Eq.trans hseq hrc
  refine ⟨hcursor, ?_, hfull, ?_⟩
  · intro hmax
    have hbelow : seqNbr.toNat < 4294967295 := hfront.below
    rw [hcursor, hmax] at hbelow
    exact absurd hbelow (by decide)
  · intro k t hk
    have hkj : k ≠ j := by
      rintro rfl
      rw [hnone] at hk
      simp at hk
    have hleast := hfront.least k t (by rw [hl, if_neg hkj]; exact hk)
    rw [← hcursor]
    show seqNbr.toNat ≤ t.seqnbr.toNat
    rcases hleast with hlt | ⟨heq, _⟩
    · exact Nat.le_of_lt hlt
    · exact Nat.le_of_eq heq

theorem FinFits.readable {q q' : ReceiveQueue} (h : FinFits q seqNbr) (hq : q.WF)
    (hdrained : q.hasReadable = .ok false) {flags : UInt16} {data : Bytes} {length : UInt32}
    (hlength : length.toNat ≤ 65535) {r : Bool}
    (hins : q.insert ⟨flags, seqNbr, 0⟩ data length = .ok (r, q')) : q'.hasReadable = .ok true := by
  obtain ⟨i, q1, hins1, hwf, hfront, hcursor⟩ := h.insert hq hdrained flags data hlength
  cases hins1.symm.trans hins
  exact (hasReadable_true hwf).mpr ⟨i, _, hfront, hcursor⟩

/-! ## What a call sends -/

/-- The segment handed to IPv4: where to, its header and its payload. -/
def outputOf : Action → Option (Address × Header × List UInt8)
  | .output destination header payload => some (destination, header, payload)
  | _ => none

def World.sends (w w' : World) : List (Address × Header × List UInt8) :=
  (w'.trace.drop w.trace.length).filterMap outputOf

/-- What was sent, as numbers: sequence number, acknowledgment number, flags and
payload. -/
def World.numbers (w w' : World) :
    List (SequenceNumber × SequenceNumber × UInt16 × List UInt8) :=
  (w.sends w').map fun (_, header, payload) =>
    (header.seqNbr, header.ackNbr, header.flagsHdrsz &&& (0x1FF : UInt16), payload)

theorem World.sends_append {w' : World} {acts : List Action} (h : w'.trace = w.trace ++ acts) :
    w.sends w' = acts.filterMap outputOf := by
  unfold sends
  rw [h, drop_left]

namespace World

variable (env : Environment)

theorem step_idle {fuel : Nat} {w w' : World} (hrx : w.conn.rxQueue.hasReadable = .ok false)
    (htx : w.conn.txQueue.hasReadable = false) (h : w.step env fuel = .ok w') : w' = w := by
  unfold step receiveLoop at h
  rw [hrx] at h
  simp only [ok_bind, Bool.false_and, Bool.false_eq_true, if_false] at h
  cases fuel with
  | zero => exact absurd h (by simp [transmitLoop])
  | succ fuel =>
    rw [transmitLoop, htx] at h
    cases h
    rfl

theorem onReceive_established {fuel : Nat} {w w' : World} {metadata : SegmentMetadata}
    {data : Bytes} {length : UInt32} (hstate : w.conn.state = .ESTABLISHED)
    (h : w.onReceive env fuel metadata data length = .ok w') :
    ∃ r rxQueue txQueue,
      w.conn.rxQueue.insert ⟨metadata.flags, metadata.tcpHeader.seqNbr, 0⟩
        (sequencedData metadata.flags data length) (sequencedLength metadata.flags length)
          = .ok (r, rxQueue) ∧
      (txQueue = w.conn.txQueue ∨
        w.conn.txQueue.ack metadata.tcpHeader.ackNbr = .ok txQueue) ∧
      (((w.log (.received metadata length)).withRx rxQueue).withTx txQueue).step env fuel
        = .ok w' := by
  rw [onReceive, bind_ok] at h
  obtain ⟨w1, hearly, h⟩ := h
  obtain ⟨w2, hack, hstep⟩ := bind_ok.mp h
  obtain ⟨r, rxQueue, hins, rfl⟩ := earlyRecv_established (by exact hstate) hearly
  have hstate1 : ((w.log (.received metadata length)).withRx rxQueue).conn.state
    = .ESTABLISHED := hstate
  -- an acknowledgment number only concerns the send queue
  unfold handleAck at hack
  split at hack
  · obtain ⟨txQueue, hcall, hack⟩ := bind_ok.mp hack
    refine ⟨r, rxQueue, txQueue, hins, .inr hcall, ?_⟩
    have hw2 : w2 = ((w.log (.received metadata length)).withRx rxQueue).withTx txQueue := by
      simp only [remoteConsumedAll,
        show (((w.log (.received metadata length)).withRx rxQueue).withTx txQueue).conn.state
          = .ESTABLISHED from hstate1] at hack
      split at hack <;> cases hack <;> rfl
    rw [← hw2]
    exact hstep
  · cases hack
    exact ⟨r, rxQueue, w.conn.txQueue, hins, .inl rfl, hstep⟩

end World

/-- **Acknowledging an acknowledgment.** An `ESTABLISHED` connection with nothing to send leaves
an empty segment without FIN unanswered exactly when the segment does not become readable at
once. -/
theorem silent_iff (env : Environment) {fuel : Nat} {w w' : World} {metadata : SegmentMetadata}
    {data : Bytes} (hrun : LifeRun env w) (hstate : w.conn.state = .ESTABLISHED)
    (hidle : w.conn.txQueue.hasReadable = false) (hfin : hasFlag metadata.flags FIN = false)
    (h : w.onReceive env fuel metadata data 0 = .ok w') :
    w.sends w' = [] ↔ ¬ FinFits w.conn.rxQueue metadata.tcpHeader.seqNbr := by
  have hw := LifeRun.settled env hrun
  have hprefix : ∃ rest, w'.trace = w.trace ++ .received metadata 0 :: rest := by
    obtain ⟨w3, harrival, hmoves⟩ := World.onReceive_moves env h
    obtain ⟨rest, hrest⟩ := harrival.trace_prefix.trans (World.Moves.trace_prefix env hmoves)
    exact ⟨rest, by rw [← hrest, append_assoc]; rfl⟩
  obtain ⟨r, rxQueue, txQueue, hins, htx, hstep⟩ := World.onReceive_established env hstate h
  have hlength : sequencedLength metadata.flags 0 = 0 := by
    rw [sequencedLength, hfin]
    rfl
  have hidle' : txQueue.hasReadable = false := by
    rcases htx with rfl | hcall
    · exact hidle
    · exact SendQueue.ack_idle hrun.txQueue_reachable.laid.wf hcall hidle
  constructor
  · -- a segment that fits is consumed, and that is acknowledged
    intro hnone hfits
    have hreadable : rxQueue.hasReadable = .ok true :=
      hfits.readable hw.wf hw.drained (by rw [hlength]; decide) hins
    obtain ⟨destination, header, payload, hlast, _⟩ := World.step_acks env hstep hreadable
    obtain ⟨rest, hrest⟩ := hprefix
    rw [World.sends_append hrest, filterMap_eq_nil_iff] at hnone
    rw [hrest, getLast?_append, getLast?_cons] at hlast
    have hmem : Action.output destination header payload ∈ Action.received metadata 0 :: rest := by
      have hlast' : (Action.received metadata 0 :: rest).getLast?
          = some (.output destination header payload) := by
        rw [getLast?_cons]
        simpa using hlast
      exact mem_of_getLast? hlast'
    exact absurd (hnone _ hmem) (by simp [outputOf])
  · -- any other is at most stored
    intro hnot
    have hdrained : rxQueue.hasReadable = .ok false := by
      cases hread : rxQueue.hasReadable with
      | error e =>
        rw [World.step] at hstep
        have hfail : (((w.log (.received metadata 0)).withRx rxQueue).withTx
          txQueue).conn.rxQueue.hasReadable = .error e := hread
        rw [hfail] at hstep
        simp at hstep
      | ok b =>
        cases b with
        | false => rfl
        | true => exact absurd (FinFits.of_readable hw.wf hw.drained hins hread) hnot
    have hw' := World.step_idle env (by exact hdrained) (by exact hidle') hstep
    rw [hw', World.sends_append (show _ = w.trace ++ [.received metadata 0] from rfl)]
    rfl

/-! ## An ACK in order -/

/-- An established connection gets an empty segment with the given number. -/
def oneAck (seqNbr : SequenceNumber) : Checked (World × World) := do
  let w0 ← birth World.quiet 2 ConnectionTable.blank (.plain SYN 1000 0)
  let w1 ← w0.onReceive World.quiet 2 (.plain ACK 1001 0xDEADBEF0) phantom 0
  let w2 ← w1.onReceive World.quiet 2 (.plain ACK seqNbr 0xDEADBEF0) phantom 0
  .ok (w1, w2)

/-- What can be seen of it: the state, whether anything is to be sent, the
read cursor, and the segments sent in answer. -/
def answers (p : World × World) : ConnectionState × Bool × SequenceNumber ×
    List (SequenceNumber × SequenceNumber × UInt16 × List UInt8) :=
  (p.1.conn.state, p.1.conn.txQueue.hasReadable, p.1.conn.rxQueue.readCursor, p.1.numbers p.2)

theorem oneAck_run {w' : World} (h : oneAck seqNbr = .ok (w, w')) :
    LifeRun World.quiet w ∧
      w.onReceive World.quiet 2 (.plain ACK seqNbr 0xDEADBEF0) phantom 0 = .ok w' := by
  obtain ⟨w0, h0, h⟩ := bind_ok.mp h
  obtain ⟨w1, h1, h⟩ := bind_ok.mp h
  obtain ⟨w2, h2, h⟩ := bind_ok.mp h
  cases h
  have r0 : LifeRun World.quiet w0 := Reach.init (birth_born World.quiet (by decide) h0)
  exact ⟨r0.step ⟨2, .received _ _ _, h1⟩, h2⟩

theorem silent_oneAck : ∃ w w', LifeRun World.quiet w ∧ w.conn.state = .ESTABLISHED ∧
    w.onReceive World.quiet 2 (.plain ACK 1000 0xDEADBEF0) phantom 0 = .ok w' ∧
    w.sends w' = [] := by
  have hlife : (oneAck 1000).map answers = .ok (.ESTABLISHED, false, 1001, []) := by rfl
  obtain ⟨⟨w, w'⟩, hw, hseen⟩ := map_ok.mp hlife
  obtain ⟨hrun, hcall⟩ := oneAck_run hw
  simp only [answers, Prod.mk.injEq] at hseen
  obtain ⟨hstate, hidle, hcursor, _⟩ := hseen
  refine ⟨w, w', hrun, hstate, hcall, ?_⟩
  refine (silent_iff World.quiet hrun hstate hidle (by decide) hcall).mpr ?_
  intro hfits
  have hat : (1000 : SequenceNumber) = w.conn.rxQueue.readCursor := hfits.atCursor
  rw [hcursor] at hat
  exact absurd hat (by decide)

/-- **An ACK at the read cursor is answered by an ACK**, which is again an
empty segment without SYN and FIN. -/
theorem pureAck_answered : ∃ w w' destination header, LifeRun World.quiet w ∧
    w.conn.state = .ESTABLISHED ∧ w.conn.txQueue.hasReadable = false ∧
    w.onReceive World.quiet 2 (.plain ACK 1001 0xDEADBEF0) phantom 0 = .ok w' ∧
    w.sends w' = [(destination, header, [])] ∧ header.flagsHdrsz &&& (0x1FF : UInt16) = ACK := by
  have hlife : (oneAck 1001).map answers
      = .ok (.ESTABLISHED, false, 1001, [(0xDEADBEF0, 1001, ACK, [])]) := by rfl
  obtain ⟨⟨w, w'⟩, hw, hseen⟩ := map_ok.mp hlife
  obtain ⟨hrun, hcall⟩ := oneAck_run hw
  simp only [answers, Prod.mk.injEq] at hseen
  obtain ⟨hstate, hidle, _, hsent⟩ := hseen
  obtain ⟨⟨destination, header, payload⟩, hsends, hanswer⟩ := map_eq_singleton_iff.mp hsent
  simp only [Prod.mk.injEq] at hanswer
  obtain ⟨_, _, hflags, rfl⟩ := hanswer
  exact ⟨w, w', destination, header, hrun, hstate, hidle, hcall, hsends, hflags⟩

end Peos2.Tcp
