/-
  Tcp.SequenceSpace — which segments may move a connection forward.

  A connection should leave `SYN_RCVD` only for a segment that acknowledges its SYN, and go
  to `CLOSING` or be destroyed only for a FIN consumed at the read cursor. `early_recv`
  looks at the flags alone: it does not compare the acknowledgment number, and ignores
  whether the FIN was sequenced. So the property holds in the runs in which the segments
  that arrive in `SYN_RCVD` and `FIN_WAIT_1` fit, and fails outside them.

  The FIN that takes `FIN_WAIT_1` to `CLOSING` is consumed by the `step` at the end of the
  same `on_receive`, so a call is taken as a whole.

  Main results: `fittingRun_inSequence`, `blind_segments`.
-/
import Peos2.Tcp.Lifecycle

namespace Peos2.Tcp

open Peos2.Lib Peos2.Support List World ReceiveQueue

/-! ## The property -/

/-- A FIN at the read cursor was consumed, in this state. -/
def FinConsumed (state : ConnectionState) (trace : List Action) : Prop :=
  ∃ before segment after, trace = before ++ .consumed segment segment.seqnbr :: after ∧
    hasFlag segment.flags FIN = true ∧ stateAt before = state

/-- The connection was moved forward by valid segments only. -/
structure InSequence (w : World) : Prop where
  opened : ∀ before new after, w.trace = before ++ .transition .SYN_RCVD new :: after →
    ∃ metadata length, before.getLast? = some (.received metadata length) ∧
      metadata.tcpHeader.ackNbr = 0xDEADBEEF + 1
  closing : .transition .FIN_WAIT_1 .CLOSING ∈ w.trace → FinConsumed .CLOSING w.trace
  destroyed : ∀ state, .finish state ∈ w.trace → state = .FIN_WAIT_2 ∨ state = .CLOSING →
    FinConsumed state w.trace

theorem FinConsumed.mono {state : ConnectionState} {l m : List Action}
    (h : FinConsumed state l) (hlm : l <+: m) : FinConsumed state m := by
  obtain ⟨before, segment, after, rfl, hfin, hstate⟩ := h
  obtain ⟨rest, rfl⟩ := hlm
  refine ⟨before, segment, after ++ rest, ?_, hfin, hstate⟩
  rw [append_assoc, cons_append]

/-! ## What holds of every action -/

/-- The conditions on a single action, given those before it. -/
def Orderly (before : List Action) : Action → Prop
  | .transition old _ => old = .SYN_RCVD →
      ∃ metadata length, before.getLast? = some (.received metadata length) ∧
        metadata.tcpHeader.ackNbr = 0xDEADBEEF + 1
  | .consumed segment cursor => segment.seqnbr = cursor
  | .finish state => state = .FIN_WAIT_2 →
      ∃ segment cursor, before.getLast? = some (.consumed segment cursor) ∧
        hasFlag segment.flags FIN = true
  | _ => True

structure Ordered (w : World) : Prop where
  living : Living w
  rxQueue : w.conn.rxQueue.WF
  orderly : Everywhere Orderly w.trace

variable {w w' : World}

theorem Ordered.move (env : Environment) (h : Ordered w) (hmove : World.Move env w w') :
    Ordered w' := by
  refine ⟨h.living.move env hmove, ?_, ?_⟩
  · exact hmove.rxQueue_wf env h.rxQueue
  · cases hmove with
    | acked => exact h.orderly
    | finAcked state =>
      refine everywhere_concat.mpr ⟨h.orderly, ?_⟩
      intro hold
      exact absurd (state.symm.trans hold) (by decide)
    | finished state call =>
      refine everywhere_concat.mpr ⟨h.orderly, ?_⟩
      intro hfin
      rcases state with hs | hs
      · exact absurd (hs.symm.trans hfin) (by decide)
      · exact absurd (hs.symm.trans hfin) (by decide)
    | destroyed state last fin call =>
      exact everywhere_concat.mpr ⟨h.orderly, fun _ => ⟨_, _, last, fin⟩⟩
    | consumed readable call =>
      obtain ⟨_, _, hseq, _⟩ := readOneSegment_ok h.rxQueue call
      exact everywhere_concat.mpr ⟨h.orderly, hseq⟩
    | transmitted | called => exact everywhere_concat.mpr ⟨h.orderly, trivial⟩
    | left state =>
      refine everywhere_concat.mpr ⟨everywhere_concat.mpr ⟨h.orderly, trivial⟩, ?_⟩
      intro hold
      exact absurd (state.symm.trans hold) (by decide)
    | emitted emit =>
      cases emit with
      | fetched => exact h.orderly
      | sent => exact everywhere_concat.mpr ⟨h.orderly, trivial⟩

theorem Ordered.moves (env : Environment) (h : Ordered w) (hmoves : World.Moves env w w') :
    Ordered w' := by
  induction hmoves with
  | refl => exact h
  | tail _ hmove ih => exact ih.move env hmove

theorem Ordered.arrival {metadata : SegmentMetadata} {data : Bytes} {length : UInt32}
    (h : Ordered w) (hack : w.conn.state = .SYN_RCVD → hasFlag metadata.flags ACK = true →
      metadata.tcpHeader.ackNbr = 0xDEADBEEF + 1)
    (harrival : World.Arrival w metadata data length w') : Ordered w' := by
  have hlog : Everywhere Orderly (w.trace ++ [.received metadata length]) :=
    everywhere_concat.mpr ⟨h.orderly, trivial⟩
  refine ⟨h.living.arrival harrival, ?_, ?_⟩
  · exact harrival.rxQueue_wf h.rxQueue
  · cases harrival with
    | ignored | accepted | sequenced | finSequenced => exact hlog
    | established state ack =>
      refine everywhere_concat.mpr ⟨hlog, fun _ => ?_⟩
      exact ⟨metadata, length, getLast?_concat, hack state ack⟩
    | closing state =>
      refine everywhere_concat.mpr ⟨hlog, ?_⟩
      intro hold
      exact absurd (state.symm.trans hold) (by decide)

/-! ## The way to `CLOSING` -/

theorem World.Move.closing_iff {env : Environment} (h : World.Move env w w') :
    w'.conn.state = .CLOSING ↔ w.conn.state = .CLOSING := by
  cases h with
  | finAcked state =>
    show ConnectionState.FIN_WAIT_2 = .CLOSING ↔ _
    rw [state]
    decide
  | @left new _ _ state target =>
    show new = .CLOSING ↔ _
    rw [state]
    rcases target with rfl | rfl <;> decide
  | emitted emit => cases emit <;> rfl
  | _ => rfl

theorem World.Moves.closing_iff {env : Environment} (h : World.Moves env w w') :
    w'.conn.state = .CLOSING ↔ w.conn.state = .CLOSING := by
  induction h with
  | refl => rfl
  | tail _ hmove ih => exact hmove.closing_iff.trans ih

/-- The number of an empty segment, an empty FIN above all, that the receive
queue takes in and reads next. -/
structure FinFits (q : ReceiveQueue) (seqNbr : SequenceNumber) : Prop where
  atCursor : seqNbr = q.readCursor
  below : q.readCursor ≠ 0xFFFFFFFF
  room : q.segments.full = false
  ahead : ∀ i segment, q.stored i = some segment → q.readCursor ≤ segment.seqnbr

theorem FinFits.free {q : ReceiveQueue} {seqNbr : SequenceNumber} (h : FinFits q seqNbr)
    (hq : q.WF) (hdrained : q.hasReadable = .ok false) {j : Nat} {s : RecvSegment}
    (hj : q.stored j = some s) : q.readCursor.toNat < s.seqnbr.toNat := by
  have hle := h.ahead j s hj
  refine Nat.lt_of_le_of_ne hle ?_
  intro heq
  rcases findFrontSegment_cases hq with ⟨i, seg, _, hf⟩ | ⟨_, hall⟩
  · -- the front record would stand at the cursor too
    have h1 := hf.least j s hj
    have h2 := h.ahead i seg hf.stored
    rw [le_iff_toNat] at h2
    have hread : q.hasReadable = .ok true := by
      refine (hasReadable_true hq).mpr ⟨i, seg, hf, ?_⟩
      rw [eq_iff_toNat]
      omega
    rw [hdrained] at hread
    exact absurd hread (by decide)
  · have h1 := hall j s hj
    refine h.below ?_
    rw [eq_iff_toNat, heq, h1]
    rfl

/-- A segment that fits is taken in and becomes the front record. -/
theorem FinFits.insert {q : ReceiveQueue} {seqNbr : SequenceNumber} (h : FinFits q seqNbr)
    (hq : q.WF) (hdrained : q.hasReadable = .ok false) (flags : UInt16) (data : Bytes)
    {length : UInt32} (hlength : length.toNat ≤ 65535) :
    ∃ i q', q.insert ⟨flags, seqNbr, 0⟩ data length = .ok (true, q') ∧ q'.WF ∧
      q'.Front i ⟨flags, seqNbr, length⟩ ∧ seqNbr = q'.readCursor := by
  have hdist : serialDist seqNbr q.readCursor = 0 := by
    have hlt := toNat_lt_border q.readCursor
    rw [h.atCursor, serialDist_eq]
    omega
  have hcur : q.behindCursor seqNbr = false := q.behindCursor_of_serialDist (by omega)
  have hwin : serialDist seqNbr q.readCursor + length.toNat ≤ 65535 := by
    omega
  obtain ⟨i, q', hins, hwf, _, hrc, _, hl⟩ :=
    @insert_window q hq ⟨flags, seqNbr, 0⟩ data length h.room hcur hwin
  refine ⟨i, q', hins, hwf, ⟨?_, ?_, ?_⟩, h.atCursor.trans hrc.symm⟩
  · rw [hl, if_pos rfl]
  · have h1 := toNat_lt_border seqNbr
    have h2 : seqNbr.toNat ≠ 4294967295 := by
      intro hmax
      refine h.below ?_
      rw [← h.atCursor, eq_iff_toNat, hmax]
      rfl
    show seqNbr.toNat < 4294967295
    omega
  · intro j s hj
    rw [hl] at hj
    by_cases hji : j = i
    · rw [if_pos hji] at hj
      cases hj
      exact .inr ⟨rfl, Nat.le_of_eq hji.symm⟩
    · rw [if_neg hji] at hj
      left
      show seqNbr.toNat < s.seqnbr.toNat
      rw [h.atCursor]
      exact h.free hq hdrained hj

/-- A FIN that fits is consumed by the call it came with. -/
theorem closing_consumes (env : Environment) {fuel : Nat} {metadata : SegmentMetadata}
    {data : Bytes} {length : UInt32} (hw : Ordered w)
    (hdrained : w.conn.rxQueue.hasReadable = .ok false) (hstate : w.conn.state = .FIN_WAIT_1)
    (hfin : hasFlag metadata.flags FIN = true) (hempty : length = 0)
    (hfits : FinFits w.conn.rxQueue metadata.tcpHeader.seqNbr)
    (h : w.onReceive env fuel metadata data length = .ok w') : FinConsumed .CLOSING w'.trace := by
  rw [onReceive, bind_ok] at h
  obtain ⟨w1, hearly, h⟩ := h
  obtain ⟨w2, hack, hstep⟩ := bind_ok.mp h
  have hw1 : Ordered w1 := hw.arrival (fun hs => absurd (hstate.symm.trans hs) (by decide))
    (earlyRecv_arrival hearly)
  have hw2 : Ordered w2 := hw1.moves env (handleAck_moves env hack)
  -- `early_recv` leaves the FIN in front of the queue
  obtain ⟨i, q, hins, hq, hfront, hcursor⟩ := hfits.insert hw.rxQueue hdrained metadata.flags
    phantom (show (1 : UInt32).toNat ≤ 65535 by decide)
  have hearly1 : w1 = ((w.log (.received metadata length)).withRx q).transition .CLOSING := by
    have hlog : (w.log (.received metadata length)).conn.state = .FIN_WAIT_1 := hstate
    rw [earlyRecv_finWait1 hlog hfin hempty, bind_ok] at hearly
    obtain ⟨w0, hseq, hearly⟩ := hearly
    obtain ⟨r, rxQueue, hcall, rfl⟩ := sequence_ok hseq
    cases hcall.symm.trans hins
    cases hearly
    rfl
  have hrx2 : w2.conn.rxQueue = q := by
    rw [handleAck_rxQueue hack, hearly1]
    rfl
  have hstate2 : w2.conn.state = .CLOSING := by
    rw [(handleAck_moves env hack).closing_iff, hearly1]
    rfl
  -- and the first turn of the loop of `step` reads it
  have hreadable : w2.conn.rxQueue.hasReadable = .ok true := by
    rw [hrx2]
    exact (hasReadable_true hq).mpr ⟨i, _, hfront, hcursor⟩
  obtain ⟨w3, hloop, hemits⟩ := step_ok env hstep
  obtain ⟨_, segment, bytes, rxQueue, w4, _, _, hread, hseq, hrest⟩ :=
    (receiveLoop_cases env hloop).resolve_left
      (fun hnone => absurd (hreadable.symm.trans hnone.2) (by simp))
  obtain ⟨i', hfront', hcursor', _⟩ := readOneSegment_ok hw2.rxQueue hread
  have hsegment : segment = ⟨metadata.flags, metadata.tcpHeader.seqNbr, 1⟩ := by
    rw [hrx2] at hfront'
    exact (hfront'.unique hfront).2
  have hmoves := (sequencedRecv_moves env getLast?_concat hseq).trans
    ((receiveLoop_moves env _ hrest).trans (hemits.moves env))
  have hprefix : w2.trace ++ [.consumed segment w2.conn.rxQueue.readCursor] <+: w'.trace :=
    World.Moves.trace_prefix env hmoves
  refine FinConsumed.mono ⟨w2.trace, segment, [], ?_, ?_, ?_⟩ hprefix
  · rw [hcursor']
  · rw [hsegment]
    exact hfin
  · rw [hw2.living.stateAt_eq, hstate2]

/-! ## Runs of fitting segments -/

/-- The segments that fit the sequence space: in `SYN_RCVD` an acknowledgment
acknowledges the SYN, in `FIN_WAIT_1` an empty FIN is the next to be read. -/
def Fits (w : World) : Event → Prop
  | .received metadata _ length =>
    (w.conn.state = .SYN_RCVD → hasFlag metadata.flags ACK = true →
      metadata.tcpHeader.ackNbr = 0xDEADBEEF + 1) ∧
    (w.conn.state = .FIN_WAIT_1 → hasFlag metadata.flags FIN = true → length = 0 →
      FinFits w.conn.rxQueue metadata.tcpHeader.seqNbr)
  | _ => True

def FittingStep (env : Environment) (w w' : World) : Prop :=
  ∃ fuel event, Fits w event ∧ w.perform env fuel event = .ok w'

abbrev FittingRun (env : Environment) : World → Prop := Reach (Born env) (FittingStep env)

structure Sequenced (w : World) : Prop where
  ordered : Ordered w
  settled : Settled w
  closed : w.conn.state = .CLOSING → FinConsumed .CLOSING w.trace

section Runs

variable (env : Environment)

variable {w w' : World}

theorem Born.sequenced (h : Born env w) : Sequenced w := by
  have hsettled := Born.settled env h
  obtain ⟨table, metadata, connIdx, table', client, fuel, _, haccept, hget, hstep⟩ := h
  obtain ⟨r, rxQueue, hinsert, rfl⟩ := acceptSyn_ok haccept hget
  have hmoves := step_moves env hstep
  have hrx : rxQueue.WF := insert_ok_wf (reset_wf _ _) hinsert
  have hstart : Ordered ⟨.accepted metadata table.callback connIdx rxQueue, table', []⟩ :=
    ⟨⟨rfl, everywhere_nil, fun _ hlast => by simp at hlast, rfl⟩, hrx, everywhere_nil⟩
  refine ⟨hstart.moves env hmoves, hsettled, ?_⟩
  intro hclosing
  have hborn : ConnectionState.SYN_RCVD = .CLOSING := hmoves.closing_iff.mp hclosing
  exact absurd hborn (by decide)

theorem Sequenced.moves (h : Sequenced w) (hmoves : World.Moves env w w') (hsettled : Settled w') :
    Sequenced w' where
  ordered := h.ordered.moves env hmoves
  settled := hsettled
  closed := fun hclosing =>
    (h.closed (hmoves.closing_iff.mp hclosing)).mono (World.Moves.trace_prefix env hmoves)

theorem World.Arrival.closing_of {metadata : SegmentMetadata} {data : Bytes} {length : UInt32}
    (h : Arrival w metadata data length w') (hclosing : w'.conn.state = .CLOSING) :
    w.conn.state = .CLOSING ∨
      (w.conn.state = .FIN_WAIT_1 ∧ hasFlag metadata.flags FIN = true ∧ length = 0) := by
  cases h with
  | established => exact absurd hclosing (by simp [transition, withState, log])
  | closing state fin empty => exact .inr ⟨state, fin, empty⟩
  | _ => exact .inl hclosing

theorem Sequenced.perform {fuel : Nat} {event : Event} (h : Sequenced w) (hfits : Fits w event)
    (hcall : w.perform env fuel event = .ok w') : Sequenced w' := by
  have hsettled := h.settled.perform env hcall
  cases event with
  | received metadata data length =>
    obtain ⟨w1, harrival, hmoves⟩ := onReceive_moves env hcall
    refine ⟨(h.ordered.arrival hfits.1 harrival).moves env hmoves, hsettled, ?_⟩
    intro hclosing
    rcases harrival.closing_of (hmoves.closing_iff.mp hclosing) with hold | ⟨hs, hfin, hempty⟩
    · -- already closing
      exact (h.closed hold).mono ((prefix_append _ _).trans
        (harrival.trace_prefix.trans (World.Moves.trace_prefix env hmoves)))
    · exact closing_consumes env h.ordered h.settled.drained hs hfin hempty
        (hfits.2 hs hfin hempty) hcall
  | stepped => exact h.moves env (step_moves env hcall) hsettled
  | closed => exact h.moves env (close_moves env hcall) hsettled
  | sent data => exact h.moves env (sendData_moves env hcall) hsettled
  | elsewhere table =>
    cases hcall
    exact ⟨⟨h.ordered.living.silent rfl rfl, h.ordered.rxQueue, h.ordered.orderly⟩,
      hsettled, h.closed⟩

theorem FittingRun.sequenced (h : FittingRun env w) : Sequenced w :=
  h.invariant (fun _ hborn => Born.sequenced env hborn)
    (fun _ _ _ ih ⟨_, _, hfits, hcall⟩ => ih.perform env hfits hcall)

end Runs

/-! ## The theorem -/

theorem mem_states_of_stateAt {trace : List Action} {state : ConnectionState}
    (h : stateAt trace = state) (hne : state ≠ .SYN_RCVD) : state ∈ states trace := by
  unfold stateAt at h
  rcases eq_nil_or_concat (states trace) with hnil | ⟨l, s, hl⟩
  · rw [hnil] at h
    exact absurd h.symm hne
  · rw [hl, concat_eq_append, getLastD_concat] at h
    rw [hl, h]
    simp

theorem Living.closing_of_mem (h : Living w) (hmem : ConnectionState.CLOSING ∈ states w.trace) :
    w.conn.state = .CLOSING := by
  have hpath : ConnectionState.CLOSING ∈ pathTo w.conn.state := by
    rw [← h.path]
    exact mem_cons_of_mem _ hmem
  revert hpath
  cases w.conn.state <;> decide

/-- **In every run of fitting segments the connection is moved forward by valid segments only**:
`SYN_RCVD` is left for an acknowledgment of the SYN, and `CLOSING` and destruction come with a
FIN consumed at the read cursor. -/
theorem fittingRun_inSequence (env : Environment) {w : World} (h : FittingRun env w) :
    InSequence w := by
  have hs := h.sequenced
  have hliving := hs.ordered.living
  refine ⟨?_, ?_, ?_⟩
  · intro before new after hw
    exact hs.ordered.orderly _ _ _ hw rfl
  · intro hmem
    refine hs.closed (hliving.closing_of_mem ?_)
    exact mem_filterMap.mpr ⟨_, hmem, rfl⟩
  · intro state hmem hstate
    obtain ⟨before, after, hw⟩ := append_of_mem hmem
    obtain ⟨hat, _⟩ := (hliving.lawful _ _ _ hw).2
    rcases hstate with rfl | rfl
    · -- the FIN was consumed just before
      obtain ⟨segment, cursor, hlast, hfin⟩ := hs.ordered.orderly _ _ _ hw rfl
      obtain ⟨before', rfl⟩ := getLast?_eq_some_iff.mp hlast
      have hw' : w.trace = before' ++ .consumed segment cursor :: .finish .FIN_WAIT_2 :: after := by
        rw [hw, append_assoc, singleton_append]
      have hcursor : segment.seqnbr = cursor := hs.ordered.orderly _ _ _ hw'
      refine ⟨before', segment, _, by rw [hw', hcursor], hfin, ?_⟩
      rw [← hat, stateAt, stateAt]
      simp [states]
    · refine hs.closed (hliving.closing_of_mem ?_)
      rw [hw, states_append]
      exact mem_append_left _ (mem_states_of_stateAt hat (by decide))

def crossedFins : Checked (World × World × World) := do
  let w0 ← birth World.quiet 2 .blank (.plain SYN 1000 0)
  let w1 ← w0.onReceive World.quiet 2 (.plain ACK 1001 0xDEADBEF0) phantom 0
  let w2 ← w1.close
  let w3 ← w2.onReceive World.quiet 2 (.plain FIN 1001 0) phantom 0
  .ok (w0, w2, w3)

theorem fittingRun_crossed : ∃ w, (FittingRun World.quiet w ∧ w.conn.state = .CLOSING) ∧
    InSequence w := by
  have hlife : crossedFins.map (fun (w0, w2, w3) => (w0.conn.state, w2.conn.rxQueue.segments.size,
      w2.conn.rxQueue.readCursor, w3.conn.state)) = .ok (.SYN_RCVD, 0, 1001, .CLOSING) := by rfl
  obtain ⟨⟨w0, w2, w⟩, hw, hfacts⟩ := map_ok.mp hlife
  refine ⟨w, ?_⟩
  simp only [Prod.mk.injEq] at hfacts
  obtain ⟨hs0, hsize, hcursor, hs3⟩ := hfacts
  obtain ⟨w0', h0, hw⟩ := bind_ok.mp hw
  obtain ⟨w1, h1, hw⟩ := bind_ok.mp hw
  obtain ⟨w2', h2, hw⟩ := bind_ok.mp hw
  obtain ⟨w3, h3, hw⟩ := bind_ok.mp hw
  cases hw
  have r0 : FittingRun quiet w0 := Reach.init (birth_born quiet (by decide) h0)
  have r1 : FittingRun quiet w1 := by
    refine r0.step ⟨2, .received _ _ _, ⟨fun _ _ => rfl, fun hs => ?_⟩, h1⟩
    exact absurd (hs0.symm.trans hs) (by decide)
  have r2 : FittingRun quiet w2 := r1.step ⟨2, .closed, trivial, h2⟩
  have hempty : ∀ i segment, w2.conn.rxQueue.stored i = some segment → False := by
    intro i segment hi
    exact size_ne_zero (FittingRun.sequenced _ r2).settled.wf hi hsize
  have hrun : FittingRun quiet w := by
    refine r2.step ⟨2, .received _ _ _, ⟨fun _ hack => absurd hack (by decide), ?_⟩, h3⟩
    intro _ _ _
    refine ⟨hcursor.symm, ?_, ?_, fun i segment hi => (hempty i segment hi).elim⟩
    · rw [hcursor]
      decide
    · have hcount : w2.conn.rxQueue.segments.count = 0 := hsize
      rw [Pool.full, hcount]
      rfl
  exact ⟨⟨hrun, hs3⟩, fittingRun_inSequence _ hrun⟩

/-- A connection moved by segments that have nothing to do with it: an
acknowledgment of nothing, and a FIN far behind the read cursor. -/
def blindSegments : Checked World := do
  let w ← birth World.quiet 2 .blank (.plain SYN 1000 0)
  let w ← w.onReceive World.quiet 2 (.plain ACK 1001 0) phantom 0
  let w ← w.close
  w.onReceive World.quiet 2 (.plain FIN 5 0) phantom 0

/-- **Blind segments move a connection**: it reaches `CLOSING` although no
segment acknowledged its SYN and no FIN was ever consumed. -/
theorem blind_segments : ∃ w, LifeRun World.quiet w ∧ w.conn.state = .CLOSING ∧
    (∀ metadata length, .received metadata length ∈ w.trace →
      metadata.tcpHeader.ackNbr ≠ 0xDEADBEEF + 1) ∧
    (∀ segment cursor, .consumed segment cursor ∈ w.trace → hasFlag segment.flags FIN = false) ∧
    ¬ InSequence w := by
  have hlife : blindSegments.map (fun w => (w.conn.state, w.trace.all fun
      | .received metadata _ => metadata.tcpHeader.ackNbr != 0xDEADBEEF + 1
      | .consumed segment _ => !hasFlag segment.flags FIN
      | _ => true, w.trace.any (· == .transition .FIN_WAIT_1 .CLOSING)))
      = .ok (.CLOSING, true, true) := by rfl
  obtain ⟨w, hw, hfacts⟩ := map_ok.mp hlife
  simp only [Prod.mk.injEq, all_eq_true, any_eq_true, beq_iff_eq] at hfacts
  obtain ⟨hstate, hall, a, hmem, rfl⟩ := hfacts
  have hack : ∀ metadata length, .received metadata length ∈ w.trace →
      metadata.tcpHeader.ackNbr ≠ 0xDEADBEEF + 1 := by
    intro metadata length hm
    simpa using hall _ hm
  have hfin : ∀ segment cursor, .consumed segment cursor ∈ w.trace →
      hasFlag segment.flags FIN = false := by
    intro segment cursor hm
    simpa using hall _ hm
  refine ⟨w, ?_, hstate, hack, hfin, ?_⟩
  · unfold blindSegments at hw
    obtain ⟨w0, h0, hw⟩ := bind_ok.mp hw
    obtain ⟨w1, h1, hw⟩ := bind_ok.mp hw
    obtain ⟨w2, h2, h3⟩ := bind_ok.mp hw
    have r0 : LifeRun quiet w0 := Reach.init (birth_born quiet (by decide) h0)
    exact ((r0.step ⟨2, .received _ _ _, h1⟩).step ⟨2, .closed, h2⟩).step ⟨2, .received _ _ _, h3⟩
  · intro h
    obtain ⟨before, segment, after, htrace, hf, _⟩ := h.closing hmem
    have hmem' : .consumed segment segment.seqnbr ∈ w.trace := by
      rw [htrace]
      simp
    exact absurd (hfin _ _ hmem') (by simp [hf])

end Peos2.Tcp
