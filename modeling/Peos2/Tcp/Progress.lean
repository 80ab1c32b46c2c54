/-
  Tcp.Progress — when `connection::on_receive` returns.

  `on_receive` passes a segment through the receive queue, the send queue, the state
  machine, the application and the transmit loop, each with assertions of its own. `Sound`
  and a guard on each event say when none of them fails; what then remains is the
  acknowledgment number: `on_receive` treats it well exactly when it fits.

  Main results: an admitted segment passes (`onReceive_total`), and with an acknowledgment it
  is received well, down to IPv4, exactly if the number fits (`receives_iff`); a listening
  connection fails on any (`ack_of_nothing`).
-/
import Peos2.Tcp.Acknowledge
import Peos2.Tcp.Intake
import Peos2.Tcp.Lifecycle
import Peos2.Tcp.Transmit

namespace Peos2.Tcp

open Peos2.Lib Peos2.Support Pool ReceiveQueue ConnectionTable
open Peos2.Ipv4 (Sender)
open Peos2.Arp (HwAddr)

/-! ## Send queues below the border -/

namespace SendQueue

/-- A write never fails while the window stays below the border. -/
theorem Sound.writeBack {q : SendQueue} (h : q.Sound) (hroomy : q.ackPos.toNat + 65535 < 4294967296)
    (flags : UInt16) (data : Bytes) {length sendLength : UInt32}
    (hshort : sendLength.toNat ≤ length.toNat) :
    ∃ r q', q.writeBack ⟨flags, q.writePos, 0, 0⟩ (some data) length sendLength = .ok (r, q') ∧
      q'.Sound ∧ q'.ackPos = q.ackPos ∧
      ∀ s ∈ q'.queued, s ∈ q.queued ∨ (s.flags = flags ∧ s.dataLength = length) := by
  obtain ⟨hrefuse, haccept⟩ :=
    writeBack_spec h.laid.wf ⟨flags, q.writePos, 0, 0⟩ data length sendLength
  by_cases hroom : q.bytes.length + length.toNat ≤ 65535
  · obtain ⟨q', hcall, _, _, hqueued, hwrite, hack, _⟩ := haccept hroom rfl
    have hcov := h.laid.covered
    have hord := h.ordered
    refine ⟨_, q', hcall, ⟨h.laid.writeBack hshort hcall, ?_⟩, hack, ?_⟩
    · have hsum : (q.writePos + length).toNat = q.writePos.toNat + length.toNat := by
        rw [toNat_add_eq]
        omega
      unfold span
      rw [hwrite, hack, serialDist_eq]
      omega
    · intro s hs
      rw [hqueued] at hs
      split at hs
      · rcases List.mem_append.mp hs with hs | hs
        · exact .inl hs
        · rw [List.mem_singleton] at hs
          subst hs
          exact .inr ⟨rfl, rfl⟩
      · exact .inl hs
  · exact ⟨false, q, hrefuse (.inl (by omega)), h, rfl, fun s hs => .inl hs⟩

theorem Sound.read {q q' : SendQueue} (h : q.Sound) (hreadable : q.hasReadable = true)
    {length : UInt32} {r : Option (SendSegment × List UInt8)}
    (hcall : q.readOneSegment length = .ok (r, q')) :
    q'.Sound ∧ q'.queued = q.queued ∧ q'.ackPos = q.ackPos := by
  have hlt := (hasReadable_iff h.laid.wf).mp hreadable
  have hact := List.getElem?_eq_getElem hlt
  cases r with
  | none =>
    obtain ⟨_, rfl⟩ := readOneSegment_none h.laid.wf hact hcall
    exact ⟨h, rfl, rfl⟩
  | some p =>
    obtain ⟨_, _, _, rfl⟩ := readOneSegment_some h.laid.wf hact hcall
    exact ⟨⟨h.laid.read hlt, h.ordered⟩, rfl, rfl⟩

theorem Sound.ack_below {q q' : SendQueue} (h : q.Sound) {n : SequenceNumber}
    (hcall : q.ack n = .ok q') :
    q'.ackPos.toNat ≤ q.writePos.toNat ∧ ∀ s ∈ q'.queued, s ∈ q.queued := by
  obtain ⟨hb, hsuffix, _⟩ := pops_boundary h (ackFrom_pops _ h.laid.wf hcall).1
  have hbelow := hb.below
  exact ⟨hbelow, fun s hs => hsuffix.subset hs⟩

end SendQueue

/-! ## The invariant -/

/-- The pools of a connection table are well formed. -/
structure ConnectionTable.Sound (t : ConnectionTable) : Prop where
  connections : t.connections.WF
  newConnections : t.newConnections.WF
  finishedConnections : t.finishedConnections.WF

namespace World

/-- A connection on which only an acknowledgment can go wrong. -/
structure Sound (w : World) : Prop where
  rx : w.conn.rxQueue.Sound
  tx : w.conn.txQueue.Sound
  sendable : ∀ s ∈ w.conn.txQueue.queued, Sendable s
  table : w.table.Sound

structure Working (w : World) : Prop where
  sound : Sound w
  roomy : w.conn.txQueue.ackPos.toNat + 65535 < 4294967296

/-- Room for every record that might turn out to be the last FIN. -/
def FinishRoom (w : World) : Prop :=
  w.conn.state = .FIN_WAIT_2 →
    w.table.finishedConnections.size + w.conn.rxQueue.segments.size ≤ 10

/-- The application sends what fits into a packet. -/
def Modest (env : Environment) : Prop :=
  ∀ trace data bytes, AppCall.send bytes ∈ env.onReceive trace data → bytes.length + 20 < 1500

/-- A part of a call that leaves the receive queue and the table alone. -/
structure Calm (w w' : World) : Prop where
  working : Working w'
  rx : w'.conn.rxQueue = w.conn.rxQueue
  table : w'.table = w.table
  state : w'.conn.state = .FIN_WAIT_2 → w.conn.state = .FIN_WAIT_2
  ackPos : w'.conn.txQueue.ackPos = w.conn.txQueue.ackPos

variable {w w' : World} {length : UInt32} {metadata : SegmentMetadata} {t : ConnectionTable}

theorem Calm.trans {w1 : World} (h : Calm w w1) (h1 : Calm w1 w') : Calm w w' :=
  ⟨h1.working, h1.rx.trans h.rx, h1.table.trans h.table, fun hs => h.state (h1.state hs),
    h1.ackPos.trans h.ackPos⟩

theorem Calm.refl (h : Working w) : Calm w w :=
  ⟨h, rfl, rfl, id, rfl⟩

/-! ## The application -/

theorem Working.frame (h : Working w) (hrx : w'.conn.rxQueue = w.conn.rxQueue)
    (htx : w'.conn.txQueue = w.conn.txQueue) (htable : w'.table = w.table) : Working w' where
  sound :=
    { rx := hrx ▸ h.sound.rx
      tx := htx ▸ h.sound.tx
      sendable := htx ▸ h.sound.sendable
      table := htable ▸ h.sound.table }
  roomy := htx ▸ h.roomy

theorem transmit_total (h : Working w) {flags : UInt16} (data : Bytes) {sendLength : UInt32}
    (hshort : sendLength.toNat ≤ length.toNat)
    (hsend : bare flags length.toNat = true ∨ length.toNat + 20 < 1500) :
    ∃ w', w.transmit flags data length sendLength = .ok w' ∧ Calm w w' ∧
      w'.conn.state = w.conn.state := by
  obtain ⟨r, q, hcall, hsound, hack, hqueued⟩ := h.sound.tx.writeBack h.roomy flags data hshort
  refine ⟨(w.withTx q).log (.transmit w.conn.state flags), ?_,
    ⟨⟨⟨h.sound.rx, hsound, ?_, h.sound.table⟩, ?_⟩, rfl, rfl, id, hack⟩, rfl⟩
  · rw [transmit, hcall, ok_bind]
  · intro s hs
    rcases hqueued s hs with hold | ⟨hf, hl⟩
    · exact h.sound.sendable s hold
    · unfold Sendable
      rw [hf, hl]
      exact hsend
  · show q.ackPos.toNat + 65535 < 4294967296
    rw [hack]
    exact h.roomy

theorem phantom_total (h : Working w) {flags : UInt16} (hbare : bare flags 1 = true) :
    ∃ w', w.transmit flags phantom 1 0 = .ok w' ∧ Calm w w' ∧ w'.conn.state = w.conn.state :=
  transmit_total h phantom (by decide) (.inl hbare)

theorem leave_total (h : Working w) {newState : ConnectionState} (hnew : newState ≠ .FIN_WAIT_2) :
    ∃ w1, w.transmit FIN phantom 1 0 = .ok w1 ∧ Calm w (w1.transition newState) := by
  obtain ⟨w1, hcall, hcalm, _⟩ := phantom_total h (show bare FIN 1 = true by decide)
  refine ⟨w1, hcall, hcalm.trans ⟨?_, rfl, rfl, ?_, rfl⟩⟩
  · exact hcalm.working.frame rfl rfl rfl
  · intro hs
    exact absurd hs hnew

theorem close_total (h : Working w) : ∃ w', w.close = .ok w' ∧ Calm w w' := by
  unfold close activeClose
  split
  · obtain ⟨w1, hcall, hcalm⟩ := leave_total h (show ConnectionState.FIN_WAIT_1 ≠ .FIN_WAIT_2 by decide)
    refine ⟨w1.transition .FIN_WAIT_1, ?_, hcalm⟩
    rw [transmitPhantom, hcall, ok_bind]
  · exact ⟨w, rfl, Calm.refl h⟩

theorem sendData_total (h : Working w) {data : List UInt8} (hdata : data.length + 20 < 1500) :
    ∃ w', w.sendData data = .ok w' ∧ Calm w w' := by
  have hlen : (UInt32.ofNat data.length).toNat = data.length := toNat_ofNat_lt (by omega)
  obtain ⟨w', hcall, hcalm, _⟩ := transmit_total h (Bytes.ofList data)
    (Nat.le_refl (UInt32.ofNat data.length).toNat) (.inr (by rw [hlen]; exact hdata))
  exact ⟨w', hcall, hcalm⟩

theorem appCalls_total (calls : List AppCall) : ∀ {w : World}, Working w →
    (∀ bytes, AppCall.send bytes ∈ calls → bytes.length + 20 < 1500) →
    ∃ w', appCalls calls w = .ok w' ∧ Calm w w' := by
  induction calls with
  | nil =>
    intro w h _
    exact ⟨w, rfl, Calm.refl h⟩
  | cons c cs ih =>
    intro w h hmodest
    have hc : ∃ w1, w.appCall c = .ok w1 ∧ Calm w w1 := by
      cases c with
      | send data => exact sendData_total h (hmodest data (by simp))
      | close => exact close_total h
    obtain ⟨w1, hcall, hcalm⟩ := hc
    obtain ⟨w', hrest, hcalm'⟩ := ih hcalm.working
      (fun bytes hb => hmodest bytes (List.mem_cons_of_mem _ hb))
    exact ⟨w', by rw [appCalls, hcall, ok_bind, hrest], hcalm.trans hcalm'⟩

/-! ## The loops of `step` -/

theorem finish_total {w : World} (h : w.table.Sound)
    (hroom : w.table.finishedConnections.size < 10) :
    ∃ table, w.markForDestruction = .ok ({ w with table }.log (.finish w.conn.state)) ∧
      table.Sound ∧ table.finishedConnections.size ≤ w.table.finishedConnections.size + 1 := by
  have hfull : w.table.finishedConnections.full = false := by
    unfold size at hroom
    rw [full, decide_eq_false_iff_not]
    omega
  obtain ⟨i, p, hput, hwf, _⟩ := emplaceAnywhere_spec h.finishedConnections hfull w.conn.handle
  refine ⟨{ w.table with finishedConnections := p }, ?_, ⟨h.connections, h.newConnections, hwf⟩,
    Nat.le_of_eq (h.finishedConnections.size_emplaceAnywhere hput)⟩
  rw [markForDestruction, finishConnection, hput]
  rfl

variable {env : Environment}

theorem sequencedRecv_total (happ : Modest env) (h : Working w)
    (hroom : w.conn.state = .FIN_WAIT_2 → w.table.finishedConnections.size < 10)
    (segment : RecvSegment) (data : List UInt8) :
    ∃ w', w.sequencedRecv env segment data = .ok w' ∧ Working w' ∧
      w'.conn.rxQueue = w.conn.rxQueue ∧
      (w'.conn.state = .FIN_WAIT_2 → w.conn.state = .FIN_WAIT_2) ∧
      w'.table.finishedConnections.size ≤ w.table.finishedConnections.size + 1 ∧
      w'.conn.txQueue.ackPos = w.conn.txQueue.ackPos := by
  have hcalm : ∀ {w'}, Calm w w' → Working w' ∧ w'.conn.rxQueue = w.conn.rxQueue ∧
      (w'.conn.state = .FIN_WAIT_2 → w.conn.state = .FIN_WAIT_2) ∧
      w'.table.finishedConnections.size ≤ w.table.finishedConnections.size + 1 ∧
      w'.conn.txQueue.ackPos = w.conn.txQueue.ackPos :=
    fun hc => ⟨hc.working, hc.rx, hc.state, by rw [hc.table]; omega, hc.ackPos⟩
  unfold sequencedRecv
  split
  · -- SYN_RCVD
    split
    · obtain ⟨w', hcall, hc, _⟩ := phantom_total h (show bare SYN 1 = true by decide)
      exact ⟨w', hcall, hcalm hc⟩
    · exact ⟨w, rfl, hcalm (Calm.refl h)⟩
  · -- ESTABLISHED
    split
    · obtain ⟨w1, hcall, hc⟩ := leave_total h
        (show ConnectionState.LAST_ACK ≠ .FIN_WAIT_2 by decide)
      exact ⟨_, by rw [hcall, ok_bind], hcalm hc⟩
    unfold onFullReceive
    split
    · obtain ⟨w', hcall, hc⟩ := @appCalls_total (env.onReceive w.trace data)
        (w.log (.callback w.conn.state data)) (h.frame rfl rfl rfl) (happ w.trace data)
      exact ⟨w', hcall, hcalm ⟨hc.working, hc.rx, hc.table, hc.state, hc.ackPos⟩⟩
    · exact ⟨w, rfl, hcalm (Calm.refl h)⟩
  next hstate =>
    -- FIN_WAIT_2
    split
    · obtain ⟨table, hcall, hsound, hsize⟩ := finish_total h.sound.table (hroom hstate)
      exact ⟨_, hcall, ⟨⟨h.sound.rx, h.sound.tx, h.sound.sendable, hsound⟩, h.roomy⟩, rfl,
        id, hsize, rfl⟩
    · exact ⟨w, rfl, hcalm (Calm.refl h)⟩
  all_goals exact ⟨w, rfl, hcalm (Calm.refl h)⟩

/-- The receive loop returns. Every turn takes a record off the queue and
finishes at most one connection. -/
theorem receiveLoop_total (happ : Modest env) (fuel : Nat) :
    ∀ {w : World}, Working w → FinishRoom w → w.conn.rxQueue.segments.size < fuel →
    ∃ w', receiveLoop env fuel w = .ok w' ∧ Working w' ∧
      w'.conn.txQueue.ackPos = w.conn.txQueue.ackPos := by
  induction fuel with
  | zero =>
    intro w _ _ hlt
    omega
  | succ fuel ih =>
    intro w h hroom hlt
    obtain ⟨readable, hreadable⟩ := h.sound.rx.hasReadable
    cases readable with
    | false => exact ⟨w, by rw [receiveLoop, hreadable, ok_bind]; rfl, h, rfl⟩
    | true =>
      obtain ⟨segment, data, q, hread, hq, _⟩ :=
        h.sound.rx.read hreadable (show 20480 ≤ stepBufferSize.toNat by decide)
      have h1 : Working ((w.withRx q).log (.consumed segment w.conn.rxQueue.readCursor)) :=
        ⟨⟨hq, h.sound.tx, h.sound.sendable, h.sound.table⟩, h.roomy⟩
      obtain ⟨w1, hseq, hw1, hrx, hstate, hfin, hack⟩ := sequencedRecv_total happ h1 (fun hs => by
          have : w.table.finishedConnections.size + w.conn.rxQueue.segments.size ≤ 10 := hroom hs
          show w.table.finishedConnections.size < 10
          omega) segment data
      have hrx1 : w1.conn.rxQueue.segments.size = q.segments.size := by rw [hrx]; rfl
      have hroom1 : FinishRoom w1 := by
        intro hs
        have h2 : w.table.finishedConnections.size + w.conn.rxQueue.segments.size ≤ 10 :=
          hroom (hstate hs)
        have h3 : w1.table.finishedConnections.size ≤ w.table.finishedConnections.size + 1 := hfin
        omega
      obtain ⟨w', hloop, hw', hack'⟩ := ih hw1 hroom1 (by omega)
      refine ⟨w', ?_, hw', hack'.trans hack⟩
      rw [receiveLoop, hreadable, ok_bind, if_pos rfl, hread, ok_bind]
      simp only
      rw [hseq, ok_bind, hloop]

theorem Emits.working (h : Emits env w w') (hw : Working w) :
    Working w' ∧ w'.conn.txQueue.ackPos = w.conn.txQueue.ackPos := by
  induction h with
  | refl => exact ⟨hw, rfl⟩
  | tail _ hemit ih =>
    obtain ⟨ih, hpos⟩ := ih
    cases hemit with
    | fetched readable call =>
      obtain ⟨hsound, hqueued, hack⟩ := ih.sound.tx.read readable call
      refine ⟨⟨⟨ih.sound.rx, hsound, ?_, ih.sound.table⟩, ?_⟩, hack.trans hpos⟩
      · intro s hs
        exact ih.sound.sendable s (hqueued ▸ hs)
      · have hroomy := ih.roomy
        rw [← hack] at hroomy
        exact hroomy
    | sent => exact ⟨ih.frame rfl rfl rfl, hpos⟩

theorem Working.clear (h : Working w) : Clear w.conn.txQueue where
  sendable := fun s hs => h.sound.sendable s (List.mem_of_mem_drop hs)
  first := by
    intro s rest _ hcaught
    have := hcaught.2
    have := h.roomy
    omega

theorem transmitLoop_total (env : Environment) (h : Working w) :
    ∃ fuel w', transmitLoop env fuel w = .ok w' ∧ Working w' ∧
      w'.conn.txQueue.ackPos = w.conn.txQueue.ackPos := by
  obtain ⟨w', _, hloop, _⟩ :=
    transmitLoop_sends env w.conn.txQueue.unread h.sound.tx.laid rfl h.clear
  exact ⟨_, w', hloop, Emits.working (transmitLoop_emits env _ hloop) h⟩

theorem step_total (happ : Modest env) (h : Working w) (hroom : FinishRoom w) :
    ∃ fuel w', w.step env fuel = .ok w' ∧ Working w' ∧
      w'.conn.txQueue.ackPos = w.conn.txQueue.ackPos := by
  obtain ⟨readable, hreadable⟩ := h.sound.rx.hasReadable
  obtain ⟨w1, hloop, h1, hack⟩ :=
    receiveLoop_total happ (w.conn.rxQueue.segments.size + 1) h hroom (Nat.lt_succ_self _)
  by_cases hidle : (readable && !w1.conn.txQueue.hasReadable) = true
  · -- nothing else will carry the ack
    have h2 : Working (w1.sent env 0 w1.conn.nextOutgoingSeqnbr []) := h1.frame rfl rfl rfl
    obtain ⟨fuel, w', htransmit, hw', hack'⟩ := transmitLoop_total env h2
    refine ⟨fuel, w', ?_, hw', hack'.trans hack⟩
    rw [step, hreadable, ok_bind, hloop, ok_bind]
    simp only [hidle, if_true, send_nil, ok_bind]
    exact htransmit
  · obtain ⟨fuel, w', htransmit, hw', hack'⟩ := transmitLoop_total env h1
    refine ⟨fuel, w', ?_, hw', hack'.trans hack⟩
    rw [step, hreadable, ok_bind, hloop, ok_bind]
    simp only [if_neg hidle, ok_bind]
    exact htransmit

/-! ## `on_receive` -/

/-- Room in the table for what a segment can finish. -/
structure EndRoom (w : World) : Prop where
  acked : w.conn.state = .LAST_ACK ∨ w.conn.state = .CLOSING →
    w.table.finishedConnections.size < 10
  waiting : w.conn.state = .FIN_WAIT_1 ∨ w.conn.state = .FIN_WAIT_2 →
    w.table.finishedConnections.size + w.conn.rxQueue.segments.size ≤ 10

theorem EndRoom.finishRoom (h : EndRoom w) : FinishRoom w :=
  fun hs => h.waiting (.inr hs)

theorem handleAck_total (h : Sound w) (hroom : EndRoom w)
    (hbelow : w.conn.txQueue.writePos.toNat + 65535 < 4294967296)
    (hack : hasFlag metadata.flags ACK = true →
      ∃ q, w.conn.txQueue.ack metadata.tcpHeader.ackNbr = .ok q) :
    ∃ w', w.handleAck metadata = .ok w' ∧ Working w' ∧ FinishRoom w' ∧
      (hasFlag metadata.flags ACK = true →
        ∀ q, w.conn.txQueue.ack metadata.tcpHeader.ackNbr = .ok q →
          w'.conn.txQueue.ackPos = q.ackPos) := by
  unfold handleAck
  split
  next hflag =>
    obtain ⟨q, hcall⟩ := hack hflag
    have hpos : ∀ {w' : World}, w'.conn.txQueue = q → hasFlag metadata.flags ACK = true →
        ∀ q', (.ok q : Checked SendQueue) = .ok q' → w'.conn.txQueue.ackPos = q'.ackPos := by
      intro w' htx _ q' hq
      cases hq
      rw [htx]
    obtain ⟨_, hmem⟩ := h.tx.ack_below hcall
    have h1 : Working (w.withTx q) :=
      ⟨⟨h.rx, h.tx.ack hcall, fun s hs => h.sendable s (hmem s hs), h.table⟩,
        show q.ackPos.toNat + 65535 < 4294967296 by omega⟩
    have hfinish : FinishRoom (w.withTx q) := hroom.finishRoom
    rw [hcall, ok_bind]
    simp only
    split
    · unfold remoteConsumedAll
      split
      next hstate =>
        obtain ⟨table, hfin, hsound, _⟩ :=
          @finish_total (w.withTx q) h.table (hroom.acked (.inl hstate))
        refine ⟨_, hfin, ⟨⟨h.rx, h1.sound.tx, h1.sound.sendable, hsound⟩, h1.roomy⟩, ?_, hpos rfl⟩
        intro hs
        exact absurd (hstate.symm.trans hs) (by decide)
      next hstate =>
        obtain ⟨table, hfin, hsound, _⟩ :=
          @finish_total (w.withTx q) h.table (hroom.acked (.inr hstate))
        refine ⟨_, hfin, ⟨⟨h.rx, h1.sound.tx, h1.sound.sendable, hsound⟩, h1.roomy⟩, ?_, hpos rfl⟩
        intro hs
        exact absurd (hstate.symm.trans hs) (by decide)
      next hstate =>
        exact ⟨_, rfl, h1.frame rfl rfl rfl, fun _ => hroom.waiting (.inl hstate), hpos rfl⟩
      all_goals exact ⟨_, rfl, h1, hfinish, hpos rfl⟩
    · exact ⟨_, rfl, h1, hfinish, hpos rfl⟩
  next hflag =>
    refine ⟨w, rfl, ⟨h, ?_⟩, hroom.finishRoom, fun hf => absurd hf hflag⟩
    have := h.tx.ack_le_write
    omega

theorem createConnection_total (h : t.Sound) (hroom : t.connections.full = false)
    (hnew : t.newConnections.full = false) (remote localEnd : Endpoint) (state : ConnectionState) :
    ∃ connIdx t', t.createConnection remote localEnd state = .ok (connIdx, t') ∧ t'.Sound ∧
      t'.connections.lookup connIdx = some
        { Connection.new remote localEnd state with handle := connIdx, callback := t.callback } := by
  obtain ⟨i, p1, hput, hwf1, _, hl1⟩ :=
    emplaceAnywhere_spec h.connections hroom (Connection.new remote localEnd state)
  have hi1 : p1.lookup i = some (Connection.new remote localEnd state) := by rw [hl1, if_pos rfl]
  obtain ⟨p2, hset, hwf2, hl2⟩ := set_spec hwf1 hi1
    { Connection.new remote localEnd state with handle := i, callback := t.callback }
  obtain ⟨j, n, hnewput, hwfn, _⟩ := emplaceAnywhere_spec h.newConnections hnew i
  refine ⟨i, { t with connections := p2, newConnections := n }, ?_,
    ⟨hwf2, hwfn, h.finishedConnections⟩, ?_⟩
  · rw [createConnection, hput, ok_bind]
    simp only [get_spec hi1, ok_bind, hset, hnewput]
  · show p2.lookup i = _
    rw [hl2, if_pos rfl]

theorem insert_syn (q : ReceiveQueue) (seqNbr : SequenceNumber) (flags : UInt16) :
    ∃ q', (q.reset seqNbr).insert ⟨flags, seqNbr, 0⟩ phantom 1 = .ok (true, q') := by
  have hdist : serialDist seqNbr (q.reset seqNbr).readCursor = 0 := serialDist_self seqNbr
  obtain ⟨i, q', hins, _⟩ := @insert_window (q.reset seqNbr)
    (reset_wf q seqNbr) ⟨flags, seqNbr, 0⟩ phantom 1 (by rfl)
    (behindCursor_of_serialDist _ (by
      show serialDist seqNbr (q.reset seqNbr).readCursor < 65535
      omega))
    (by
      show serialDist seqNbr (q.reset seqNbr).readCursor + (1 : UInt32).toNat ≤ 65535
      rw [hdist]
      decide)
  exact ⟨q', hins⟩

theorem sequence_syn {q : ReceiveQueue} {r : Bool}
    (hins : (ReceiveQueue.blank.reset metadata.tcpHeader.seqNbr).insert
      ⟨metadata.flags, metadata.tcpHeader.seqNbr, 0⟩ phantom 1 = .ok (r, q)) (callback : Bool)
    (handle : Nat) :
    Connection.sequence (Connection.resetTx (Connection.resetRx
      { Connection.new ⟨metadata.datagram.srcAddr, metadata.tcpHeader.srcPort⟩
          ⟨metadata.datagram.destAddr, metadata.tcpHeader.destPort⟩ .SYN_RCVD with
        handle, callback } metadata.tcpHeader.seqNbr) 0xDEADBEEF) metadata phantom 1
      = .ok (.accepted metadata callback handle q) :=
  bind_ok.mpr ⟨(r, q), hins, rfl⟩

theorem acceptSyn_eq {t1 : ConnectionTable} {i : Nat} {created client : Connection}
    {p : Pool Connection 40 0xFFFF}
    (hcreate : t.createConnection ⟨metadata.datagram.srcAddr, metadata.tcpHeader.srcPort⟩
      ⟨metadata.datagram.destAddr, metadata.tcpHeader.destPort⟩ .SYN_RCVD = .ok (i, t1))
    (hlook : t1.connections.lookup i = some created)
    (hseq : ((created.resetRx metadata.tcpHeader.seqNbr).resetTx 0xDEADBEEF).sequence metadata
      phantom 1 = .ok client) (hset : t1.connections.set i client = .ok p) :
    acceptSyn t metadata = .ok (i, { t1 with connections := p }) := by
  unfold acceptSyn
  rw [hcreate, ok_bind]
  show (t1.connections.get i >>= _) = _
  rw [get_spec hlook, ok_bind]
  show (Connection.sequence _ _ _ _ >>= _) = _
  rw [hseq, ok_bind, hset, ok_bind]

theorem acceptSyn_total (h : t.Sound) (hroom : t.connections.full = false)
    (hnew : t.newConnections.full = false) (metadata : SegmentMetadata) :
    ∃ connIdx t' client, acceptSyn t metadata = .ok (connIdx, t') ∧ t'.Sound ∧
      t'.connections.get connIdx = .ok client := by
  obtain ⟨i, t1, hcreate, hsound, hlook⟩ := createConnection_total h hroom hnew
    ⟨metadata.datagram.srcAddr, metadata.tcpHeader.srcPort⟩
    ⟨metadata.datagram.destAddr, metadata.tcpHeader.destPort⟩ .SYN_RCVD
  obtain ⟨q, hins⟩ := insert_syn blank metadata.tcpHeader.seqNbr metadata.flags
  obtain ⟨p, hset, hwf, hl⟩ := set_spec hsound.connections hlook (.accepted metadata t.callback i q)
  exact ⟨i, { t1 with connections := p }, .accepted metadata t.callback i q,
    acceptSyn_eq hcreate hlook (sequence_syn hins t.callback i) hset,
    ⟨hwf, hsound.newConnections, hsound.finishedConnections⟩,
    get_spec (by rw [hl, if_pos rfl])⟩

/-- The send window stays below the border whatever is acknowledged. -/
def Below (w : World) : Prop := w.conn.txQueue.writePos.toNat + 65535 < 4294967296

/-- A segment that only its acknowledgment number can keep from passing: the numbers stay below
the border, the payload fits the buffer of `step`, and the pools have room for what it can
create or finish. -/
structure Admits (w : World) (metadata : SegmentMetadata) (length : UInt32) : Prop where
  below : Below w
  inside : ReceiveQueue.Inside metadata.tcpHeader.seqNbr length
  listening : w.conn.state = .LISTEN → hasFlag metadata.flags SYN = true →
    w.table.connections.full = false ∧ w.table.newConnections.full = false
  acked : w.conn.state = .LAST_ACK ∨ w.conn.state = .CLOSING →
    w.table.finishedConnections.size < 10
  waiting : w.conn.state = .FIN_WAIT_1 ∨ w.conn.state = .FIN_WAIT_2 →
    w.table.finishedConnections.size + w.conn.rxQueue.segments.size < 10

theorem sequence_total (h : Sound w) (data : Bytes)
    (hin : ReceiveQueue.Inside metadata.tcpHeader.seqNbr length) :
    ∃ q, w.sequence metadata data length = .ok (w.withRx q) ∧ q.Sound ∧
      q.segments.size ≤ w.conn.rxQueue.segments.size + 1 := by
  obtain ⟨r, q, hins, hq⟩ := @ReceiveQueue.Sound.insert w.conn.rxQueue h.rx
    ⟨metadata.flags, metadata.tcpHeader.seqNbr, 0⟩ data length hin
  refine ⟨q, ?_, hq, insert_size h.rx.wf.segments hins⟩
  rw [sequence, Connection.sequence, hins]
  rfl

theorem inside_phantom {seqNbr : SequenceNumber} (h : ReceiveQueue.Inside seqNbr length) :
    ReceiveQueue.Inside seqNbr 1 :=
  ⟨h.below, h.below, by decide⟩

theorem earlyRecv_total (h : Sound w) (data : Bytes) (hguard : Admits w metadata length) :
    ∃ w1, (w.log (.received metadata length)).earlyRecv metadata data length = .ok w1 ∧
      Sound w1 ∧ EndRoom w1 ∧ w1.conn.txQueue = w.conn.txQueue := by
  have hlog : Sound (w.log (.received metadata length)) := ⟨h.rx, h.tx, h.sendable, h.table⟩
  have hend : EndRoom (w.log (.received metadata length)) :=
    ⟨hguard.acked, fun hs => Nat.le_of_lt (hguard.waiting hs)⟩
  unfold earlyRecv
  split
  next hstate =>
    -- LISTEN
    split
    next hsyn =>
      obtain ⟨hroom, hnew⟩ := hguard.listening hstate hsyn
      obtain ⟨i, table, client, haccept, htable, _⟩ := acceptSyn_total h.table hroom hnew metadata
      refine ⟨{ w.log (.received metadata length) with table },
        bind_ok.mpr ⟨(i, table), haccept, rfl⟩, ⟨h.rx, h.tx, h.sendable, htable⟩,
        ⟨?_, ?_⟩, rfl⟩
      · rintro (hs | hs)
        · exact absurd (hstate.symm.trans hs) (by decide)
        · exact absurd (hstate.symm.trans hs) (by decide)
      · rintro (hs | hs)
        · exact absurd (hstate.symm.trans hs) (by decide)
        · exact absurd (hstate.symm.trans hs) (by decide)
    · exact ⟨_, rfl, hlog, hend, rfl⟩
  · -- SYN_RCVD
    split
    · refine ⟨_, rfl, ⟨h.rx, h.tx, h.sendable, h.table⟩, ⟨?_, ?_⟩, rfl⟩
      · rintro (hs | hs) <;> exact absurd hs (by simp [transition, withState, log])
      · rintro (hs | hs) <;> exact absurd hs (by simp [transition, withState, log])
    · exact ⟨_, rfl, hlog, hend, rfl⟩
  next hstate =>
    -- ESTABLISHED: nothing can be finished from here
    have hno : ∀ q, EndRoom ((w.log (.received metadata length)).withRx q) := by
      intro q
      refine ⟨?_, ?_⟩
      · rintro (hs | hs) <;> exact absurd (hstate.symm.trans hs) (by decide)
      · rintro (hs | hs) <;> exact absurd (hstate.symm.trans hs) (by decide)
    split
    · obtain ⟨q, hcall, hq, _⟩ := sequence_total hlog phantom (inside_phantom hguard.inside)
      exact ⟨_, hcall, ⟨hq, h.tx, h.sendable, h.table⟩, hno q, rfl⟩
    · obtain ⟨q, hcall, hq, _⟩ := sequence_total hlog data hguard.inside
      exact ⟨_, hcall, ⟨hq, h.tx, h.sendable, h.table⟩, hno q, rfl⟩
  next hstate =>
    -- FIN_WAIT_1
    split
    · obtain ⟨q, hcall, hq, _⟩ := sequence_total hlog phantom (inside_phantom hguard.inside)
      refine ⟨((w.log (.received metadata length)).withRx q).transition .CLOSING,
        bind_ok.mpr ⟨_, hcall, rfl⟩, ⟨hq, h.tx, h.sendable, h.table⟩, ⟨?_, ?_⟩, rfl⟩
      · intro _
        have := hguard.waiting (.inl hstate)
        show w.table.finishedConnections.size < 10
        omega
      · rintro (hs | hs) <;> exact absurd hs (by simp [transition, withState, log])
    · exact ⟨_, rfl, hlog, hend, rfl⟩
  next hstate =>
    -- FIN_WAIT_2
    split
    · obtain ⟨q, hcall, hq, hsize⟩ := sequence_total hlog phantom (inside_phantom hguard.inside)
      refine ⟨_, hcall, ⟨hq, h.tx, h.sendable, h.table⟩, ⟨?_, ?_⟩, rfl⟩
      · rintro (hs | hs) <;> exact absurd (hstate.symm.trans hs) (by decide)
      · intro _
        have h1 := hguard.waiting (.inr hstate)
        have h2 : q.segments.size ≤ w.conn.rxQueue.segments.size + 1 := hsize
        show w.table.finishedConnections.size + q.segments.size ≤ 10
        omega
    · exact ⟨_, rfl, hlog, hend, rfl⟩
  all_goals exact ⟨_, rfl, hlog, hend, rfl⟩

/-- A segment that is admitted and whose acknowledgment is taken passes. -/
theorem onReceive_total (happ : Modest env) (h : Sound w) (data : Bytes)
    (hguard : Admits w metadata length) (hack : hasFlag metadata.flags ACK = true →
      ∃ q, w.conn.txQueue.ack metadata.tcpHeader.ackNbr = .ok q) :
    ∃ fuel w', w.onReceive env fuel metadata data length = .ok w' ∧ Working w' ∧
      (hasFlag metadata.flags ACK = true →
        ∀ q, w.conn.txQueue.ack metadata.tcpHeader.ackNbr = .ok q →
          w'.conn.txQueue.ackPos = q.ackPos) := by
  obtain ⟨w1, hearly, h1, hroom, htx⟩ := earlyRecv_total h data hguard
  obtain ⟨w2, hhandled, h2, hfinish, hpos⟩ := handleAck_total h1 hroom
    (by rw [htx]; exact hguard.below) (by rw [htx]; exact hack)
  obtain ⟨fuel, w', hstep, hw', hpos'⟩ := step_total happ h2 hfinish
  refine ⟨fuel, w', ?_, hw', ?_⟩
  · exact bind_ok.mpr ⟨w1, hearly, bind_ok.mpr ⟨w2, hhandled, hstep⟩⟩
  · intro hflag q hq
    rw [← htx] at hq
    rw [hpos', hpos hflag q hq]

/-! ## The bound on the transmit loop does not matter -/

section Bound

variable (env : Environment)

theorem transmitLoop_succ (fuel : Nat) : ∀ {w w' : World}, transmitLoop env fuel w = .ok w' →
    transmitLoop env (fuel + 1) w = .ok w' := by
  induction fuel with
  | zero =>
    intro w w' h
    exact absurd h (by simp [transmitLoop])
  | succ fuel ih =>
    intro w w' h
    rw [transmitLoop] at h ⊢
    split at h
    next hreadable =>
      rw [if_pos hreadable]
      obtain ⟨⟨r, txQueue⟩, hread, h⟩ := bind_ok.mp h
      refine bind_ok.mpr ⟨(r, txQueue), hread, ?_⟩
      cases r with
      | some p =>
        simp only [bind_ok] at h ⊢
        obtain ⟨w1, hsend, h⟩ := h
        exact ⟨w1, hsend, ih h⟩
      | none =>
        simp only [bind_ok] at h ⊢
        obtain ⟨w1, hsend, h⟩ := h
        exact ⟨w1, hsend, ih h⟩
    next hreadable =>
      rw [if_neg hreadable]
      exact h

variable {fuel fuel' : Nat} {w w' : World}

theorem transmitLoop_mono (hle : fuel ≤ fuel') (h : transmitLoop env fuel w = .ok w') :
    transmitLoop env fuel' w = .ok w' := by
  induction hle with
  | refl => exact h
  | step _ ih => exact transmitLoop_succ env _ ih

theorem step_mono (hle : fuel ≤ fuel') (h : w.step env fuel = .ok w') :
    w.step env fuel' = .ok w' := by
  rw [step, bind_ok] at h ⊢
  obtain ⟨readable, hreadable, h⟩ := h
  refine ⟨readable, hreadable, ?_⟩
  rw [bind_ok] at h ⊢
  obtain ⟨w1, hloop, h⟩ := h
  refine ⟨w1, hloop, ?_⟩
  split at h
  next hidle =>
    rw [if_pos hidle]
    rw [bind_ok] at h ⊢
    obtain ⟨w2, hsend, h⟩ := h
    exact ⟨w2, hsend, transmitLoop_mono env hle h⟩
  next hidle =>
    rw [if_neg hidle]
    exact transmitLoop_mono env hle h

theorem onReceive_mono (hle : fuel ≤ fuel') {metadata : SegmentMetadata} {data : Bytes}
    {length : UInt32} (h : w.onReceive env fuel metadata data length = .ok w') :
    w.onReceive env fuel' metadata data length = .ok w' := by
  rw [onReceive, bind_ok] at h ⊢
  obtain ⟨w1, hearly, h⟩ := h
  refine ⟨w1, hearly, ?_⟩
  rw [bind_ok] at h ⊢
  obtain ⟨w2, hack, h⟩ := h
  exact ⟨w2, hack, step_mono env hle h⟩

theorem step_agree {w'' : World} (h : w.step env fuel = .ok w') (h' : w.step env fuel' = .ok w'') :
    w' = w'' := by
  have h1 := step_mono env (Nat.le_max_left fuel fuel') h
  have h2 := step_mono env (Nat.le_max_right fuel fuel') h'
  rw [h1] at h2
  exact Except.ok.inj h2

theorem onReceive_agree {w'' : World} {metadata : SegmentMetadata} {data : Bytes}
    {length : UInt32} (h : w.onReceive env fuel metadata data length = .ok w')
    (h' : w.onReceive env fuel' metadata data length = .ok w'') : w' = w'' := by
  have h1 := onReceive_mono env (Nat.le_max_left fuel fuel') h
  have h2 := onReceive_mono env (Nat.le_max_right fuel fuel') h'
  rw [h1] at h2
  exact Except.ok.inj h2

end Bound

/-! ## Guarded runs -/

/-- The events that are admitted. -/
def Guard (w : World) : Event → Prop
  | .received metadata _ length => Admits w metadata length
  | .stepped => Below w ∧ FinishRoom w
  | .closed => Below w
  | .sent data => Below w ∧ data.length + 20 < 1500
  | .elsewhere table => table.Sound

/-- A connection that listens, or one that was just created for a SYN. -/
inductive Opened : World → Prop
  | listening {table table' : ConnectionTable} {localEnd : Endpoint} {connIdx : Nat}
      {conn : Connection}
      (created : table.createConnection .wildcard localEnd .LISTEN = .ok (connIdx, table'))
      (get : table'.connections.get connIdx = .ok conn) (sound : table'.Sound) :
      Opened ⟨conn, table', []⟩
  | accepted {table table' : ConnectionTable} {metadata : SegmentMetadata} {connIdx : Nat}
      {client : Connection} (accept : acceptSyn table metadata = .ok (connIdx, table'))
      (get : table'.connections.get connIdx = .ok client) (sound : table'.Sound)
      (inside : ReceiveQueue.Inside metadata.tcpHeader.seqNbr 1) : Opened ⟨client, table', []⟩

def GuardedStep (env : Environment) (w w' : World) : Prop :=
  ∃ fuel event, Guard w event ∧ w.perform env fuel event = .ok w'

abbrev GuardedRun (env : Environment) : World → Prop := Reach Opened (GuardedStep env)

theorem sendable_reset (q : SendQueue) (isn : SequenceNumber) :
    ∀ s ∈ (q.reset isn).queued, Sendable s := by
  intro s hs
  simp at hs

theorem Opened.sound (h : Opened w) : Sound w := by
  cases h with
  | listening created get sound =>
    have hconn := createConnection_ok created get
    subst hconn
    exact ⟨reset_sound blank 0,
      SendQueue.reset_sound (Connection.new .wildcard .wildcard .LISTEN).txQueue 0,
      sendable_reset (Connection.new .wildcard .wildcard .LISTEN).txQueue 0, sound⟩
  | @accepted _ _ metadata _ _ accept get sound inside =>
    obtain ⟨r, rxQueue, hinsert, rfl⟩ := acceptSyn_ok accept get
    obtain ⟨r', q, hins, hq⟩ := @ReceiveQueue.Sound.insert
      (blank.reset metadata.tcpHeader.seqNbr) (reset_sound _ _)
      ⟨metadata.flags, metadata.tcpHeader.seqNbr, 0⟩ phantom 1 inside
    cases hinsert.symm.trans hins
    exact ⟨hq, SendQueue.reset_sound _ 0xDEADBEEF, sendable_reset _ 0xDEADBEEF, sound⟩

theorem ack_of_onReceive {fuel : Nat} (h : Sound w) {data : Bytes}
    (hguard : Admits w metadata length) (hcall : w.onReceive env fuel metadata data length = .ok w')
    (hflag : hasFlag metadata.flags ACK = true) :
    ∃ q, w.conn.txQueue.ack metadata.tcpHeader.ackNbr = .ok q := by
  obtain ⟨w1, hearly, _, _, htx⟩ := earlyRecv_total h data hguard
  rw [onReceive, bind_ok] at hcall
  obtain ⟨w1', hearly', hcall⟩ := hcall
  cases hearly'.symm.trans hearly
  obtain ⟨w2, hack, _⟩ := bind_ok.mp hcall
  rw [handleAck, if_pos hflag, bind_ok, htx] at hack
  obtain ⟨q, hq, _⟩ := hack
  exact ⟨q, hq⟩

theorem Below.working (hb : Below w) (h : Sound w) : Working w := by
  refine ⟨h, ?_⟩
  have := h.tx.ack_le_write
  unfold Below at hb
  omega

theorem Sound.perform (happ : Modest env) {fuel : Nat} {event : Event} (h : Sound w)
    (hguard : Guard w event) (hcall : w.perform env fuel event = .ok w') : Sound w' := by
  cases event with
  | received metadata data length =>
    obtain ⟨fuel', w'', hcall', hw, _⟩ :=
      onReceive_total happ h data hguard (ack_of_onReceive h hguard hcall)
    rw [onReceive_agree env hcall hcall']
    exact hw.sound
  | stepped =>
    obtain ⟨fuel', w'', hcall', hw, _⟩ := step_total happ (hguard.1.working h) hguard.2
    rw [step_agree env hcall hcall']
    exact hw.sound
  | closed =>
    obtain ⟨w'', hcall', hcalm⟩ := close_total (Below.working hguard h)
    cases hcall'.symm.trans hcall
    exact hcalm.working.sound
  | sent data =>
    obtain ⟨w'', hcall', hcalm⟩ := sendData_total (hguard.1.working h) hguard.2
    cases hcall'.symm.trans hcall
    exact hcalm.working.sound
  | elsewhere table =>
    cases hcall
    exact ⟨h.rx, h.tx, h.sendable, hguard⟩

theorem GuardedRun.sound (happ : Modest env) (h : GuardedRun env w) : Sound w :=
  h.invariant (fun _ hopened => hopened.sound)
    (fun _ _ _ ih ⟨_, _, hguard, hcall⟩ => ih.perform happ hguard hcall)

/-! ## The theorem -/

/-- `on_receive` returns, IPv4 takes the segments it sends, and the ack position is where `ack`
left it: at a boundary between its old place and the write cursor, with no segment gone that
was never sent. -/
def ReceivesWell (env : Environment) (overflow : Int → Checked Int) (hwaddr : HwAddr) (w : World)
    (sender : Sender) (metadata : SegmentMetadata) (data : Bytes) (length : UInt32) : Prop :=
  ∃ fuel w' outs q, w.onReceive env fuel metadata data length = .ok w' ∧
    w'.trace = w.trace ++ outs ∧ (∃ r, passDown overflow hwaddr outs sender = .ok r) ∧
    w.conn.txQueue.ack metadata.tcpHeader.ackNbr = .ok q ∧
    w'.conn.txQueue.ackPos = q.ackPos ∧ SendQueue.Boundary w.conn.txQueue q ∧
    (w.conn.txQueue.NeverSent metadata.tcpHeader.ackNbr → q.queued = w.conn.txQueue.queued)

/-- There is a way for whatever the call sends: the next hop of the remote end is cached, or ARP
has a callback for each segment. -/
def HasWay (env : Environment) (w : World) (sender : Sender) (metadata : SegmentMetadata)
    (data : Bytes) (length : UInt32) : Prop :=
  ∀ fuel w' outs, w.onReceive env fuel metadata data length = .ok w' →
    w'.trace = w.trace ++ outs → Passable sender w.conn.remote.ipaddr outs

/-- **When a segment with an acknowledgment is received well**: in every guarded run over every
reachable state of IPv4 and ARP that has a way for the answers, exactly when its number stops
the loop of `ack` at once or lies within what was sent. -/
theorem receives_iff {env : Environment} (happ : Modest env) {w : World} (hrun : GuardedRun env w)
    {overflow : Int → Checked Int} {hwaddr : HwAddr} {sender : Sender}
    (hsender : Reach Sender.Initial (Sender.Step overflow hwaddr) sender)
    {metadata : SegmentMetadata} {data : Bytes} {length : UInt32}
    (hflag : hasFlag metadata.flags ACK = true) (hguard : Admits w metadata length)
    (hway : HasWay env w sender metadata data length) :
    ReceivesWell env overflow hwaddr w sender metadata data length ↔
      w.conn.txQueue.AckFits metadata.tcpHeader.ackNbr := by
  have h := GuardedRun.sound happ hrun
  constructor
  · rintro ⟨_, _, _, q, _, _, _, hack, _, hboundary, hunsent⟩
    exact (SendQueue.acksWell_iff h.tx _).mp ⟨q, hack, hboundary, hunsent⟩
  · intro hfits
    obtain ⟨q, hack, hboundary, hunsent⟩ := (SendQueue.acksWell_iff h.tx _).mpr hfits
    obtain ⟨fuel, w', hcall, _, hpos⟩ := onReceive_total happ h data hguard (fun _ => ⟨q, hack⟩)
    obtain ⟨_, outs, htrace, htoward⟩ := onReceive_outward env hcall
    have hdown := (passDown_iff overflow hwaddr w.conn.remote.ipaddr outs
      (Sender.reach_sound hsender) htoward).mpr (hway fuel w' outs hcall htrace)
    exact ⟨fuel, w', outs, q, hcall, htrace, hdown, hack, hpos hflag q hack, hboundary, hunsent⟩

/-! ## A handshake, and an acknowledgment of nothing -/

theorem blank_sound : ConnectionTable.blank.Sound where
  connections := clear_wf blank.connections (by decide)
  newConnections := clear_wf blank.newConnections (by decide)
  finishedConnections := clear_wf blank.finishedConnections (by decide)

theorem modest_quiet : Modest quiet := by
  intro trace data bytes h
  exact absurd h (by simp [quiet])

/-- A connection before and after its first `step`. -/
def handshake : Checked (World × World) := do
  let (connIdx, table) ← acceptSyn .blank (.plain SYN 1000 0)
  let client ← table.connections.get connIdx
  let w ← step quiet 2 ⟨client, table, []⟩
  .ok (⟨client, table, []⟩, w)

/-- The ACK that ends the handshake, while ARP knows no address yet. -/
theorem receives_handshake : ∃ w, (GuardedRun quiet w ∧ w.conn.state = .SYN_RCVD) ∧
    ReceivesWell quiet (fun _ => .error .overflow) [] w Sender.start
      (.plain ACK 1001 0xDEADBEF0) phantom 0 := by
  have hlife : handshake.map (fun (w0, w) => (w0.conn.state, w0.conn.txQueue.writePos.toNat,
      w.conn.state, w.conn.txQueue.writePos.toNat, w.conn.txQueue.sentEnd, w.conn.remote.ipaddr,
      (w.onReceive quiet 2 (.plain ACK 1001 0xDEADBEF0) phantom 0).map
        fun w' => w'.trace.countP Action.isOutput))
      = .ok (.SYN_RCVD, 3735928559, .SYN_RCVD, 3735928560, 3735928560, 0, .ok 1) := by rfl
  obtain ⟨⟨w0, w⟩, hw, hfacts⟩ := map_ok.mp hlife
  simp only [Prod.mk.injEq] at hfacts
  obtain ⟨hs0, _, hs, _, hsent, hremote, hreceive⟩ := hfacts
  obtain ⟨⟨connIdx, table⟩, haccept, hw⟩ := bind_ok.mp hw
  obtain ⟨client, hclient, hw⟩ := bind_ok.mp hw
  obtain ⟨w', hstep, hw⟩ := bind_ok.mp hw
  cases hw
  obtain ⟨_, _, _, haccept', htable, _⟩ := acceptSyn_total blank_sound rfl rfl (.plain SYN 1000 0)
  cases haccept.symm.trans haccept'
  have r0 : GuardedRun quiet ⟨client, table, []⟩ :=
    Reach.init (.accepted haccept hclient htable ⟨by decide, by decide, by decide⟩)
  have hrun : GuardedRun quiet w := by
    refine r0.step ⟨2, .stepped, ⟨?_, ?_⟩, hstep⟩
    · unfold Below
      omega
    · intro hfin
      exact absurd (hs0.symm.trans hfin) (by decide)
  refine ⟨w, ⟨hrun, hs⟩, (receives_iff modest_quiet hrun (Sender.start_reach _ _) (by decide)
    ?_ ?_).mpr (.inr ?_)⟩
  · refine ⟨?_, ⟨by decide, by decide, by decide⟩, ?_, ?_, ?_⟩
    · unfold Below
      omega
    · intro hl
      exact absurd (hs.symm.trans hl) (by decide)
    · rintro (hl | hl) <;> exact absurd (hs.symm.trans hl) (by decide)
    · rintro (hl | hl) <;> exact absurd (hs.symm.trans hl) (by decide)
  · intro fuel w' outs hcall htrace
    obtain ⟨w'', hcall', hcount⟩ := map_ok.mp hreceive
    rw [← onReceive_agree quiet hcall hcall', htrace, List.countP_append] at hcount
    have hslots : Sender.start.arp.slots (Sender.start.nextHop 0) = 32 := by decide +kernel
    right
    rw [hremote, hslots]
    omega
  · rw [hsent]
    decide

/-- **A listening connection fails on any acknowledgment**: its send queue is
empty with ack position 0, and `ack` asserts that there is a segment. -/
theorem ack_of_nothing : ∃ w, GuardedRun quiet w ∧ w.conn.state = .LISTEN ∧
    w.conn.txQueue.queued = [] ∧ w.conn.txQueue.ackPos = 0 ∧ Admits w (.plain ACK 0 1) 0 ∧
    (∀ fuel, w.onReceive quiet fuel (.plain ACK 0 1) phantom 0
      = .error (.assertion "_segments.size() > 0")) ∧
    ∀ overflow hwaddr sender,
      ¬ ReceivesWell quiet overflow hwaddr w sender (.plain ACK 0 1) phantom 0 := by
  obtain ⟨i, table, hcreate, htable, hlook⟩ :=
    createConnection_total blank_sound rfl rfl .wildcard ⟨0, 80⟩ .LISTEN
  obtain ⟨w, hw⟩ : ∃ w : World, w = ⟨{ Connection.new .wildcard ⟨0, 80⟩ .LISTEN with
    handle := i, callback := blank.callback }, table, []⟩ := ⟨_, rfl⟩
  have hrun : GuardedRun quiet w := by
    rw [hw]
    exact Reach.init (.listening hcreate (get_spec hlook) htable)
  have hstate : w.conn.state = .LISTEN := by rw [hw]; rfl
  have hwrite : w.conn.txQueue.writePos = 0 := by rw [hw]; rfl
  have hfails : ∀ fuel, w.onReceive quiet fuel (.plain ACK 0 1) phantom 0
      = .error (.assertion "_segments.size() > 0") := by
    intro fuel
    rw [hw]
    rfl
  refine ⟨w, hrun, hstate, by rw [hw]; rfl, by rw [hw]; rfl, ?_, hfails, ?_⟩
  · refine ⟨?_, ⟨by decide, by decide, by decide⟩, ?_, ?_, ?_⟩
    · unfold Below
      rw [hwrite]
      decide
    · intro _ hsyn
      exact absurd hsyn (by decide)
    · rintro (hl | hl) <;> exact absurd (hstate.symm.trans hl) (by decide)
    · rintro (hl | hl) <;> exact absurd (hstate.symm.trans hl) (by decide)
  · rintro overflow hwaddr sender ⟨fuel, w', _, _, hcall, _⟩
    exact absurd ((hfails fuel).symm.trans hcall) (by simp)

end World

end Peos2.Tcp
