/-
  Tcp.Lifecycle — the life of a connection from its SYN on.

  A connection is born when a listening one gets a SYN, and stepped at once. Then segments
  arrive, `step` and `close` are called and the application sends, in any order and from
  inside the callback as well. The connection walks one of the paths

      SYN_RCVD → ESTABLISHED → FIN_WAIT_1 → FIN_WAIT_2
                             |            → CLOSING
                             → LAST_ACK

  and never goes back.

  Main result: `lifeRun_lawful`.
-/
import Peos2.Lib.Run
import Peos2.Lib.Trace
import Peos2.Tcp.Moves

namespace Peos2.Tcp

open Peos2.Lib Peos2.Support List World

/-! ## The rules -/

def states (trace : List Action) : List ConnectionState :=
  trace.filterMap fun
    | .transition _ new => some new
    | _ => none

/-- The state a connection is in after a trace that began in `SYN_RCVD`. -/
def stateAt (trace : List Action) : ConnectionState := (states trace).getLastD .SYN_RCVD

/-- The only way into each state. -/
def pathTo : ConnectionState → List ConnectionState
  | .LISTEN => []
  | .SYN_RCVD => [.SYN_RCVD]
  | .ESTABLISHED => [.SYN_RCVD, .ESTABLISHED]
  | .LAST_ACK => [.SYN_RCVD, .ESTABLISHED, .LAST_ACK]
  | .FIN_WAIT_1 => [.SYN_RCVD, .ESTABLISHED, .FIN_WAIT_1]
  | .CLOSING => [.SYN_RCVD, .ESTABLISHED, .FIN_WAIT_1, .CLOSING]
  | .FIN_WAIT_2 => [.SYN_RCVD, .ESTABLISHED, .FIN_WAIT_1, .FIN_WAIT_2]

def isFin : Action → Bool
  | .transmit _ flags => hasFlag flags FIN
  | _ => false

/-- What the life cycle asks of an action, given the actions before it. -/
def Allowed (before : List Action) : Action → Prop
  | .callback state _ =>
    state = .ESTABLISHED ∧ stateAt before = .ESTABLISHED ∧
      ∃ segment cursor, before.getLast? = some (.consumed segment cursor) ∧
        hasFlag segment.flags FIN = false
  | .transmit state flags =>
    hasFlag flags FIN = true → state = .ESTABLISHED ∧ stateAt before = .ESTABLISHED
  | .transition old _ =>
    old = .ESTABLISHED → before.getLast? = some (.transmit .ESTABLISHED FIN)
  | .finish state =>
    stateAt before = state ∧
      (state = .LAST_ACK ∨ state = .CLOSING ∨ state = .FIN_WAIT_2)
  | _ => True

/-- A FIN is followed at once by a transition out of `ESTABLISHED`, and the
action itself is allowed. -/
def Lawful (before : List Action) (a : Action) : Prop :=
  (∀ last, before.getLast? = some last → isFin last = true →
    ∃ new, a = .transition .ESTABLISHED new) ∧ Allowed before a

/-- A connection that has kept to the rules so far. -/
structure Living (w : World) : Prop where
  path : .SYN_RCVD :: states w.trace = pathTo w.conn.state
  lawful : Everywhere Lawful w.trace
  settled : ∀ last, w.trace.getLast? = some last → isFin last = false
  fins : w.trace.countP isFin =
    if w.conn.state = .SYN_RCVD ∨ w.conn.state = .ESTABLISHED then 0 else 1

theorem states_append (l m : List Action) : states (l ++ m) = states l ++ states m :=
  filterMap_append

theorem stateAt_of_path {trace : List Action} {state : ConnectionState}
    (h : .SYN_RCVD :: states trace = pathTo state) : stateAt trace = state := by
  unfold stateAt
  cases state with
  | LISTEN => exact absurd h (by simp [pathTo])
  | _ =>
    injection h with _ h
    rw [h]
    rfl

namespace Living

variable {w w' : World}

theorem stateAt_eq (h : Living w) : stateAt w.trace = w.conn.state := stateAt_of_path h.path

theorem silent (h : Living w) (htrace : w'.trace = w.trace)
    (hstate : w'.conn.state = w.conn.state) : Living w' where
  path := by rw [htrace, hstate, h.path]
  lawful := by rw [htrace]; exact h.lawful
  settled := by rw [htrace]; exact h.settled
  fins := by rw [htrace, hstate, h.fins]

theorem extend (h : Living w) {a : Action} (htrace : w'.trace = w.trace ++ [a])
    (hstate : w'.conn.state = w.conn.state) (hstay : states [a] = []) (hfin : isFin a = false)
    (ha : Allowed w.trace a) : Living w' where
  path := by rw [htrace, states_append, hstay, append_nil, hstate, h.path]
  lawful := by
    rw [htrace, everywhere_concat]
    refine ⟨h.lawful, ?_, ha⟩
    intro last hlast hf
    exact absurd (h.settled last hlast) (by simp [hf])
  settled := by
    intro last hlast
    rw [htrace, getLast?_concat] at hlast
    cases hlast
    exact hfin
  fins := by
    rw [htrace, countP_append, countP_singleton, hfin, hstate, h.fins]
    rfl

theorem advance (h : Living w) {old new : ConnectionState} (hstate : w.conn.state = old)
    (hold : old ≠ .ESTABLISHED) (hpath : pathTo new = pathTo old ++ [new])
    (hphase : (new = .SYN_RCVD ∨ new = .ESTABLISHED) ↔
      (old = .SYN_RCVD ∨ old = .ESTABLISHED)) :
    Living (w.transition new) where
  path := by
    show .SYN_RCVD :: states (w.trace ++ [.transition w.conn.state new]) = pathTo new
    rw [states_append, ← cons_append, h.path, hpath, hstate]
    rfl
  lawful := by
    refine everywhere_concat.mpr ⟨h.lawful, ?_, ?_⟩
    · intro last hlast hf
      exact absurd (h.settled last hlast) (by simp [hf])
    · intro he
      exact absurd (hstate.symm.trans he) hold
  settled := by
    intro last hlast
    rw [transition, log, getLast?_concat] at hlast
    cases hlast
    rfl
  fins := by
    show (w.trace ++ [_]).countP isFin = if new = .SYN_RCVD ∨ new = .ESTABLISHED then 0 else 1
    rw [countP_append, h.fins, hstate]
    simp only [hphase]
    rfl

theorem leave (h : Living w) (hold : w.conn.state = .ESTABLISHED) {new : ConnectionState}
    (hnew : new = .LAST_ACK ∨ new = .FIN_WAIT_1) (txQueue : SendQueue) :
    Living (((w.withTx txQueue).log (.transmit w.conn.state FIN)).transition new) := by
  have htrace : (((w.withTx txQueue).log (.transmit w.conn.state FIN)).transition new).trace
      = (w.trace ++ [.transmit .ESTABLISHED FIN]) ++ [.transition .ESTABLISHED new] := by
    simp only [transition, log, withTx, withState, hold]
  refine ⟨?_, ?_, ?_, ?_⟩
  · rw [htrace, states_append, states_append, ← cons_append, ← cons_append, h.path, hold]
    rcases hnew with rfl | rfl <;> rfl
  · rw [htrace, everywhere_concat, everywhere_concat]
    refine ⟨⟨h.lawful, ?_, ?_⟩, ?_, ?_⟩
    · -- the FIN
      intro last hlast hf
      exact absurd (h.settled last hlast) (by simp [hf])
    · intro _
      exact ⟨rfl, h.stateAt_eq.trans hold⟩
    · -- the transition
      intro last _ _
      exact ⟨new, rfl⟩
    · intro _
      exact getLast?_concat
  · intro last hlast
    rw [htrace, getLast?_concat] at hlast
    cases hlast
    rfl
  · rw [htrace, countP_append, countP_append, h.fins, hold]
    rcases hnew with rfl | rfl <;> rfl

end Living

/-! ## Every move keeps the rules -/

variable {w w' : World}

theorem Living.arrival {metadata : SegmentMetadata} {data : Bytes} {length : UInt32}
    (h : Living w) (harrival : World.Arrival w metadata data length w') : Living w' := by
  have hlog : Living (w.log (.received metadata length)) := h.extend rfl rfl rfl rfl trivial
  cases harrival with
  | ignored => exact hlog
  | accepted | sequenced | finSequenced => exact hlog.silent rfl rfl
  | established state => exact hlog.advance state (by decide) rfl (by decide)
  | @closing _ rxQueue state =>
    have hrx : Living ((w.log (.received metadata length)).withRx rxQueue) := hlog.silent rfl rfl
    exact hrx.advance state (by decide) rfl (by decide)

theorem Living.move (env : Environment) (h : Living w) (hmove : World.Move env w w') :
    Living w' := by
  cases hmove with
  | acked => exact h.silent rfl rfl
  | consumed => exact h.extend rfl rfl rfl rfl trivial
  | emitted emit =>
    cases emit with
    | fetched => exact h.silent rfl rfl
    | sent => exact h.extend rfl rfl rfl rfl trivial
  | finAcked state => exact h.advance state (by decide) rfl (by decide)
  | finished state call =>
    exact h.extend rfl rfl rfl rfl ⟨h.stateAt_eq, by rcases state with e | e <;> simp [e]⟩
  | destroyed state last fin call =>
    exact h.extend rfl rfl rfl rfl ⟨h.stateAt_eq, by simp [state]⟩
  | transmitted noFin shorter call =>
    refine h.extend rfl rfl rfl noFin ?_
    intro hfin
    exact absurd hfin (by simp [noFin])
  | left state target call => exact h.leave state target _
  | called data state last noFin set =>
    exact h.extend rfl rfl rfl rfl ⟨state, h.stateAt_eq.trans state, _, _, last, noFin⟩

theorem Living.moves (env : Environment) (h : Living w) (hmoves : World.Moves env w w') :
    Living w' := by
  induction hmoves with
  | refl => exact h
  | tail _ hmove ih => exact ih.move env hmove

/-! ## Runs -/

/-- The connection `LISTEN` makes of a SYN, with the SYN sequenced. -/
def Connection.accepted (metadata : SegmentMetadata) (callback : Bool) (handle : Nat)
    (rxQueue : ReceiveQueue) : Connection :=
  { Connection.new ⟨metadata.datagram.srcAddr, metadata.tcpHeader.srcPort⟩
      ⟨metadata.datagram.destAddr, metadata.tcpHeader.destPort⟩ .SYN_RCVD with
    handle
    callback
    rxQueue
    txQueue := (Connection.new .wildcard .wildcard .SYN_RCVD).txQueue.reset 0xDEADBEEF }

theorem ConnectionTable.createConnection_ok {table table' : ConnectionTable} {remote localEnd : Endpoint}
    {state : ConnectionState} {connIdx : Nat} {conn : Connection}
    (h : table.createConnection remote localEnd state = .ok (connIdx, table'))
    (hget : table'.connections.get connIdx = .ok conn) :
    conn = { Connection.new remote localEnd state with
      handle := connIdx, callback := table.callback } := by
  rw [createConnection, bind_ok] at h
  obtain ⟨⟨idx, connections1⟩, hput, h⟩ := h
  obtain ⟨c0, hc0, h⟩ := bind_ok.mp h
  obtain ⟨connections2, hset, h⟩ := bind_ok.mp h
  obtain ⟨⟨_, newConnections⟩, _, h⟩ := bind_ok.mp h
  cases h
  have hnew := Pool.get_of_emplaceAnywhere hput hc0
  subst hnew
  exact Pool.get_of_set hset hget

theorem World.acceptSyn_ok {table table' : ConnectionTable} {metadata : SegmentMetadata}
    {connIdx : Nat} {client : Connection} (h : acceptSyn table metadata = .ok (connIdx, table'))
    (hget : table'.connections.get connIdx = .ok client) :
    ∃ r rxQueue, (ReceiveQueue.blank.reset metadata.tcpHeader.seqNbr).insert
        ⟨metadata.flags, metadata.tcpHeader.seqNbr, 0⟩ phantom 1 = .ok (r, rxQueue) ∧
      client = .accepted metadata table.callback connIdx rxQueue := by
  rw [acceptSyn, bind_ok] at h
  obtain ⟨⟨idx, table1⟩, hcreate, h⟩ := h
  obtain ⟨c, hc, h⟩ := bind_ok.mp h
  obtain ⟨c1, hseq, h⟩ := bind_ok.mp h
  obtain ⟨connections, hset, h⟩ := bind_ok.mp h
  cases h
  have hclient := Pool.get_of_set hset hget
  have hcreated := ConnectionTable.createConnection_ok hcreate hc
  subst hcreated
  rw [Connection.sequence, bind_ok] at hseq
  obtain ⟨⟨r, rxQueue⟩, hinsert, hseq⟩ := hseq
  cases hseq
  exact ⟨r, rxQueue, hinsert, hclient⟩

section Runs

variable (env : Environment)

/-- A connection just created by `LISTEN` for a SYN, and stepped. -/
def Born (w : World) : Prop :=
  ∃ table metadata connIdx table' client fuel, hasFlag metadata.flags SYN = true ∧
    World.acceptSyn table metadata = .ok (connIdx, table') ∧
    table'.connections.get connIdx = .ok client ∧
    World.step env fuel ⟨client, table', []⟩ = .ok w

/-- The connection that a SYN brings about, after its first `step`. -/
def birth (fuel : Nat) (table : ConnectionTable) (metadata : SegmentMetadata) : Checked World := do
  let (connIdx, table) ← World.acceptSyn table metadata
  let client ← table.connections.get connIdx
  World.step env fuel ⟨client, table, []⟩

variable {fuel : Nat} {w : World}

theorem birth_born {table : ConnectionTable} {metadata : SegmentMetadata}
    (hsyn : hasFlag metadata.flags SYN = true) (h : birth env fuel table metadata = .ok w) :
    Born env w := by
  rw [birth, bind_ok] at h
  obtain ⟨⟨connIdx, table'⟩, haccept, h⟩ := h
  obtain ⟨client, hclient, hstep⟩ := bind_ok.mp h
  exact ⟨table, metadata, connIdx, table', client, fuel, hsyn, haccept, hclient, hstep⟩

inductive Event where
  | received (metadata : SegmentMetadata) (data : Bytes) (length : UInt32)
  | stepped
  | closed
  | sent (data : List UInt8)
  /-- Other connections and the protocol work on the table. -/
  | elsewhere (table : ConnectionTable)

/-- One event; `fuel` bounds the transmit loop. -/
def World.perform (fuel : Nat) (w : World) : Event → Checked World
  | .received metadata data length => w.onReceive env fuel metadata data length
  | .stepped => w.step env fuel
  | .closed => w.close
  | .sent data => w.sendData data
  | .elsewhere table => .ok { w with table }

def LifeStep (w w' : World) : Prop := ∃ fuel event, w.perform env fuel event = .ok w'

abbrev LifeRun : World → Prop := Reach (Born env) (LifeStep env)

theorem Born.living (h : Born env w) : Living w := by
  obtain ⟨table, metadata, connIdx, table', client, fuel, _, haccept, hget, hstep⟩ := h
  obtain ⟨r, rxQueue, _, rfl⟩ := acceptSyn_ok haccept hget
  have hstart : Living ⟨.accepted metadata table.callback connIdx rxQueue, table', []⟩ :=
    ⟨rfl, everywhere_nil, fun _ hlast => by simp at hlast, rfl⟩
  exact hstart.moves env (step_moves env hstep)

theorem Living.perform {w' : World} {event : Event} (h : Living w)
    (hcall : w.perform env fuel event = .ok w') : Living w' := by
  cases event with
  | received metadata data length =>
    obtain ⟨w1, harrival, hmoves⟩ := onReceive_moves env hcall
    exact (h.arrival harrival).moves env hmoves
  | stepped => exact h.moves env (step_moves env hcall)
  | closed => exact h.moves env (close_moves env hcall)
  | sent data => exact h.moves env (sendData_moves env hcall)
  | elsewhere table =>
    cases hcall
    exact h.silent rfl rfl

theorem LifeRun.living (h : LifeRun env w) : Living w :=
  h.invariant (fun _ hborn => Born.living env hborn)
    (fun _ _ _ ih ⟨_, _, hcall⟩ => ih.perform env hcall)

/-- Between two events the receive queue is drained: whatever can be read has
been read. -/
structure Settled (w : World) : Prop where
  wf : w.conn.rxQueue.WF
  drained : w.conn.rxQueue.hasReadable = .ok false

theorem Born.settled (h : Born env w) : Settled w := by
  obtain ⟨table, metadata, connIdx, table', client, fuel, _, haccept, hget, hstep⟩ := h
  obtain ⟨r, rxQueue, hinsert, rfl⟩ := acceptSyn_ok haccept hget
  refine ⟨World.Moves.rxQueue_wf env (step_moves env hstep) ?_, step_drained env hstep⟩
  exact ReceiveQueue.insert_ok_wf (ReceiveQueue.reset_wf _ _) hinsert

theorem Settled.perform {w' : World} {event : Event} (h : Settled w)
    (hcall : w.perform env fuel event = .ok w') : Settled w' := by
  cases event with
  | received metadata data length =>
    obtain ⟨w1, harrival, hmoves⟩ := onReceive_moves env hcall
    exact ⟨World.Moves.rxQueue_wf env hmoves (harrival.rxQueue_wf h.wf),
      onReceive_drained env hcall⟩
  | stepped =>
    exact ⟨World.Moves.rxQueue_wf env (step_moves env hcall) h.wf, step_drained env hcall⟩
  | closed =>
    have hrx := close_rxQueue hcall
    exact ⟨hrx ▸ h.wf, hrx ▸ h.drained⟩
  | sent data =>
    have hrx := sendData_rxQueue hcall
    exact ⟨hrx ▸ h.wf, hrx ▸ h.drained⟩
  | elsewhere table =>
    cases hcall
    exact ⟨h.wf, h.drained⟩

theorem LifeRun.settled (h : LifeRun env w) : Settled w :=
  h.invariant (fun _ hborn => Born.settled env hborn)
    (fun _ _ _ ih ⟨_, _, hcall⟩ => ih.perform env hcall)

end Runs

/-! ## The life cycle -/

/-- **The life cycle.** In every run the states follow a path; the callback is invoked only in
`ESTABLISHED`, right after a segment without FIN was consumed; a FIN is transmitted exactly
where `ESTABLISHED` is left, at most once; and `finish_connection` is called only in `LAST_ACK`,
`CLOSING` or `FIN_WAIT_2`. -/
theorem lifeRun_lawful (env : Environment) {w : World} (h : LifeRun env w) :
    .SYN_RCVD :: states w.trace = pathTo w.conn.state ∧
    (∀ before state data after, w.trace = before ++ .callback state data :: after →
      state = .ESTABLISHED ∧ stateAt before = .ESTABLISHED ∧
        ∃ segment cursor, before.getLast? = some (.consumed segment cursor) ∧
          hasFlag segment.flags FIN = false) ∧
    (∀ before state flags after, w.trace = before ++ .transmit state flags :: after →
      hasFlag flags FIN = true → state = .ESTABLISHED ∧ stateAt before = .ESTABLISHED ∧
        ∃ new, after.head? = some (.transition .ESTABLISHED new)) ∧
    (∀ before new after, w.trace = before ++ .transition .ESTABLISHED new :: after →
      before.getLast? = some (.transmit .ESTABLISHED FIN)) ∧
    w.trace.countP isFin ≤ 1 ∧
    (∀ before state after, w.trace = before ++ .finish state :: after →
      stateAt before = state ∧
        (state = .LAST_ACK ∨ state = .CLOSING ∨ state = .FIN_WAIT_2)) := by
  have hl := h.living
  refine ⟨hl.path, ?_, ?_, ?_, ?_, ?_⟩
  · intro before state data after hw
    exact (hl.lawful _ _ _ hw).2
  · intro before state flags after hw hfin
    obtain ⟨hstate, hat⟩ := (hl.lawful _ _ _ hw).2 hfin
    refine ⟨hstate, hat, ?_⟩
    cases after with
    | nil =>
      -- a trace never ends with a FIN
      have hlast : w.trace.getLast? = some (.transmit state flags) := by
        rw [hw]
        exact getLast?_concat
      exact absurd (hl.settled _ hlast) (by simp [isFin, hfin])
    | cons a after =>
      have hw' : w.trace = (before ++ [.transmit state flags]) ++ a :: after := by
        rw [hw, append_assoc, singleton_append]
      obtain ⟨new, rfl⟩ := (hl.lawful _ _ _ hw').1 _ getLast?_concat hfin
      exact ⟨new, rfl⟩
  · intro before new after hw
    exact (hl.lawful _ _ _ hw).2 rfl
  · rw [hl.fins]
    split <;> omega
  · intro before state after hw
    exact (hl.lawful _ _ _ hw).2

def SegmentMetadata.plain (flags : UInt16) (seqNbr ackNbr : SequenceNumber) : SegmentMetadata :=
  ⟨⟨80, 80, seqNbr, ackNbr, 0, 0, 0, 0⟩, ⟨0, 0⟩, flags⟩

def hangUp : Environment := ⟨0, 0, fun _ _ => [.close]⟩

/-- A connection that is opened, gets one byte, and is closed by the
application. -/
def shortLife : Checked World := do
  let w ← birth hangUp 2 { ConnectionTable.blank with callback := true } (.plain SYN 1000 0)
  let w ← w.onReceive hangUp 2 (.plain ACK 1001 0xDEADBEF0) phantom 0
  let w ← w.onReceive hangUp 2 (.plain ACK 1001 0xDEADBEF0) phantom 1
  w.onReceive hangUp 2 (.plain ACK 1002 0xDEADBEF1) phantom 0

theorem lifeRun_short : ∃ w, (LifeRun hangUp w ∧ w.conn.state = .FIN_WAIT_2) ∧
    .SYN_RCVD :: states w.trace = pathTo .FIN_WAIT_2 ∧ w.trace.countP isFin ≤ 1 := by
  have hlife : shortLife.map (fun w => w.conn.state) = .ok .FIN_WAIT_2 := by rfl
  obtain ⟨w, hw, hstate⟩ := map_ok.mp hlife
  refine ⟨w, ?_⟩
  obtain ⟨w0, h0, hw⟩ := bind_ok.mp hw
  obtain ⟨w1, h1, hw⟩ := bind_ok.mp hw
  obtain ⟨w2, h2, h3⟩ := bind_ok.mp hw
  have r0 : LifeRun hangUp w0 := Reach.init (birth_born hangUp (by decide) h0)
  have hrun : LifeRun hangUp w :=
    ((r0.step ⟨2, .received _ _ _, h1⟩).step ⟨2, .received _ _ _, h2⟩).step ⟨2, .received _ _ _, h3⟩
  obtain ⟨hpath, _, _, _, hfins, _⟩ := lifeRun_lawful hangUp hrun
  exact ⟨⟨hrun, hstate⟩, hstate ▸ hpath, hfins⟩

end Peos2.Tcp
