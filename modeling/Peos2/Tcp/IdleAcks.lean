/-
  Tcp.IdleAcks — what the acknowledgment of a consumed segment carries.

  When `step` has consumed something, the transmit loop sends the segments that are
  waiting, or an ACK without payload goes out, with the read cursor as acknowledgment
  number. Its sequence number is a cached one, the end of the segment sent last, which is
  the write cursor only as long as every segment written is also sent: an acknowledgment
  that takes a segment not yet sent, or a full queue, leaves it behind.

  Main results: `acknowledged_of_careful`, `idleAck_behind`.
-/
import Peos2.Tcp.Progress
import Peos2.Tcp.PureAcks

namespace Peos2.Tcp

open Peos2.Lib Peos2.Support List World ReceiveQueue

/-! ## Consecutive segments -/

/-- The records lie end to end, from one number to another. -/
def Chained : SequenceNumber → List SendSegment → SequenceNumber → Prop
  | a, [], b => a = b
  | a, s :: rest, b => s.seqnbr = a ∧ Chained (s.seqnbr + s.dataLength) rest b

theorem Chained.concat {l : List SendSegment} {s : SendSegment} : ∀ {a b : SequenceNumber},
    Chained a l b → s.seqnbr = b → Chained a (l ++ [s]) (b + s.dataLength) := by
  induction l with
  | nil =>
    intro a b h hs
    have hab : a = b := h
    refine ⟨hs.trans hab.symm, ?_⟩
    show s.seqnbr + s.dataLength = b + s.dataLength
    rw [hs]
  | cons t rest ih =>
    intro a b h hs
    obtain ⟨ht, hrest⟩ := h
    exact ⟨ht, ih hrest hs⟩

namespace SendQueue

/-- What is still to be sent reaches from `next` to the write cursor, without
gaps and without empty records. -/
structure Ready (q : SendQueue) (next : SequenceNumber) : Prop where
  laid : q.Laid
  chained : Chained next q.unread q.writePos
  solid : ∀ s ∈ q.unread, s.dataLength ≠ 0

variable {q q' : SendQueue} {n : SequenceNumber}

theorem unread_writeBack (h : q.Laid) (hroom : q.queued.length < 100) {flags : UInt16}
    {data : Bytes} {dataLength sendLength : UInt32} {r : Bool}
    (hcall : q.writeBack ⟨flags, q.writePos, 0, 0⟩ (some data) dataLength sendLength = .ok (r, q'))
    :
    (65535 < q.bytes.length + dataLength.toNat ∧ q' = q) ∨
    (q'.unread = q.unread ++ [⟨flags, q.writePos, dataLength, sendLength⟩] ∧
      q'.writePos = q.writePos + dataLength ∧ q'.queued.length = q.queued.length + 1) := by
  obtain ⟨hrefuse, haccept⟩ := writeBack_spec h.wf ⟨flags, q.writePos, 0, 0⟩ data dataLength
    sendLength
  by_cases hfit : q.bytes.length + dataLength.toNat ≤ 65535
  · obtain ⟨q1, h1, _, _, hqueued, hwrite, _, hread, _⟩ := haccept hfit rfl
    rw [h1] at hcall
    cases hcall
    rw [if_pos hroom] at hqueued
    refine .inr ⟨?_, hwrite, ?_⟩
    · unfold unread
      rw [hqueued, hread, drop_append_of_le_length h.read_le]
    · rw [hqueued, length_append]
      rfl
  · rw [hrefuse (.inl (by omega))] at hcall
    cases hcall
    exact .inl ⟨by omega, rfl⟩

theorem Ready.writeBack {next : SequenceNumber} (h : q.Ready next) (hroom : q.queued.length < 100)
    {flags : UInt16} {data : Bytes} {dataLength sendLength : UInt32}
    (hshort : sendLength.toNat ≤ dataLength.toNat) (hsolid : dataLength ≠ 0) {r : Bool}
    (hcall : q.writeBack ⟨flags, q.writePos, 0, 0⟩ (some data) dataLength sendLength = .ok (r, q'))
    :
    q'.Ready next ∧ q'.queued.length ≤ q.queued.length + 1 := by
  have hlaid := h.laid.writeBack hshort hcall
  rcases unread_writeBack h.laid hroom hcall with ⟨_, rfl⟩ | ⟨hunread, hwrite, hlength⟩
  · exact ⟨h, Nat.le_succ _⟩
  refine ⟨⟨hlaid, ?_, ?_⟩, Nat.le_of_eq hlength⟩
  · rw [hunread, hwrite]
    exact h.chained.concat rfl
  · intro s hs
    rw [hunread] at hs
    rcases mem_append.mp hs with hs | hs
    · exact h.solid s hs
    · rw [mem_singleton] at hs
      rw [hs]
      exact hsolid

/-- The number does not reach the first record that was never sent. -/
def SparesUnsent (q : SendQueue) (n : SequenceNumber) : Prop :=
  n ≤ q.ackPos ∨ ∀ s rest, q.unread = s :: rest → s.seqnbr + s.dataLength > n

theorem Pop.unread_eq {s : SendSegment} {rest : List SendSegment} (h : Pop n q q' s rest)
    (hspares : q.SparesUnsent n) : q'.unread = q.unread := by
  have hread : q.readPos.toNat ≠ 0 := by
    intro hzero
    have hunread : q.unread = s :: rest := by
      unfold unread
      rw [hzero, h.before]
      rfl
    rcases hspares with hle | hfirst
    · have habove := h.above
      rw [gt_iff_lt, lt_iff_toNat] at habove
      rw [le_iff_toNat] at hle
      omega
    · exact h.reached (hfirst s rest hunread)
  obtain ⟨m, hm⟩ := Nat.exists_eq_succ_of_ne_zero hread
  unfold unread
  rw [h.after, h.before, h.readPos, hm]
  rfl

theorem Pop.spares {s : SendSegment} {rest : List SendSegment} (h : Pop n q q' s rest)
    (hspares : q.SparesUnsent n) : q'.SparesUnsent n := by
  right
  rw [h.unread_eq hspares]
  rcases hspares with hle | hfirst
  · -- then the loop would have stopped before
    have habove := h.above
    rw [gt_iff_lt, lt_iff_toNat] at habove
    rw [le_iff_toNat] at hle
    omega
  · exact hfirst

theorem pops_unread (h : Relation.ReflTransGen (Pops n) q q') (hspares : q.SparesUnsent n) :
    q'.unread = q.unread ∧ q'.writePos = q.writePos ∧ q'.queued.length ≤ q.queued.length := by
  induction h using Relation.ReflTransGen.head_induction_on with
  | refl => exact ⟨rfl, rfl, Nat.le_refl _⟩
  | head hpop _ ih =>
    obtain ⟨s, rest, hpop⟩ := hpop
    obtain ⟨hunread, hwrite, hlength⟩ := ih (hpop.spares hspares)
    refine ⟨hunread.trans (hpop.unread_eq hspares), hwrite.trans hpop.writePos, ?_⟩
    rw [hpop.after] at hlength
    rw [hpop.before, length_cons]
    omega

theorem Ready.ack {next : SequenceNumber} (h : q.Ready next) (hspares : q.SparesUnsent n)
    (hcall : q.ack n = .ok q') : q'.Ready next ∧ q'.queued.length ≤ q.queued.length := by
  obtain ⟨hpops, _⟩ := ackFrom_pops _ h.laid.wf hcall
  obtain ⟨hunread, hwrite, hlength⟩ := pops_unread hpops hspares
  refine ⟨⟨h.laid.ack hcall, ?_, ?_⟩, hlength⟩
  · rw [hunread, hwrite]
    exact h.chained
  · rw [hunread]
    exact h.solid

end SendQueue

/-! ## The calls before the transmit loop -/

/-- Between the end of the segment sent last and the write cursor lies what is to be sent; there
is room for `n` more records, and nothing was put out since the trace was `base`. -/
structure Level (base : List Action) (w : World) (n : Nat) : Prop where
  ready : w.conn.txQueue.Ready w.conn.nextOutgoingSeqnbr
  room : w.conn.txQueue.queued.length + n ≤ 100
  silent : ∃ acts, w.trace = base ++ acts ∧ ∀ a ∈ acts, outputOf a = none

/-- An application that calls at most `k` times when it is handed data, and
sends nothing empty. -/
structure Frugal (env : Environment) (k : Nat) : Prop where
  few : ∀ trace data, (env.onReceive trace data).length ≤ k
  solid : ∀ trace data bytes, AppCall.send bytes ∈ env.onReceive trace data →
    UInt32.ofNat bytes.length ≠ 0

namespace Level

variable {base : List Action} {w w' : World} {n : Nat}

theorem mono {m : Nat} (h : Level base w n) (hle : m ≤ n) : Level base w m :=
  ⟨h.ready, Nat.le_trans (Nat.add_le_add_left hle _) h.room, h.silent⟩

theorem frame (h : Level base w n) (htx : w'.conn.txQueue = w.conn.txQueue)
    (hnext : w'.conn.nextOutgoingSeqnbr = w.conn.nextOutgoingSeqnbr)
    (htrace : w'.trace = w.trace) : Level base w' n :=
  ⟨by rw [htx, hnext]; exact h.ready, by rw [htx]; exact h.room, by rw [htrace]; exact h.silent⟩

theorem log (h : Level base w n) {a : Action} (ha : outputOf a = none) :
    Level base (w.log a) n := by
  obtain ⟨acts, htrace, hacts⟩ := h.silent
  refine ⟨h.ready, h.room, acts ++ [a], ?_, ?_⟩
  · show w.trace ++ [a] = _
    rw [htrace, append_assoc]
  · intro b hb
    rcases mem_append.mp hb with hb | hb
    · exact hacts b hb
    · rw [mem_singleton] at hb
      rw [hb]
      exact ha

theorem transition (h : Level base w n) (state : ConnectionState) :
    Level base (w.transition state) n :=
  Level.log (h.frame rfl rfl rfl : Level base (w.withState state) n) rfl

theorem transmit (h : Level base w (n + 1)) {flags : UInt16} {data : Bytes}
    {length sendLength : UInt32} (hshort : sendLength.toNat ≤ length.toNat) (hsolid : length ≠ 0)
    (hcall : w.transmit flags data length sendLength = .ok w') : Level base w' n := by
  obtain ⟨r, txQueue, hwrite, rfl⟩ := transmit_ok hcall
  have hroom := h.room
  obtain ⟨hready, _⟩ := h.ready.writeBack (by omega) hshort hsolid hwrite
  have hw : Level base (w.withTx txQueue) n := by
    refine ⟨hready, ?_, h.silent⟩
    show txQueue.queued.length + n ≤ 100
    omega
  exact hw.log rfl

theorem close (h : Level base w (n + 1)) (hcall : w.close = .ok w') : Level base w' n := by
  unfold World.close World.activeClose at hcall
  split at hcall
  · obtain ⟨w1, htransmit, hcall⟩ := bind_ok.mp hcall
    cases hcall
    exact (h.transmit (by decide) (by decide) htransmit).transition _
  · cases hcall
    exact h.mono (Nat.le_succ n)

theorem sendData (h : Level base w (n + 1)) {data : List UInt8}
    (hsolid : UInt32.ofNat data.length ≠ 0) (hcall : w.sendData data = .ok w') : Level base w' n :=
  h.transmit (Nat.le_refl _) hsolid hcall

theorem appCalls (calls : List AppCall) : ∀ {w w' : World},
    (∀ bytes, AppCall.send bytes ∈ calls → UInt32.ofNat bytes.length ≠ 0) →
    Level base w (calls.length + n) → World.appCalls calls w = .ok w' → Level base w' n := by
  induction calls with
  | nil =>
    intro w w' _ h hcall
    cases hcall
    rwa [length_nil, Nat.zero_add] at h
  | cons c cs ih =>
    intro w w' hsolid h hcall
    rw [World.appCalls, bind_ok] at hcall
    obtain ⟨w1, hc, hcall⟩ := hcall
    have hroom : (c :: cs).length + n = (cs.length + n) + 1 := by
      rw [length_cons]
      omega
    rw [hroom] at h
    have h1 : Level base w1 (cs.length + n) := by
      cases c with
      | send data => exact h.sendData (hsolid data (by simp)) hc
      | close => exact h.close hc
    exact ih (fun bytes hb => hsolid bytes (mem_cons_of_mem _ hb)) h1 hcall

theorem markForDestruction (h : Level base w n) (hcall : w.markForDestruction = .ok w') :
    Level base w' n := by
  obtain ⟨table, _, rfl⟩ := markForDestruction_ok hcall
  exact Level.log (h.frame rfl rfl rfl : Level base { w with table } n) rfl

variable {env : Environment} {k : Nat}

theorem sequencedRecv (happ : Frugal env k) {segment : RecvSegment} {data : List UInt8}
    (h : Level base w (max 1 k + n)) (hcall : w.sequencedRecv env segment data = .ok w') :
    Level base w' n := by
  have hone : Level base w (n + 1) := h.mono (by omega)
  have hnone : Level base w n := h.mono (by omega)
  unfold World.sequencedRecv at hcall
  split at hcall
  · -- SYN_RCVD
    split at hcall
    · exact hone.transmit (by decide) (by decide) hcall
    · cases hcall
      exact hnone
  · -- ESTABLISHED
    split at hcall
    · obtain ⟨w1, htransmit, hcall⟩ := bind_ok.mp hcall
      cases hcall
      exact (hone.transmit (by decide) (by decide) htransmit).transition _
    unfold World.onFullReceive at hcall
    split at hcall
    · have hfew := happ.few w.trace data
      refine appCalls _ (happ.solid w.trace data) ?_ hcall
      exact (h.mono (by omega)).log rfl
    · cases hcall
      exact hnone
  · -- FIN_WAIT_2
    split at hcall
    · exact hnone.markForDestruction hcall
    · cases hcall
      exact hnone
  all_goals
    cases hcall
    exact hnone

/-- The receive loop. Every turn takes a record off the receive queue, and
at most so many places in the send queue. -/
theorem receiveLoop (happ : Frugal env k) (fuel : Nat) : ∀ {w w' : World}, w.conn.rxQueue.WF →
    Level base w (w.conn.rxQueue.segments.size * max 1 k + n) →
    World.receiveLoop env fuel w = .ok w' → Level base w' n := by
  induction fuel with
  | zero =>
    intro w w' _ _ hcall
    exact absurd hcall (by simp [World.receiveLoop])
  | succ fuel ih =>
    intro w w' hwf h hcall
    rcases World.receiveLoop_cases env hcall with
      ⟨rfl, _⟩ | ⟨fuel', segment, data, rxQueue, w1, hfuel, _, hread, hseq, hloop⟩
    · exact h.mono (Nat.le_add_left _ _)
    cases hfuel
    obtain ⟨_, _, _, _, _, _, hwf1, _, _, hsize, _⟩ := readOneSegment_ok hwf hread
    have hrx := World.sequencedRecv_rxQueue env hseq
    rw [← hsize, Nat.add_mul] at h
    have hrest : Level base (w.withRx rxQueue) (max 1 k + (rxQueue.segments.size * max 1 k + n)) :=
      (h.mono (by omega)).frame rfl rfl rfl
    have h1 : Level base w1 (rxQueue.segments.size * max 1 k + n) :=
      sequencedRecv happ (hrest.log rfl) hseq
    refine ih ?_ ?_ hloop
    · rw [hrx]
      exact hwf1
    · rw [hrx]
      exact h1

theorem handleAck (h : Level base w n) {metadata : SegmentMetadata}
    (hspares : hasFlag metadata.flags ACK = true →
      w.conn.txQueue.SparesUnsent metadata.tcpHeader.ackNbr)
    (hcall : w.handleAck metadata = .ok w') : Level base w' n := by
  unfold World.handleAck at hcall
  split at hcall
  next hack =>
    obtain ⟨txQueue, htx, hcall⟩ := bind_ok.mp hcall
    obtain ⟨hready, hlength⟩ := h.ready.ack (hspares hack) htx
    have hw : Level base (w.withTx txQueue) n :=
      ⟨hready, Nat.le_trans (Nat.add_le_add_right hlength n) h.room, h.silent⟩
    simp only at hcall
    split at hcall
    · -- the remote end has consumed everything
      unfold World.remoteConsumedAll at hcall
      split at hcall
      · exact hw.markForDestruction hcall
      · exact hw.markForDestruction hcall
      · cases hcall
        exact hw.transition _
      all_goals
        cases hcall
        exact hw
    · cases hcall
      exact hw
  · cases hcall
    exact h

theorem earlyRecv {metadata : SegmentMetadata} {data : Bytes} {length : UInt32} (h : Level base w n)
    (harrival : World.Arrival w metadata data length w') : Level base w' n := by
  have hlog : Level base (w.log (.received metadata length)) n := h.log rfl
  cases harrival with
  | ignored => exact hlog
  | accepted | sequenced | finSequenced => exact hlog.frame rfl rfl rfl
  | established => exact hlog.transition _
  | @closing _ rxQueue =>
    have hrx : Level base ((w.log (.received metadata length)).withRx rxQueue) n :=
      hlog.frame rfl rfl rfl
    exact hrx.transition _

end Level

/-! ## The transmit loop -/

/-- An ACK without payload, SYN and FIN is numbered `n`. -/
def NumberedAt (n : SequenceNumber) (a : Action) : Prop :=
  ∀ destination header, a = .output destination header [] →
    hasFlag header.flagsHdrsz SYN = false → hasFlag header.flagsHdrsz FIN = false →
    header.seqNbr = n

theorem hasFlag_outgoing (flags : UInt16) :
    hasFlag ((flags &&& (0x1FF : UInt16)) ||| ((5 : UInt16) <<< (12 : UInt16))) SYN
        = hasFlag flags SYN ∧
      hasFlag ((flags &&& (0x1FF : UInt16)) ||| ((5 : UInt16) <<< (12 : UInt16))) FIN
        = hasFlag flags FIN := by
  have hmask (bit : UInt16) (hin : (0x1FF : UInt16) &&& bit = bit)
      (hout : ((5 : UInt16) <<< (12 : UInt16)) &&& bit = 0) :
      ((flags &&& (0x1FF : UInt16)) ||| ((5 : UInt16) <<< (12 : UInt16))) &&& bit
        = flags &&& bit := by
    rw [or_and_mask, UInt16.and_assoc, hin, hout, UInt16.or_zero]
  unfold hasFlag
  rw [hmask SYN (by decide) (by decide), hmask FIN (by decide) (by decide)]
  exact ⟨rfl, rfl⟩

section Steps

variable (env : Environment)

theorem sent_adds (w : World) {flags : UInt16} {seqnbr : SequenceNumber} {data : List UInt8}
    (hsolid : data.length ≠ 0) (n : SequenceNumber) :
    Adds (NumberedAt n) w (w.sent env flags seqnbr data) := by
  refine ⟨_, rfl, ?_⟩
  intro a ha
  rw [mem_singleton] at ha
  subst ha
  intro destination header ha hsyn hfin
  injection ha with _ hheader hpayload
  subst hheader
  have hflags := hasFlag_outgoing (flags ||| ACK)
  have hsyn' : hasFlag (flags ||| ACK) SYN = false := hflags.1.symm.trans hsyn
  have hfin' : hasFlag (flags ||| ACK) FIN = false := hflags.2.symm.trans hfin
  -- so the payload was not left out
  have hbare : bare flags data.length = false := by
    rw [bare, hsyn', hfin']
    simpa using hsolid
  rw [payload, hbare] at hpayload
  exact absurd (congrArg length hpayload) hsolid

/-- The transmit loop sends everything up to the write cursor, and nothing
without payload but SYNs and FINs. -/
theorem transmitLoop_ready (fuel : Nat) : ∀ {w w' : World} {a : SequenceNumber},
    w.conn.txQueue.Ready a → (w.conn.txQueue.unread = [] → w.conn.nextOutgoingSeqnbr = a) →
    World.transmitLoop env fuel w = .ok w' →
    w'.conn.txQueue.Ready w'.conn.nextOutgoingSeqnbr ∧
      w'.conn.txQueue.writePos = w.conn.txQueue.writePos ∧
      ∀ n, Adds (NumberedAt n) w w' := by
  induction fuel with
  | zero =>
    intro w w' a _ _ hcall
    exact absurd hcall (by simp [transmitLoop])
  | succ fuel ih =>
    intro w w' a h hnext hcall
    have hclear := clear_of_transmitLoop env (fuel + 1) h.laid hcall
    cases hu : w.conn.txQueue.unread with
    | nil =>
      have hno : w.conn.txQueue.hasReadable = false := by
        rw [h.laid.hasReadable_eq, hu]
        rfl
      rw [transmitLoop, if_neg (by simp [hno])] at hcall
      cases hcall
      refine ⟨?_, rfl, fun n => Adds.refl w⟩
      rw [hnext hu]
      exact h
    | cons s rest =>
      obtain ⟨hact, hlt, hrest⟩ := SendQueue.unread_read h.laid hu
      obtain ⟨_, hturn⟩ := transmitLoop_turn env h.laid hu
        (hclear.sendable s (by rw [hu]; simp)) (hclear.first s rest hu) fuel
      rw [hturn] at hcall
      have hlen := h.laid.length_slice (mem_of_getElem? hact)
      have hchained := h.chained
      rw [hu] at hchained
      have hsolid : s.dataLength ≠ 0 := h.solid s (by rw [hu]; simp)
      -- the rest of the queue begins where this record ends
      have hready : SendQueue.Ready { w.conn.txQueue with readPos := w.conn.txQueue.readPos + 1 }
          (s.seqnbr + s.dataLength) := by
        refine ⟨h.laid.read hlt, ?_, ?_⟩
        · rw [hrest]
          exact hchained.2
        · intro t ht
          rw [hrest] at ht
          exact h.solid t (by rw [hu]; exact mem_cons_of_mem _ ht)
      have hend : s.seqnbr + UInt32.ofNat (w.conn.txQueue.slice s).length
          = s.seqnbr + s.dataLength := by
        rw [hlen, UInt32.ofNat_toNat]
      obtain ⟨hready', hwrite, houts⟩ := ih (by exact hready) (fun _ => by exact hend) hcall
      refine ⟨hready', hwrite, ?_⟩
      intro n
      refine Adds.trans ?_ (houts n)
      refine sent_adds env _ ?_ n
      rw [hlen]
      intro hzero
      exact hsolid (eq_iff_toNat.mpr hzero)

theorem Level.adds {base : List Action} {w : World} {n : Nat} (h : Level base w n) {w0 : World}
    (hbase : w0.trace = base) (m : SequenceNumber) : Adds (NumberedAt m) w0 w := by
  obtain ⟨acts, htrace, hacts⟩ := h.silent
  refine ⟨acts, by rw [hbase]; exact htrace, ?_⟩
  intro a ha destination header heq
  have hnone := hacts a ha
  rw [heq] at hnone
  exact absurd hnone (by simp [outputOf])

theorem step_ready {k : Nat} (happ : Frugal env k) (w0 : World) {fuel : Nat} {w w' : World}
    (hrx : w.conn.rxQueue.WF) (h : Level w0.trace w (w.conn.rxQueue.segments.size * max 1 k))
    (hcall : w.step env fuel = .ok w') :
    w'.conn.txQueue.Ready w'.conn.nextOutgoingSeqnbr ∧
      Adds (NumberedAt w'.conn.txQueue.writePos) w0 w' := by
  rw [step, bind_ok] at hcall
  obtain ⟨received, _, hcall⟩ := hcall
  obtain ⟨w1, hloop, hcall⟩ := bind_ok.mp hcall
  have h1 : Level w0.trace w1 0 := Level.receiveLoop happ _ hrx h hloop
  split at hcall
  next hidle =>
    -- nothing waits, so the cached number is the write cursor
    rw [Bool.and_eq_true, h1.ready.laid.hasReadable_eq] at hidle
    have hunread : w1.conn.txQueue.unread = [] := by simpa using hidle.2
    have hcursor : w1.conn.nextOutgoingSeqnbr = w1.conn.txQueue.writePos := by
      have hchained := h1.ready.chained
      rw [hunread] at hchained
      exact hchained
    have hsame : w1.conn.nextOutgoingSeqnbr + UInt32.ofNat 0 = w1.conn.nextOutgoingSeqnbr :=
      UInt32.add_zero _
    obtain ⟨hready, hwrite, hadds⟩ := transmitLoop_ready env fuel
      (w := w1.sent env 0 w1.conn.nextOutgoingSeqnbr []) (by exact h1.ready)
      (fun _ => hsame) hcall
    refine ⟨hready, Adds.trans (h1.adds rfl _) (Adds.trans ?_ (hadds _))⟩
    refine ⟨_, rfl, ?_⟩
    intro a ha destination header heq _ _
    rw [mem_singleton] at ha
    rw [ha] at heq
    injection heq with _ hheader _
    rw [← hheader, hwrite]
    exact hcursor
  · obtain ⟨hready, _, hadds⟩ := transmitLoop_ready env fuel h1.ready (fun _ => rfl) hcall
    exact ⟨hready, Adds.trans (h1.adds rfl _) (hadds _)⟩

end Steps

/-! ## Careful runs -/

/-- There is room in the send queue for all that the segments in the receive
queue, and one more, can lead to. -/
def Roomy (k : Nat) (w : World) : Prop :=
  w.conn.txQueue.queued.length + (w.conn.rxQueue.segments.size + 1) * max 1 k ≤ 100

/-- The remote end acknowledges only what was sent, and the application never
finds the send queue full and sends nothing empty. -/
def Careful (k : Nat) (w : World) : Event → Prop
  | .received metadata _ _ =>
    (hasFlag metadata.flags ACK = true →
      w.conn.txQueue.SparesUnsent metadata.tcpHeader.ackNbr) ∧ Roomy k w
  | .stepped => Roomy k w
  | .closed => w.conn.txQueue.queued.length < 100
  | .sent data => w.conn.txQueue.queued.length < 100 ∧ UInt32.ofNat data.length ≠ 0
  | .elsewhere _ => True

def CarefulStep (env : Environment) (k : Nat) (w w' : World) : Prop :=
  ∃ fuel event, Careful k w event ∧ w.perform env fuel event = .ok w'

abbrev CarefulRun (env : Environment) (k : Nat) : World → Prop :=
  Reach (Born env) (CarefulStep env k)

variable {w w' : World}

structure Steady (w : World) : Prop where
  settled : Settled w
  ready : w.conn.txQueue.Ready w.conn.nextOutgoingSeqnbr

theorem Steady.level (h : Steady w) {n : Nat} (hroom : w.conn.txQueue.queued.length + n ≤ 100) :
    Level w.trace w n :=
  ⟨h.ready, hroom, [], by simp, by simp⟩

theorem World.Arrival.size_le {metadata : SegmentMetadata} {data : Bytes} {length : UInt32}
    (hwf : w.conn.rxQueue.WF) (h : World.Arrival w metadata data length w') :
    w'.conn.rxQueue.segments.size ≤ w.conn.rxQueue.segments.size + 1 := by
  cases h with
  | ignored | accepted | established => exact Nat.le_succ _
  | sequenced state call => exact insert_size hwf.segments call
  | closing state fin empty call => exact insert_size hwf.segments call
  | finSequenced state fin empty call => exact insert_size hwf.segments call

section Runs

variable {env : Environment} {k : Nat}

variable {w : World}

theorem Steady.perform (happ : Frugal env k) {fuel : Nat} {event : Event} {w' : World}
    (h : Steady w) (hcareful : Careful k w event) (hcall : w.perform env fuel event = .ok w') :
    Steady w' ∧ Adds (NumberedAt w'.conn.txQueue.writePos) w w' := by
  have hsettled := h.settled.perform env hcall
  cases event with
  | received metadata data length =>
    obtain ⟨hspares, hroom⟩ := hcareful
    obtain ⟨w1, hearly, hcall⟩ := bind_ok.mp hcall
    obtain ⟨w2, hack, hstep⟩ := bind_ok.mp hcall
    have harrival := World.earlyRecv_arrival hearly
    have h1 := (h.level hroom).earlyRecv harrival
    have h2 : Level w.trace w2 _ := h1.handleAck (by rw [harrival.txQueue_eq]; exact hspares) hack
    -- the arrival has added at most one record
    have hrx : w2.conn.rxQueue = w1.conn.rxQueue := World.handleAck_rxQueue hack
    have hsize : w2.conn.rxQueue.segments.size * max 1 k
        ≤ (w.conn.rxQueue.segments.size + 1) * max 1 k := by
      rw [hrx]
      exact Nat.mul_le_mul_right _ (harrival.size_le h.settled.wf)
    obtain ⟨hready, hadds⟩ := step_ready env happ w
      (by rw [hrx]; exact harrival.rxQueue_wf h.settled.wf) (h2.mono hsize) hstep
    exact ⟨⟨hsettled, hready⟩, hadds⟩
  | stepped =>
    have hlevel := (h.level hcareful).mono (Nat.mul_le_mul_right (max 1 k) (Nat.le_succ _))
    obtain ⟨hready, hadds⟩ := step_ready env happ w h.settled.wf hlevel hcall
    exact ⟨⟨hsettled, hready⟩, hadds⟩
  | closed =>
    have hlevel : Level w.trace w' 0 := Level.close (h.level hcareful) hcall
    exact ⟨⟨hsettled, hlevel.ready⟩, hlevel.adds rfl _⟩
  | sent data =>
    have hlevel : Level w.trace w' 0 := Level.sendData (h.level hcareful.1) hcareful.2 hcall
    exact ⟨⟨hsettled, hlevel.ready⟩, hlevel.adds rfl _⟩
  | elsewhere table =>
    cases hcall
    exact ⟨⟨hsettled, h.ready⟩, Adds.refl w⟩

theorem syn_read {q q' : ReceiveQueue} {seqNbr : SequenceNumber} {flags : UInt16} {r b : Bool}
    (hins : (q.reset seqNbr).insert ⟨flags, seqNbr, 0⟩ phantom 1 = .ok (r, q'))
    (hreadable : q'.hasReadable = .ok b) :
    b = true ∧ ∀ len segment bytes q'', q'.readOneSegment len = .ok (segment, bytes, q'') →
      segment = ⟨flags, seqNbr, 1⟩ ∧ q''.hasReadable = .ok false := by
  obtain ⟨q1, hins1⟩ := insert_syn q seqNbr flags
  cases hins.symm.trans hins1
  rcases insert_ok_cases (reset_wf q seqNbr) hins with
    ⟨hr, _⟩ | ⟨_, _, _, hwf, hrc, _, i, _, hl⟩
  · exact absurd hr (by decide)
  -- there is one record only
  have honly : ∀ j s, q'.stored j = some s → j = i ∧ s = ⟨flags, seqNbr, 1⟩ := by
    intro j s hj
    rw [hl] at hj
    by_cases hji : j = i
    · rw [if_pos hji] at hj
      exact ⟨hji, (Option.some.inj hj).symm⟩
    · rw [if_neg hji] at hj
      simp at hj
  constructor
  · have hstored : q'.stored i = some ⟨flags, seqNbr, 1⟩ := by rw [hl, if_pos rfl]
    rcases findFrontSegment_cases hwf with ⟨j, s, _, hf⟩ | ⟨he, _⟩
    · rw [hasReadable_front hwf hf, (honly j s hf.stored).2, hrc] at hreadable
      have hb := Except.ok.inj hreadable
      rw [← hb]
      exact beq_self_eq_true seqNbr
    · rw [hasReadable, if_neg (size_ne_zero hwf hstored), he] at hreadable
      simp at hreadable
  · intro len segment bytes q'' hread
    obtain ⟨j, hfront, _, _, _, _, hwf'', _, _, _, hl''⟩ := readOneSegment_ok hwf hread
    obtain ⟨hji, hsegment⟩ := honly j segment hfront.stored
    refine ⟨hsegment, ?_⟩
    have hempty : q''.segments.size = 0 := by
      rw [hwf''.segments.size_eq_zero]
      intro m
      show q''.stored m = none
      rw [hl'']
      split
      · rfl
      next hm =>
        cases hstored : q'.stored m with
        | none => rfl
        | some s => exact absurd ((honly m s hstored).1.trans hji.symm) hm
    rw [hasReadable, if_pos hempty]

theorem reset_ready (q : SendQueue) (isn : SequenceNumber) : (q.reset isn).Ready isn := by
  have hunread : (q.reset isn).unread = [] := by
    unfold SendQueue.unread
    rw [SendQueue.queued_reset, drop_nil]
  refine ⟨SendQueue.reset_laid q isn, ?_, ?_⟩
  · rfl
  · rw [hunread]
    simp

theorem sequencedRecv_syn {w' : World} {segment : RecvSegment} {data : List UInt8}
    (hstate : w.conn.state = .SYN_RCVD) (hsyn : hasFlag segment.flags SYN = true)
    (h : w.sequencedRecv env segment data = .ok w') : w.transmit SYN phantom 1 0 = .ok w' := by
  unfold sequencedRecv at h
  rw [hstate] at h
  simp only [hsyn, if_true] at h
  exact h

theorem Born.steady (h : Born env w) : Steady w := by
  refine ⟨Born.settled env h, ?_⟩
  obtain ⟨table, metadata, connIdx, table', client, fuel, hsyn, haccept, hget, hstep⟩ := h
  obtain ⟨r, rxQueue, hinsert, rfl⟩ := acceptSyn_ok haccept hget
  rw [step, bind_ok] at hstep
  obtain ⟨received, hreadable, hstep⟩ := hstep
  obtain ⟨w1, hloop, hstep⟩ := bind_ok.mp hstep
  obtain ⟨hreceived, hread⟩ := syn_read hinsert hreadable
  subst hreceived
  -- the first turn of the loop reads the SYN
  rcases receiveLoop_cases env hloop with
    ⟨_, hnone⟩ | ⟨fuel1, segment, data, rxQueue1, w2, _, _, hsegment, hseq, hrest⟩
  · exact absurd (hreadable.symm.trans hnone) (by simp)
  obtain ⟨hsegment, hdrained⟩ := hread _ _ _ _ hsegment
  have hflag : hasFlag segment.flags SYN = true := by
    rw [hsegment]
    exact hsyn
  obtain ⟨r', txQueue, hwrite, rfl⟩ := transmit_ok (sequencedRecv_syn (by rfl) hflag hseq)
  -- and its answer is the one thing to be sent
  have hfresh := reset_ready (Connection.new .wildcard .wildcard .SYN_RCVD).txQueue 0xDEADBEEF
  obtain ⟨hready, _⟩ := hfresh.writeBack (by decide) (by decide) (by decide) hwrite
  rcases receiveLoop_cases env hrest with ⟨rfl, _⟩ | ⟨_, _, _, _, _, _, hmore, _⟩
  · rcases SendQueue.unread_writeBack hfresh.laid (by decide) hwrite with ⟨hlong, _⟩ | ⟨hunread, _⟩
    · exact absurd hlong (by decide)
    have hwaiting : txQueue.unread ≠ [] := by
      rw [hunread]
      simp
    have hsome : txQueue.hasReadable = true := by
      rw [hready.laid.hasReadable_eq]
      simpa using hwaiting
    simp only [log, withTx, hsome, Bool.not_true, Bool.and_false, Bool.false_eq_true,
      if_false, ok_bind] at hstep
    exact (transmitLoop_ready env fuel (by exact hready) (fun hnil => absurd hnil hwaiting) hstep).1
  · exact absurd (hdrained.symm.trans hmore) (by simp)

theorem CarefulRun.steady (happ : Frugal env k) (h : CarefulRun env k w) : Steady w :=
  h.invariant (fun _ hborn => hborn.steady)
    (fun _ _ _ ih ⟨_, _, hcareful, hcall⟩ => (ih.perform happ hcareful hcall).1)

end Runs

/-! ## What is consumed is acknowledged -/

/-- A segment was taken off the receive queue between `w` and `w'`. -/
def Consumes (w w' : World) : Prop :=
  ∃ segment cursor, Action.consumed segment cursor ∈ w'.trace.drop w.trace.length

/-- An acknowledgment went out: the last segment sent carries the read cursor,
and an ACK without payload, SYN and FIN the write cursor. -/
structure Acknowledged (w w' : World) : Prop where
  sent : w.sends w' ≠ []
  cursor : ∃ destination header payload,
    (w.sends w').getLast? = some (destination, header, payload) ∧
      header.ackNbr = w'.conn.rxQueue.readCursor
  numbered : ∀ destination header, (destination, header, []) ∈ w.sends w' →
    hasFlag header.flagsHdrsz SYN = false → hasFlag header.flagsHdrsz FIN = false →
    header.seqNbr = w'.conn.txQueue.writePos

theorem Adds.not_consumes (h : Adds Inert w w') : ¬ Consumes w w' := by
  obtain ⟨acts, htrace, hacts⟩ := h
  rintro ⟨segment, cursor, hmem⟩
  rw [htrace, drop_left] at hmem
  exact absurd (hacts _ hmem).1 (by simp [consumedAt])

section Calls

variable (env : Environment)

variable {w w' : World}

theorem World.Arrival.adds {metadata : SegmentMetadata} {data : Bytes} {length : UInt32}
    (h : World.Arrival w metadata data length w') : Adds Inert w w' := by
  have hlog : Adds Inert w (w.log (.received metadata length)) := (Adds.refl w).log ⟨rfl, rfl⟩
  cases h with
  | established => exact hlog.log ⟨rfl, rfl⟩
  | closing => exact hlog.log ⟨rfl, rfl⟩
  | _ => exact hlog

theorem World.handleAck_adds {metadata : SegmentMetadata} (h : w.handleAck metadata = .ok w') :
    Adds Inert w w' := by
  unfold handleAck at h
  split at h
  · obtain ⟨txQueue, _, h⟩ := bind_ok.mp h
    simp only at h
    split at h
    · unfold remoteConsumedAll at h
      split at h
      · obtain ⟨table, _, rfl⟩ := markForDestruction_ok h
        exact (Adds.refl w).log ⟨rfl, rfl⟩
      · obtain ⟨table, _, rfl⟩ := markForDestruction_ok h
        exact (Adds.refl w).log ⟨rfl, rfl⟩
      · cases h
        exact (Adds.refl w).log ⟨rfl, rfl⟩
      all_goals
        cases h
        exact Adds.refl w
    · cases h
      exact Adds.refl w
  · cases h
    exact Adds.refl w

theorem World.step_adds {fuel : Nat} (h : w.step env fuel = .ok w')
    (hnone : w.conn.rxQueue.hasReadable ≠ .ok true) : Adds Inert w w' := by
  obtain ⟨w1, hloop, hemits⟩ := step_ok env h
  rcases receiveLoop_cases env hloop with ⟨rfl, _⟩ | ⟨_, _, _, _, _, _, hreadable, _⟩
  · exact Emits.adds env hemits
  · exact absurd hreadable hnone

/-- Whatever is consumed is acknowledged at the end of the same call. -/
theorem World.perform_acks {fuel : Nat} {event : Event} (h : w.perform env fuel event = .ok w')
    (hconsumes : Consumes w w') : w'.AcksCursor := by
  cases event with
  | received metadata data length =>
    obtain ⟨w1, hearly, h⟩ := bind_ok.mp h
    obtain ⟨w2, hack, hstep⟩ := bind_ok.mp h
    by_cases hreadable : w2.conn.rxQueue.hasReadable = .ok true
    · exact step_acks env hstep hreadable
    · have hadds := (earlyRecv_arrival hearly).adds.trans
        ((handleAck_adds hack).trans (step_adds env hstep hreadable))
      exact absurd hconsumes hadds.not_consumes
  | stepped =>
    by_cases hreadable : w.conn.rxQueue.hasReadable = .ok true
    · exact step_acks env h hreadable
    · exact absurd hconsumes (step_adds env h hreadable).not_consumes
  | closed => exact absurd hconsumes (close_adds h).not_consumes
  | sent data => exact absurd hconsumes (sendData_adds h).not_consumes
  | elsewhere table =>
    cases h
    obtain ⟨segment, cursor, hmem⟩ := hconsumes
    simp at hmem

theorem World.AcksCursor.sends_last (h : w'.AcksCursor) {acts : List Action}
    (htrace : w'.trace = w.trace ++ acts) (hacts : acts ≠ []) :
    ∃ destination header payload,
      (w.sends w').getLast? = some (destination, header, payload) ∧
        header.ackNbr = w'.conn.rxQueue.readCursor := by
  obtain ⟨destination, header, payload, hlast, hcursor⟩ := h
  refine ⟨destination, header, payload, ?_, hcursor⟩
  obtain ⟨init, a, rfl⟩ := (eq_nil_or_concat acts).resolve_left hacts
  rw [htrace, concat_eq_append, ← append_assoc, getLast?_concat] at hlast
  rw [sends_append htrace, concat_eq_append, filterMap_append, Option.some.inj hlast]
  exact getLast?_concat

end Calls

/-- **In a careful run every arrival in order is acknowledged as it should
be.** -/
theorem acknowledged_of_careful {env : Environment} {k : Nat} (happ : Frugal env k) {fuel : Nat}
    {event : Event} {w w' : World} (hrun : CarefulRun env k w) (hcareful : Careful k w event)
    (h : w.perform env fuel event = .ok w') (hconsumes : Consumes w w') : Acknowledged w w' := by
  obtain ⟨_, acts, htrace, hnumbered⟩ := (hrun.steady happ).perform happ hcareful h
  have hacts : acts ≠ [] := by
    rintro rfl
    obtain ⟨segment, cursor, hmem⟩ := hconsumes
    rw [htrace, append_nil] at hmem
    simp at hmem
  have hlast := (perform_acks env h hconsumes).sends_last htrace hacts
  refine ⟨?_, hlast, ?_⟩
  · intro hnil
    obtain ⟨_, _, _, hsome, _⟩ := hlast
    rw [hnil] at hsome
    simp at hsome
  · intro destination header hmem hsyn hfin
    rw [sends_append htrace, mem_filterMap] at hmem
    obtain ⟨a, ha, hout⟩ := hmem
    -- an action is the output that it is read as
    have haction : a = .output destination header [] := by
      cases a with
      | output d hd pl =>
        obtain ⟨rfl, rfl, rfl⟩ := hout
        rfl
      | _ => exact absurd hout (by simp [outputOf])
    exact hnumbered a ha destination header haction hsyn hfin

/-! ## A byte that arrives while another one waits -/

/-- An established connection gets one byte in order. Before that, the
application may have made calls that no `step` has followed yet. -/
def byteArrives (calls : List AppCall) (ackNbr : SequenceNumber) :
    Checked (World × World × World × World) := do
  let w0 ← birth World.quiet 2 ConnectionTable.blank (.plain SYN 1000 0)
  let w1 ← w0.onReceive World.quiet 2 (.plain ACK 1001 0xDEADBEF0) phantom 0
  let w2 ← World.appCalls calls w1
  let w3 ← w2.onReceive World.quiet 2 (.plain ACK 1001 ackNbr) phantom 1
  .ok (w0, w1, w2, w3)

theorem byteArrives_calls {calls : List AppCall} {ackNbr : SequenceNumber} {w0 w1 w2 w3 : World}
    (h : byteArrives calls ackNbr = .ok (w0, w1, w2, w3)) :
    Born World.quiet w0 ∧
      w0.onReceive World.quiet 2 (.plain ACK 1001 0xDEADBEF0) phantom 0 = .ok w1 ∧
      World.appCalls calls w1 = .ok w2 ∧
      w2.onReceive World.quiet 2 (.plain ACK 1001 ackNbr) phantom 1 = .ok w3 := by
  obtain ⟨v0, h0, h⟩ := bind_ok.mp h
  obtain ⟨v1, h1, h⟩ := bind_ok.mp h
  obtain ⟨v2, h2, h⟩ := bind_ok.mp h
  obtain ⟨v3, h3, h⟩ := bind_ok.mp h
  cases h
  exact ⟨birth_born quiet (by decide) h0, h1, h2, h3⟩

theorem consumes_of_any
    (h : ((w'.trace.drop w.trace.length).any fun a => (consumedAt a).isSome) = true) :
    Consumes w w' := by
  rw [any_eq_true] at h
  obtain ⟨a, ha, hsome⟩ := h
  cases a with
  | consumed segment cursor => exact ⟨segment, cursor, ha⟩
  | _ => exact absurd hsome (by simp [consumedAt])

theorem frugal_quiet : Frugal World.quiet 0 :=
  ⟨fun _ _ => Nat.le_refl 0, fun _ _ _ hmem => absurd hmem (by simp [quiet])⟩

theorem acknowledged_byte : ∃ w w', CarefulRun World.quiet 0 w ∧ Consumes w w' ∧
    Acknowledged w w' := by
  have hlife : (byteArrives [] 0xDEADBEF0).map (fun (w0, w1, _, w3) =>
      (w0.conn.txQueue.unread, w0.conn.txQueue.queued.length, w0.conn.rxQueue.segments.size,
        w1.conn.txQueue.unread, w1.conn.txQueue.queued.length, w1.conn.rxQueue.segments.size,
        (w3.trace.drop w1.trace.length).any fun a => (consumedAt a).isSome))
      = .ok ([], 1, 0, [], 0, 0, true) := by rfl
  obtain ⟨⟨w0, w1, w2, w3⟩, hw, hseen⟩ := map_ok.mp hlife
  obtain ⟨hborn, h1, h2, h3⟩ := byteArrives_calls hw
  cases h2
  simp only [Prod.mk.injEq] at hseen
  obtain ⟨hunread0, hqueued0, hsize0, hunread1, hqueued1, hsize1, hany⟩ := hseen
  have hroom0 : Roomy 0 w0 := by
    unfold Roomy
    rw [hqueued0, hsize0]
    decide
  have hroom1 : Roomy 0 w1 := by
    unfold Roomy
    rw [hqueued1, hsize1]
    decide
  have hspares {w : World} (hnil : w.conn.txQueue.unread = []) (n : SequenceNumber) :
      w.conn.txQueue.SparesUnsent n := by
    right
    intro s rest hs
    rw [hnil] at hs
    simp at hs
  have hrun : CarefulRun quiet 0 w1 :=
    Reach.step (Reach.init hborn) ⟨2, .received _ _ _, ⟨fun _ => hspares hunread0 _, hroom0⟩, h1⟩
  have hconsumes : Consumes w1 w3 := consumes_of_any hany
  have hcareful : Careful 0 w1 (.received (.plain ACK 1001 0xDEADBEF0) phantom 1) :=
    ⟨fun _ => hspares hunread1 _, hroom1⟩
  exact ⟨w1, w3, hrun, hconsumes, acknowledged_of_careful frugal_quiet hrun hcareful h3 hconsumes⟩

/-- **An ACK numbered below the write cursor**: the byte that waits is acknowledged before it
was sent, and the ACK has the number of that byte. -/
theorem idleAck_behind : ∃ w w' destination header, LifeRun World.quiet w ∧
    w.conn.state = .ESTABLISHED ∧
    w.onReceive World.quiet 2 (.plain ACK 1001 0xDEADBEF1) phantom 1 = .ok w' ∧
    Consumes w w' ∧ w.sends w' = [(destination, header, [])] ∧ header.ackNbr = 1002 ∧
    header.seqNbr = 0xDEADBEF0 ∧ w'.conn.txQueue.writePos = 0xDEADBEF1 ∧
    ¬ Acknowledged w w' := by
  have hlife : (byteArrives [.send [0x61]] 0xDEADBEF1).map (fun (_, _, w2, w3) =>
      (w2.conn.state, w2.numbers w3, w3.conn.txQueue.writePos,
        (w3.trace.drop w2.trace.length).any fun a => (consumedAt a).isSome))
      = .ok (.ESTABLISHED, [(0xDEADBEF0, 1002, ACK, [])], 0xDEADBEF1, true) := by rfl
  obtain ⟨⟨w0, w1, w2, w3⟩, hw, hseen⟩ := map_ok.mp hlife
  obtain ⟨hborn, h1, h2, h3⟩ := byteArrives_calls hw
  simp only [Prod.mk.injEq] at hseen
  obtain ⟨hstate, hnumbers, hwrite, hany⟩ := hseen
  rw [appCalls, bind_ok] at h2
  obtain ⟨w2', hsend, h2⟩ := h2
  cases h2
  have hrun1 : LifeRun quiet w1 := (Reach.init hborn).step ⟨2, .received _ _ _, h1⟩
  have hrun : LifeRun quiet w2 := hrun1.step ⟨2, .sent [0x61], hsend⟩
  obtain ⟨⟨destination, header, payload⟩, hsends, hheader⟩ := map_eq_singleton_iff.mp hnumbers
  simp only [Prod.mk.injEq] at hheader
  obtain ⟨hseq, hack, hflags, rfl⟩ := hheader
  refine ⟨w2, w3, destination, header, hrun, hstate, h3, consumes_of_any hany, hsends, hack,
    hseq, hwrite, ?_⟩
  intro hacked
  -- the flags of the ACK are just that
  have hmask (bit : UInt16) (hin : (0x1FF : UInt16) &&& bit = bit) :
      hasFlag header.flagsHdrsz bit = hasFlag ACK bit := by
    unfold hasFlag
    rw [← hflags, UInt16.and_assoc, hin]
  have hnumber := hacked.numbered destination header (by rw [hsends]; simp)
    (by rw [hmask SYN (by decide)]; decide) (by rw [hmask FIN (by decide)]; decide)
  rw [hseq, hwrite] at hnumber
  exact absurd hnumber (by decide)

end Peos2.Tcp
