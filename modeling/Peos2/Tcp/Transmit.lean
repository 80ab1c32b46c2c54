/-
  Tcp.Transmit — the transmit loop of `connection::step`.

  The loop ends only if every turn hands out a segment, and `send_queue::read_one_segment`
  hands out none when its 32-bit window test fails. It compares `seqnbr + send_length` with
  `_ack_pos + _wndsz`; once the latter has wrapped and the former has not, it fails for a
  segment well inside the window, and nothing in the loop changes that.

  Main results: the loop sends every unread record and ends, and IPv4 takes the segments,
  exactly if the records are clear and their next hop is cached or ARP has room for them
  (`transmitsAll_iff`); just below the border it never ends (`stuck_before_border`).
-/
import Peos2.Lib.Run
import Peos2.Tcp.Handover

namespace Peos2.Tcp

open Peos2.Lib Peos2.Support List
open Peos2.Ipv4 (Sender)
open Peos2.Arp (HwAddr)

/-! ## Reachable send queues -/

namespace SendQueue

inductive Call : SendQueue → SendQueue → Prop
  | write {q q' : SendQueue} {flags : UInt16} {data : Bytes} {dataLength sendLength : UInt32}
      {r : Bool} (shorter : sendLength.toNat ≤ dataLength.toNat)
      (call : q.writeBack ⟨flags, q.writePos, 0, 0⟩ (some data) dataLength sendLength
        = .ok (r, q')) : Call q q'
  | read {q q' : SendQueue} {length : UInt32} {r : Option (SendSegment × List UInt8)}
      (readable : q.hasReadable = true) (call : q.readOneSegment length = .ok (r, q')) :
      Call q q'
  | ack {q q' : SendQueue} {n : SequenceNumber} (call : q.ack n = .ok q') : Call q q'

/-- A queue just after `reset`, whatever its storage held before. -/
def Fresh (q : SendQueue) : Prop := ∃ q0 isn, q = reset q0 isn

def Reachable (q : SendQueue) : Prop := Reach Fresh Call q

variable {q : SendQueue} {s : SendSegment}

theorem Call.laid {q' : SendQueue} (h : Call q q') (hq : q.Laid) : q'.Laid := by
  cases h with
  | write shorter call => exact hq.writeBack shorter call
  | @read length r readable call =>
    have hlt := (hasReadable_iff hq.wf).mp readable
    have hact := getElem?_eq_getElem hlt
    cases r with
    | none =>
      obtain ⟨_, rfl⟩ := readOneSegment_none hq.wf hact call
      exact hq
    | some p =>
      obtain ⟨_, _, _, rfl⟩ := readOneSegment_some hq.wf hact call
      exact hq.read hlt
  | ack call => exact hq.ack call

theorem Reachable.laid (h : Reachable q) : q.Laid := by
  refine Reach.invariant ?_ (fun s s' _ hs hcall => hcall.laid hs) h
  rintro q ⟨q0, isn, rfl⟩
  exact reset_laid q0 isn

/-- Record `s` is caught between the two wraps: `_ack_pos + _wndsz` has passed
the 2^32 border and the end of `s` has not. -/
def Caught (q : SendQueue) (s : SendSegment) : Prop :=
  q.ackPos.toNat + (serialDist s.seqnbr q.ackPos + s.sendLength.toNat) < 4294967296 ∧
    4294967296 ≤ q.ackPos.toNat + 0xFFFF

theorem Laid.outside_iff (h : q.Laid) (hs : s ∈ q.queued) : q.Outside s ↔ q.Caught s := by
  have hfits := h.fits hs
  have hbytes := h.wf.length_bytes
  have hshort := h.shorter s hs
  have ha := toNat_lt_border q.ackPos
  unfold Outside Caught
  rw [gt_iff_lt, lt_iff_toNat, toNat_add_eq, toNat_add_eq, h.window,
      show (0xFFFF : UInt32).toNat = 65535 from rfl]
  rw [serialDist_eq] at hfits ⊢
  omega

theorem Caught.earlier {t : SendSegment} (hshort : s.sendLength.toNat ≤ s.dataLength.toNat)
    (hle : serialDist s.seqnbr q.ackPos + s.dataLength.toNat ≤ serialDist t.seqnbr q.ackPos)
    (h : q.Caught t) : q.Caught s := by
  unfold Caught at h ⊢
  omega

theorem Laid.unread_spaced (h : q.Laid) {t : SendSegment} {rest : List SendSegment}
    (hu : q.unread = s :: t :: rest) :
    serialDist s.seqnbr q.ackPos + s.dataLength.toNat ≤ serialDist t.seqnbr q.ackPos := by
  obtain ⟨lo, hsp⟩ := h.spaced.drop q.readPos.toNat
  rw [show q.queued.drop q.readPos.toNat = s :: t :: rest from hu] at hsp
  exact hsp.2.1

theorem Laid.hasReadable_eq (h : q.Laid) : q.hasReadable = !q.unread.isEmpty := by
  have hiff := hasReadable_iff h.wf
  rcases Nat.lt_or_ge q.readPos.toNat q.queued.length with hlt | hge
  · rw [hiff.mpr hlt, unread, drop_eq_getElem_cons hlt]
    rfl
  · rw [unread, drop_eq_nil_of_le hge]
    rw [Bool.eq_false_iff.mpr (fun hc => absurd (hiff.mp hc) (by omega))]
    rfl

def slice (q : SendQueue) (s : SendSegment) : List UInt8 :=
  (q.bytes.drop (serialDist s.seqnbr q.ackPos)).take s.dataLength.toNat

theorem Laid.length_slice (h : q.Laid) (hs : s ∈ q.queued) :
    (q.slice s).length = s.dataLength.toNat := by
  have := h.fits hs
  rw [slice, length_take, length_drop]
  omega

end SendQueue

/-! ## The loop -/

namespace World

variable (env : Environment)

/-- The record leaves in one packet, if the window test lets it. -/
def Sendable (s : SendSegment) : Prop :=
  bare s.flags s.dataLength.toNat = true ∨ s.dataLength.toNat + 20 < 1500

theorem Sendable.length_le {s : SendSegment} (h : Sendable s) :
    s.dataLength.toNat ≤ stepBufferSize.toNat := by
  have hsize : stepBufferSize.toNat = 20480 := rfl
  rcases h with hbare | _
  · simp only [bare, Bool.or_eq_true, Bool.and_eq_true, beq_iff_eq] at hbare
    omega
  · omega

/-- Action `a` puts record `s` of the queue out, to `destination`, with its flags, its number
and its bytes. -/
def SentAs (q : SendQueue) (destination : Address) (a : Action) (s : SendSegment) : Prop :=
  ∃ header, a = .output destination header (payload s.flags (q.slice s)) ∧
    header.seqNbr = s.seqnbr ∧
    header.flagsHdrsz = ((s.flags ||| ACK) &&& (0x1FF : UInt16)) ||| ((5 : UInt16) <<< (12 : UInt16))

/-- The transmit loop does its work: a read hands out the next record, the loop sends every
unread record once, in order, and ends, and `_ipv4.send` takes every segment. -/
structure TransmitsAll (overflow : Int → Checked Int) (hwaddr : HwAddr) (w : World)
    (sender : Sender) : Prop where
  reads : w.conn.txQueue.hasReadable = true →
    ∃ s data, w.conn.txQueue.queued[w.conn.txQueue.readPos.toNat]? = some s ∧
      w.conn.txQueue.readOneSegment stepBufferSize = .ok (some (s, data),
        { w.conn.txQueue with readPos := w.conn.txQueue.readPos + 1 })
  ends : ∃ fuel w' outs, transmitLoop env fuel w = .ok w' ∧ w'.trace = w.trace ++ outs ∧
    List.Forall₂ (SentAs w.conn.txQueue w.conn.remote.ipaddr) outs w.conn.txQueue.unread ∧
    w'.conn.txQueue.hasReadable = false ∧ ∃ r, passDown overflow hwaddr outs sender = .ok r

/-- Every unread record fits into a packet, and the first one is not caught
between the wraps. -/
structure Clear (q : SendQueue) : Prop where
  sendable : ∀ s ∈ q.unread, Sendable s
  first : ∀ s rest, q.unread = s :: rest → ¬ q.Caught s

theorem transmitLoop_turn {w : World} (h : w.conn.txQueue.Laid) {s : SendSegment}
    {rest : List SendSegment} (hu : w.conn.txQueue.unread = s :: rest) (hsend : Sendable s)
    (hfree : ¬ w.conn.txQueue.Caught s) (fuel : Nat) :
    w.conn.txQueue.readOneSegment stepBufferSize = .ok (some (s, w.conn.txQueue.slice s),
        { w.conn.txQueue with readPos := w.conn.txQueue.readPos + 1 }) ∧
    transmitLoop env (fuel + 1) w = transmitLoop env fuel
      ((w.withTx { w.conn.txQueue with readPos := w.conn.txQueue.readPos + 1 }).sent env s.flags
        s.seqnbr (w.conn.txQueue.slice s)) := by
  obtain ⟨hact, hlt, _⟩ := SendQueue.unread_read h hu
  have hmem : s ∈ w.conn.txQueue.queued := mem_of_getElem? hact
  have hread := SendQueue.readOneSegment_inside h.wf hact
    (fun hc => hfree ((h.outside_iff hmem).mp hc)) (h.fits hmem) hsend.length_le
  refine ⟨hread, ?_⟩
  have hlen := h.length_slice hmem
  rw [transmitLoop, if_pos ((SendQueue.hasReadable_iff h.wf).mpr hlt), hread, ok_bind]
  simp only
  rw [send_eq, if_pos (by
    rw [show ((w.conn.txQueue.bytes.drop (serialDist s.seqnbr w.conn.txQueue.ackPos)).take
      s.dataLength.toNat).length = s.dataLength.toNat from hlen]
    exact hsend), ok_bind]
  rfl

theorem transmitLoop_sends (us : List SendSegment) : ∀ {w : World}, w.conn.txQueue.Laid →
    w.conn.txQueue.unread = us → Clear w.conn.txQueue →
    ∃ w' outs, transmitLoop env (us.length + 1) w = .ok w' ∧ w'.trace = w.trace ++ outs ∧
      List.Forall₂ (SentAs w.conn.txQueue w.conn.remote.ipaddr) outs us ∧
      w'.conn.txQueue.hasReadable = false := by
  induction us with
  | nil =>
    intro w h hu _
    have hno : w.conn.txQueue.hasReadable = false := by
      rw [h.hasReadable_eq, hu]
      rfl
    refine ⟨w, [], ?_, by simp, .nil, hno⟩
    rw [transmitLoop, if_neg (by simp [hno])]
  | cons s rest ih =>
    intro w h hu hclear
    obtain ⟨_, hlt, hrest⟩ := SendQueue.unread_read h hu
    have hsend : Sendable s := hclear.sendable s (by rw [hu]; simp)
    obtain ⟨_, hturn⟩ := transmitLoop_turn env h hu hsend (hclear.first s rest hu) (rest.length + 1)
    -- the rest of the queue is clear as well
    have hclear' : Clear { w.conn.txQueue with readPos := w.conn.txQueue.readPos + 1 } := by
      refine ⟨?_, ?_⟩
      · intro t ht
        rw [hrest] at ht
        exact hclear.sendable t (by rw [hu]; exact mem_cons_of_mem _ ht)
      · intro t rest' hrest' hcaught
        rw [hrest] at hrest'
        subst hrest'
        have hmem : s ∈ w.conn.txQueue.queued :=
          mem_of_mem_drop (show s ∈ w.conn.txQueue.unread by rw [hu]; simp)
        exact hclear.first s _ hu
          (SendQueue.Caught.earlier (h.shorter s hmem) (h.unread_spaced hu) hcaught)
    obtain ⟨w', outs, hloop, htrace, hall, hdone⟩ := @ih
      ((w.withTx { w.conn.txQueue with readPos := w.conn.txQueue.readPos + 1 }).sent env s.flags
        s.seqnbr (w.conn.txQueue.slice s)) (h.read hlt) hrest hclear'
    refine ⟨w', .output w.conn.remote.ipaddr
        ((w.withTx { w.conn.txQueue with readPos := w.conn.txQueue.readPos + 1 }).sentHeader env
          s.flags s.seqnbr (w.conn.txQueue.slice s))
        (payload s.flags (w.conn.txQueue.slice s)) :: outs, ?_, ?_, ?_, hdone⟩
    · rw [length_cons, hturn, hloop]
    · rw [htrace]
      show w.trace ++ [_] ++ outs = _
      rw [append_assoc]
      rfl
    · exact .cons ⟨_, rfl, rfl, rfl⟩ hall

theorem transmitLoop_stuck (fuel : Nat) : ∀ {w : World}, w.conn.txQueue.Laid →
    ∀ s rest, w.conn.txQueue.unread = s :: rest → w.conn.txQueue.Caught s →
    transmitLoop env fuel w = .error .outOfFuel := by
  induction fuel with
  | zero =>
    intro w _ s rest _ _
    rfl
  | succ fuel ih =>
    intro w h s rest hu hcaught
    obtain ⟨hact, hlt, _⟩ := SendQueue.unread_read h hu
    have hmem : s ∈ w.conn.txQueue.queued := mem_of_getElem? hact
    have hread := SendQueue.readOneSegment_outside h.wf hact
      ((h.outside_iff hmem).mpr hcaught) stepBufferSize
    rw [transmitLoop, if_pos ((SendQueue.hasReadable_iff h.wf).mpr hlt), hread, ok_bind]
    exact @ih ((w.withTx w.conn.txQueue).sent env 0 env.stale []) h s rest hu hcaught

theorem clear_of_transmitLoop (fuel : Nat) : ∀ {w w' : World}, w.conn.txQueue.Laid →
    transmitLoop env fuel w = .ok w' → Clear w.conn.txQueue := by
  induction fuel with
  | zero =>
    intro w w' _ hloop
    exact absurd hloop (by simp [transmitLoop])
  | succ fuel ih =>
    intro w w' h hloop
    cases hu : w.conn.txQueue.unread with
    | nil =>
      refine ⟨?_, ?_⟩
      · rw [hu]
        simp
      · intro s rest hc
        rw [hu] at hc
        simp at hc
    | cons s rest =>
      obtain ⟨hact, hlt, hrest⟩ := SendQueue.unread_read h hu
      have hmem : s ∈ w.conn.txQueue.queued := mem_of_getElem? hact
      have hfree : ¬ w.conn.txQueue.Caught s := by
        intro hcaught
        rw [transmitLoop_stuck env (fuel + 1) h s rest hu hcaught] at hloop
        simp at hloop
      rw [transmitLoop, if_pos ((SendQueue.hasReadable_iff h.wf).mpr hlt), bind_ok] at hloop
      obtain ⟨⟨read, tx⟩, hread, hloop⟩ := hloop
      cases read with
      | none =>
        -- only a failed window test hands out nothing
        have hout := (SendQueue.readOneSegment_none h.wf hact hread).1
        exact absurd ((h.outside_iff hmem).mp hout) hfree
      | some p =>
        obtain ⟨seg, data⟩ := p
        obtain ⟨rfl, hlen, _, rfl⟩ := SendQueue.readOneSegment_some h.wf hact hread
        obtain ⟨w1, hsend, hloop⟩ := bind_ok.mp hloop
        have hsend' : (w.withTx { w.conn.txQueue with
            readPos := w.conn.txQueue.readPos + 1 }).send env seg.flags seg.seqnbr data
            = .ok w1 := hsend
        rw [send_eq] at hsend'
        split at hsend'
        next hfit =>
          rw [hlen] at hfit
          cases hsend'
          have hclear := @ih ((w.withTx { w.conn.txQueue with
            readPos := w.conn.txQueue.readPos + 1 }).sent env seg.flags seg.seqnbr data)
            w' (h.read hlt) hloop
          have htail : ∀ t ∈ rest, Sendable t := by
            intro t ht
            refine hclear.sendable t ?_
            rw [← hrest] at ht
            exact ht
          refine ⟨?_, ?_⟩
          · intro t ht
            rw [hu] at ht
            rcases mem_cons.mp ht with rfl | ht
            · exact hfit
            · exact htail t ht
          · intro t rest' hc
            rw [hu] at hc
            cases hc
            exact hfree
        · simp at hsend'

theorem SentAs.toward {q : SendQueue} {destination : Address} {outs : List Action}
    {us : List SendSegment} (h : List.Forall₂ (SentAs q destination) outs us) :
    (∀ a ∈ outs, a.Toward destination) ∧ outs.countP Action.isOutput = us.length := by
  induction h with
  | nil => exact ⟨fun _ ha => absurd ha not_mem_nil, rfl⟩
  | cons hsent _ ih =>
    obtain ⟨header, rfl, _⟩ := hsent
    refine ⟨fun b hb => ?_, ?_⟩
    · rcases mem_cons.mp hb with rfl | hb
      · rfl
      · exact ih.1 b hb
    · rw [countP_cons_of_pos rfl, ih.2, length_cons]

/-- **When the transmit loop does its work**: for every reachable send queue and every reachable
state of IPv4 and ARP, exactly when every unread record fits a packet, the first is not caught
between the wraps, and the next hop is cached or ARP has a callback for each record. -/
theorem transmitsAll_iff {overflow : Int → Checked Int} {hwaddr : HwAddr} (w : World)
    (h : SendQueue.Reachable w.conn.txQueue) {sender : Sender}
    (hsender : Reach Sender.Initial (Sender.Step overflow hwaddr) sender) :
    TransmitsAll env overflow hwaddr w sender ↔ Clear w.conn.txQueue ∧
      (sender.arp.cached (sender.nextHop w.conn.remote.ipaddr) ≠ none ∨
        w.conn.txQueue.unread.length ≤ sender.arp.slots (sender.nextHop w.conn.remote.ipaddr)) := by
  have hl := h.laid
  have hsound := Sender.reach_sound hsender
  -- the segments of the loop are one for each unread record
  have hpass : ∀ outs, List.Forall₂ (SentAs w.conn.txQueue w.conn.remote.ipaddr) outs
      w.conn.txQueue.unread → ((∃ r, passDown overflow hwaddr outs sender = .ok r) ↔ _) :=
    fun outs hall => (passDown_iff overflow hwaddr w.conn.remote.ipaddr outs hsound
      (SentAs.toward hall).1).trans (by rw [Passable, (SentAs.toward hall).2])
  constructor
  · intro ht
    obtain ⟨fuel, w', outs, hloop, _, hall, _, hdown⟩ := ht.ends
    exact ⟨clear_of_transmitLoop env fuel hl hloop, (hpass outs hall).mp hdown⟩
  · rintro ⟨hclear, hroom⟩
    refine ⟨?_, ?_⟩
    · intro hreadable
      rw [hl.hasReadable_eq] at hreadable
      cases hu : w.conn.txQueue.unread with
      | nil =>
        rw [hu] at hreadable
        simp at hreadable
      | cons s rest =>
        obtain ⟨hact, _⟩ := SendQueue.unread_read hl hu
        obtain ⟨hread, _⟩ := transmitLoop_turn env hl hu
          (hclear.sendable s (by rw [hu]; simp)) (hclear.first s rest hu) 0
        exact ⟨s, _, hact, hread⟩
    · obtain ⟨w', outs, hloop, htrace, hall, hdone⟩ :=
        transmitLoop_sends env w.conn.txQueue.unread hl rfl hclear
      exact ⟨_, w', outs, hloop, htrace, hall, hdone, (hpass outs hall).mpr hroom⟩

/-! ## One segment after a reset -/

theorem first_segment (isn : SequenceNumber) :
    ∃ w : World, SendQueue.Reachable w.conn.txQueue ∧ w.conn.remote.ipaddr = 0x0A000009 ∧
      w.conn.txQueue.ackPos = isn ∧
      w.conn.txQueue.queued = [⟨SYN, isn, 1, 0⟩] ∧
      w.conn.txQueue.unread = [⟨SYN, isn, 1, 0⟩] := by
  have hfresh : SendQueue.Fresh
      ((Connection.new ⟨0x0A000009, 80⟩ .wildcard .SYN_RCVD).txQueue.reset isn) := ⟨_, isn, rfl⟩
  have hinit : SendQueue.Reachable
      ((Connection.new ⟨0x0A000009, 80⟩ .wildcard .SYN_RCVD).txQueue.reset isn) := Reach.init hfresh
  obtain ⟨q, hcall, _, _, hqueued, _, hack, hread, _⟩ :=
    (SendQueue.writeBack_spec (SendQueue.reset_wf
      (Connection.new ⟨0x0A000009, 80⟩ .wildcard .SYN_RCVD).txQueue isn)
      ⟨SYN, isn, 0, 0⟩ phantom 1 0).2 (by simp) rfl
  refine ⟨⟨{ Connection.new ⟨0x0A000009, 80⟩ .wildcard .SYN_RCVD with txQueue := q }, .blank, []⟩,
    ?_, rfl, hack, ?_, ?_⟩
  · exact Reach.step hinit (.write (by decide) hcall)
  · rw [hqueued]
    rfl
  · show q.queued.drop q.readPos.toNat = _
    rw [hqueued, hread]
    rfl

/-- The SYN of a server, with its fixed initial number, is sent, and waits in ARP: nothing is
cached yet. -/
theorem transmitsAll_syn : ∃ w : World, w.conn.txQueue.unread = [⟨SYN, 0xDEADBEEF, 1, 0⟩] ∧
    TransmitsAll quiet (fun _ => .error .overflow) [] w Sender.start := by
  obtain ⟨w, hreach, hremote, hack, _, hu⟩ := first_segment 0xDEADBEEF
  have hslots : Sender.start.arp.slots (Sender.start.nextHop 0x0A000009) = 32 := by decide +kernel
  refine ⟨w, hu, (transmitsAll_iff quiet w hreach (Sender.start_reach _ _)).mpr ⟨⟨?_, ?_⟩, .inr ?_⟩⟩
  · intro s hs
    rw [hu, mem_singleton] at hs
    subst hs
    exact Or.inl (by decide)
  · intro s rest hs
    rw [hu] at hs
    cases hs
    unfold SendQueue.Caught
    rw [hack]
    decide
  · rw [hu, hremote, hslots]
    decide

/-- **Just below the border the loop never ends**: one byte with number
0xFFFFFF00 waits, and no bound on the loop is enough. -/
theorem stuck_before_border :
    ∃ w : World, SendQueue.Reachable w.conn.txQueue ∧ w.conn.txQueue.queued.length < 100 ∧
      w.conn.txQueue.unread = [⟨SYN, 0xFFFFFF00, 1, 0⟩] ∧
      (∀ fuel, transmitLoop quiet fuel w = .error .outOfFuel) ∧
      ∀ overflow hwaddr sender, ¬ TransmitsAll quiet overflow hwaddr w sender := by
  obtain ⟨w, hreach, _, hack, hq, hu⟩ := first_segment 0xFFFFFF00
  have hstuck : ∀ fuel, transmitLoop quiet fuel w = .error .outOfFuel := by
    intro fuel
    refine transmitLoop_stuck quiet fuel hreach.laid _ _ hu ?_
    unfold SendQueue.Caught
    rw [hack]
    decide
  refine ⟨w, hreach, ?_, hu, hstuck, ?_⟩
  · rw [hq]
    decide
  · intro overflow hwaddr sender h
    obtain ⟨fuel, w', _, hloop, _⟩ := h.ends
    rw [hstuck fuel] at hloop
    simp at hloop

end World

end Peos2.Tcp
