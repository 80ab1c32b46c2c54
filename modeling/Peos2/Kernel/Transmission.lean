/-
  Kernel.Transmission — what the network card driver makes of the bytes written to it.

  The bytes are a stream of frames: a 16-bit length and that many bytes. A write call
  appends to the ring buffer and hands over every frame that is then complete, however
  the stream was cut into calls. The staging buffer bounds the packets that can be
  handed over, and the ring those that can be complete; the driver checks neither.

  Main results: `transmits_packets`, `staging_safe`, `transmit_holds_iff`.
-/
import Peos2.Kernel.Rtl8139
import Peos2.Lib.Framing
import Peos2.Lib.Run
import Peos2.Support.ByteList

namespace Peos2.Kernel

open Peos2.Lib Peos2.Support List RingBuffer Framing Bytes

/-! ## Frames -/

/-- A 16-bit length, and that many bytes. -/
def packetFraming : Framing UInt8 where
  header := 2
  declared := word16
  header_pos := by decide

/-- The packet as it is written: its length and its bytes. -/
def packetFrame (p : List UInt8) : List UInt8 := bytes16 p.length ++ p

def packetStream (ps : List (List UInt8)) : List UInt8 := (ps.map packetFrame).flatten

theorem word16_bytes16 {n : Nat} (h : n < 65536) : word16 (bytes16 n) = n := by
  show (UInt8.ofNat n).toNat + 256 * (UInt8.ofNat (n / 256)).toNat = n
  rw [UInt8.toNat_ofNat', UInt8.toNat_ofNat']
  omega

theorem packetFraming_heads {p : List UInt8} (h : p.length < 65536) :
    packetFraming.Heads (bytes16 p.length) p := ⟨rfl, word16_bytes16 h⟩

theorem word16_lt (bytes : List UInt8) : word16 bytes < 65536 := by
  have h0 := (bytes.getD 0 0).toNat_lt
  have h1 := (bytes.getD 1 0).toNat_lt
  unfold word16
  omega

theorem first_packet {s p rest : List UInt8} (h : packetFraming.first s = some (p, rest)) :
    2 + p.length ≤ s.length ∧ word16 (s.take 2) = p.length ∧ p = (s.drop 2).take p.length
      ∧ rest = s.drop (2 + p.length) := first_eq_some h

theorem first_packet_none {s : List UInt8} (h : packetFraming.first s = none)
    (hlen : 2 ≤ s.length) : s.length < 2 + word16 (s.take 2) := first_eq_none h hlen

namespace Transmitter

variable (card : Nat → UInt32) {t : Transmitter}

def pending (t : Transmitter) : List UInt8 := t.pendingTx.contents

@[simp] theorem transmit_pendingTx (status : UInt32) (data : Bytes) (length : Nat) :
    (t.transmit status data length).2.pendingTx = t.pendingTx := by
  unfold transmit
  simp only
  split
  · rfl
  · split
    · rfl
    · rfl

@[simp] theorem transmit_transmitted (status : UInt32) (data : Bytes) (length : Nat) :
    (t.transmit status data length).2.transmitted = t.transmitted ++ [data.first length] := by
  unfold transmit
  simp only
  split
  · rfl
  · split
    · rfl
    · rfl

/-! ## One packet -/

theorem first_copied {buf : Bytes} (p : List UInt8) :
    Bytes.first (fun i => if i < p.length then p.getD i 0 else buf i) p.length = p := by
  refine ext_getElem? fun i => ?_
  by_cases hi : i < p.length
  · rw [getElem?_first _ hi, if_pos hi, getD_eq_getElem?_getD, getElem?_eq_getElem hi]
    rfl
  · rw [getElem?_eq_none (by simp; omega), getElem?_eq_none (by omega)]

variable {p rest : List UInt8} {length : Int}

section

variable (hwf : t.pendingTx.WF)

include hwf

section

variable (hfirst : packetFraming.first t.pending = some (p, rest))

include hfirst

theorem sendPacket_eq :
    ∃ b : RingBuffer 10240, b.WF ∧ b.contents = rest ∧ t.sendPacket card p.length
      = (copyToBuf t.buf p >>= fun buf => .ok ({ t with pendingTx := b, buf }.transmit
          (card t.transmitted.length) buf p.length).2) := by
  obtain ⟨_, _, htake, hrest⟩ := first_packet hfirst
  have hbound : t.pending.length ≤ 10240 := hwf.length_le
  -- the header
  obtain ⟨r, b, hconsume, hwfb, hcb, hcount⟩ := consume_spec hwf (by decide) 2
  have hcb : b.contents = t.pending.drop 2 := hcb
  have hr : (r == 2) = true := by
    rw [beq_iff_eq, eq_iff_toNat, hcount]
    show min 2 t.pending.length = 2
    omega
  -- the payload
  have hsize : (UInt32.ofNat p.length).toNat = p.length := toNat_ofNat_lt (by omega)
  obtain ⟨b', hread, hwfb', hcb'⟩ := readFront_spec hwfb (by decide) (UInt32.ofNat p.length)
  rw [hsize, hcb, ← htake] at hread
  rw [hsize, hcb, drop_drop, ← hrest] at hcb'
  refine ⟨b', hwfb', hcb', ?_⟩
  unfold sendPacket
  rw [hconsume, ok_bind]
  simp only [hr, check_true, ok_bind]
  rw [hread, ok_bind]
  simp only [beq_self_eq_true, check_true, ok_bind]

theorem sendPacket_spec (hp : p.length ≤ 1600) :
    ∃ t', t.sendPacket card p.length = .ok t' ∧ t'.pendingTx.WF ∧ t'.pending = rest
      ∧ t'.transmitted = t.transmitted ++ [p] := by
  obtain ⟨b, hwfb, hcb, hsend⟩ := sendPacket_eq card hwf hfirst
  rw [hsend, copyToBuf, if_pos hp, ok_bind]
  refine ⟨_, rfl, ?_, ?_, ?_⟩
  · rw [transmit_pendingTx]
    exact hwfb
  · unfold pending
    rw [transmit_pendingTx]
    exact hcb
  · rw [transmit_transmitted, first_copied]

theorem sendPacket_overflows (hp : 1600 < p.length) :
    t.sendPacket card p.length = .error .outOfBounds := by
  obtain ⟨b, _, _, hsend⟩ := sendPacket_eq card hwf hfirst
  rw [hsend, copyToBuf, if_neg (by omega), error_bind]

end

/-! ## The loop -/

theorem sendPackets_stops (hnone : packetFraming.first t.pending = none)
    (fuel : Nat) : sendPackets card (fuel + 1) t = .ok t := by
  have hsize : t.pendingTx.size.toNat = t.pending.length := hwf.toNat_size (by decide)
  rw [sendPackets]
  split
  next hge =>
    have hlen : 2 ≤ t.pending.length := by
      rw [ge_iff_le, le_iff_toNat, hsize] at hge
      exact hge
    have hpeek : t.pendingTx.peek 0 2 = .ok (t.pending.take 2) :=
      peek_spec hwf (by decide) 0 2 (by unfold pending at hlen; omega)
    have hshort := first_packet_none hnone hlen
    have hword := word16_lt (t.pending.take 2)
    rw [hpeek, ok_bind, if_neg (by rw [length_take]; omega), if_pos]
    rw [lt_iff_toNat, hsize, toNat_ofNat_lt (by omega)]
    exact hshort
  · rfl

theorem sendPackets_turn (hfirst : packetFraming.first t.pending = some (p, rest)) (fuel : Nat) :
    sendPackets card (fuel + 1) t = (t.sendPacket card p.length >>= sendPackets card fuel) := by
  have hbound : t.pending.length ≤ 10240 := hwf.length_le
  have hsize : t.pendingTx.size.toNat = t.pending.length := hwf.toNat_size (by decide)
  obtain ⟨hlen, hdeclared, _⟩ := first_packet hfirst
  have hpeek : t.pendingTx.peek 0 2 = .ok (t.pending.take 2) :=
    peek_spec hwf (by decide) 0 2 (by unfold pending at hlen; omega)
  rw [sendPackets, if_pos, hpeek, ok_bind, if_neg (by rw [length_take]; omega), hdeclared, if_neg]
  · rw [lt_iff_toNat, hsize, toNat_ofNat_lt (by omega)]
    omega
  · rw [ge_iff_le, le_iff_toNat, hsize]
    show 2 ≤ t.pending.length
    omega

end

theorem sendPackets_spec : ∀ (fuel : Nat) (t : Transmitter), t.pendingTx.WF →
    t.pending.length < fuel → (∀ p ∈ (packetFraming.cut t.pending).1, p.length ≤ 1600) →
    ∃ t', sendPackets card fuel t = .ok t' ∧ t'.pendingTx.WF
      ∧ t'.pending = (packetFraming.cut t.pending).2
      ∧ t'.transmitted = t.transmitted ++ (packetFraming.cut t.pending).1 := by
  intro fuel
  induction fuel with
  | zero =>
    intro t _ hfuel _
    omega
  | succ fuel ih =>
    intro t hwf hfuel hsmall
    cases hfirst : packetFraming.first t.pending with
    | none =>
      rw [cut_none hfirst]
      exact ⟨t, sendPackets_stops card hwf hfirst fuel, hwf, rfl, (append_nil _).symm⟩
    | some r =>
      obtain ⟨p, rest⟩ := r
      rw [cut_some hfirst] at hsmall ⊢
      obtain ⟨t1, hsend, hwf1, hpending, htransmitted⟩ :=
        sendPacket_spec card hwf hfirst (hsmall p mem_cons_self)
      have hshort := first_shorter hfirst
      have hsmall1 : ∀ q ∈ (packetFraming.cut t1.pending).1, q.length ≤ 1600 := by
        rw [hpending]
        exact fun q hq => hsmall q (mem_cons_of_mem p hq)
      obtain ⟨t2, hrest, hwf2, hpending2, htransmitted2⟩ :=
        ih t1 hwf1 (by rw [hpending]; omega) hsmall1
      refine ⟨t2, ?_, hwf2, ?_, ?_⟩
      · rw [sendPackets_turn card hwf hfirst, hsend, ok_bind, hrest]
      · rw [hpending2, hpending]
      · rw [htransmitted2, htransmitted, hpending, append_assoc]
        rfl

theorem sendPackets_overflows : ∀ (fuel : Nat) (t : Transmitter), t.pendingTx.WF →
    t.pending.length < fuel → (∃ p ∈ (packetFraming.cut t.pending).1, 1600 < p.length) →
    sendPackets card fuel t = .error .outOfBounds := by
  intro fuel
  induction fuel with
  | zero =>
    intro t _ hfuel _
    omega
  | succ fuel ih =>
    intro t hwf hfuel hlarge
    cases hfirst : packetFraming.first t.pending with
    | none =>
      rw [cut_none hfirst] at hlarge
      obtain ⟨p, hp, _⟩ := hlarge
      cases hp
    | some r =>
      obtain ⟨p, rest⟩ := r
      rw [cut_some hfirst] at hlarge
      have hshort := first_shorter hfirst
      rw [sendPackets_turn card hwf hfirst]
      by_cases hp : p.length ≤ 1600
      · obtain ⟨t1, hsend, hwf1, hpending, _⟩ := sendPacket_spec card hwf hfirst hp
        rw [hsend, ok_bind]
        refine ih t1 hwf1 (by rw [hpending]; omega) ?_
        obtain ⟨q, hq, hlong⟩ := hlarge
        rw [hpending]
        rcases mem_cons.mp hq with rfl | hq
        · omega
        · exact ⟨q, hq, hlong⟩
      · rw [sendPacket_overflows card hwf hfirst (by omega), error_bind]

/-! ## One call -/

/-- How many bytes of a write call are taken, if the ring has room for them. -/
def taken (length : Int) : Nat := (min 10240 length).toNat

theorem capacity_pendingTx (t : Transmitter) : signed t.pendingTx.capacity = 10240 := by
  rfl

theorem toNat_taken (hlength : 0 < length) :
    (unsigned (min 10240 length)).toNat = taken length := by
  rw [toNat_unsigned_of_nonneg (by omega) (by omega), taken]

theorem first_taken {chunk : List UInt8} (hlen : (chunk.length : Int) = length)
    (hle : length ≤ 10240) : (ofList chunk).first (taken length) = chunk := by
  have htaken : taken length = chunk.length := by
    unfold taken
    omega
  rw [first_ofList chunk _ (by omega), htaken, take_length]

theorem first_packetFrame (hlen : (p.length : Int) + 2 = length) (hle : length ≤ 10240) :
    (ofList (packetFrame p)).first (taken length) = packetFrame p ++ [] := by
  rw [append_nil]
  refine first_taken ?_ hle
  rw [packetFrame, length_append]
  show ((2 + p.length : Nat) : Int) = length
  omega

theorem write_refused (hwf : t.pendingTx.WF) (data : Bytes) (hlength : 0 < length)
    (hfull : 10240 < t.pending.length + taken length) : t.write card data length = .ok (0, t) := by
  have hsize := toNat_taken hlength
  have hbound : t.pendingTx.contents.length ≤ 10240 := hwf.length_le
  have hfull : 10240 < t.pendingTx.contents.length + taken length := hfull
  have htaken : taken length ≤ 10240 := by
    unfold taken
    omega
  have hwrite : t.pendingTx.write data (unsigned (min 10240 length)) (-1)
      = .ok (false, t.pendingTx) := by
    rw [RingBuffer.write_sentinel hwf]
    exact RingBuffer.write_refused (by decide) data _ _ (by omega) (by omega)
  unfold write
  rw [decide_eq_true hlength, check_true, ok_bind]
  simp only [capacity_pendingTx]
  rw [hwrite, ok_bind]
  rfl

theorem write_accepted (hwf : t.pendingTx.WF) (data : Bytes) (hlength : 0 < length)
    (hroom : t.pending.length + taken length ≤ 10240) :
    ∃ b : RingBuffer 10240, b.WF ∧ b.contents = t.pending ++ data.first (taken length)
      ∧ t.write card data length = (sendPackets card (b.contents.length + 1)
          { t with pendingTx := b } >>= fun t => .ok (min 10240 length, t)) := by
  have hsize := toNat_taken hlength
  obtain ⟨b, hwrite, hwfb, hcb⟩ := write_append hwf (by decide) data
    (unsigned (min 10240 length)) (by rw [hsize]; exact hroom)
  refine ⟨b, hwfb, by rw [hcb, hsize]; rfl, ?_⟩
  unfold write
  rw [decide_eq_true hlength, check_true, ok_bind]
  simp only [capacity_pendingTx]
  rw [hwrite, ok_bind]
  simp only [Bool.true_eq_false, if_false]
  rw [hwfb.toNat_size (by decide)]

/-- A call that is taken hands over the packets that its bytes complete. -/
theorem write_spec (hwf : t.pendingTx.WF) (data : Bytes) (hlength : 0 < length)
    (hroom : t.pending.length + taken length ≤ 10240)
    (hsmall : ∀ p ∈ (packetFraming.cut (t.pending ++ data.first (taken length))).1,
      p.length ≤ 1600) :
    ∃ t', t.write card data length = .ok (min 10240 length, t') ∧ t'.pendingTx.WF
      ∧ t'.pending = (packetFraming.cut (t.pending ++ data.first (taken length))).2
      ∧ t'.transmitted = t.transmitted
        ++ (packetFraming.cut (t.pending ++ data.first (taken length))).1 := by
  obtain ⟨b, hwfb, hcb, hwrite⟩ := write_accepted card hwf data hlength hroom
  have hpending : ({ t with pendingTx := b } : Transmitter).pending
      = t.pending ++ data.first (taken length) := hcb
  obtain ⟨t', hloop, hwf', hpending', htransmitted⟩ := sendPackets_spec card (b.contents.length + 1)
    { t with pendingTx := b } hwfb (Nat.lt_succ_self _) (by rw [hpending]; exact hsmall)
  rw [hpending] at hpending' htransmitted
  refine ⟨t', ?_, hwf', hpending', htransmitted⟩
  rw [hwrite, hloop, ok_bind]

/-- A call that completes a packet of more than 1600 bytes leaves the staging
buffer. -/
theorem write_overflows (hwf : t.pendingTx.WF) (data : Bytes) (hlength : 0 < length)
    (hroom : t.pending.length + taken length ≤ 10240)
    (hlarge : ∃ p ∈ (packetFraming.cut (t.pending ++ data.first (taken length))).1,
      1600 < p.length) : t.write card data length = .error .outOfBounds := by
  obtain ⟨b, hwfb, hcb, hwrite⟩ := write_accepted card hwf data hlength hroom
  have hpending : ({ t with pendingTx := b } : Transmitter).pending
      = t.pending ++ data.first (taken length) := hcb
  rw [hwrite, sendPackets_overflows card (b.contents.length + 1) { t with pendingTx := b } hwfb
    (Nat.lt_succ_self _) (by rw [hpending]; exact hlarge), error_bind]

/-! ## The interrupt -/

theorem sendDone_frame (statuses : Nat → UInt32) : ∀ (fuel : Nat) (t : Transmitter),
    (sendDone statuses fuel t).pendingTx = t.pendingTx
      ∧ (sendDone statuses fuel t).transmitted = t.transmitted := by
  intro fuel
  induction fuel with
  | zero => exact fun t => ⟨rfl, rfl⟩
  | succ fuel ih =>
    intro t
    rw [sendDone]
    split
    · simp only
      split
      · exact ih { t with txCurSend := t.txCurSend + 1 }
      · exact ⟨rfl, rfl⟩
    · exact ⟨rfl, rfl⟩

theorem intTransmitOk_frame (statuses : Nat → UInt32) (t : Transmitter) :
    (t.intTransmitOk statuses).pendingTx = t.pendingTx
      ∧ (t.intTransmitOk statuses).transmitted = t.transmitted := by
  have hdone := sendDone_frame statuses (t.txCurWrite - t.txCurSend).toNat t
  unfold intTransmitOk
  simp only
  split
  · exact hdone
  · exact hdone

/-! ## A stream of packets, however it is cut -/

/-- What happens to the driver: a process writes, or the card has sent something. -/
inductive Event where
  | write (chunk : List UInt8)
  | interrupt (statuses : Nat → UInt32)

def Event.chunk : Event → List UInt8
  | .write chunk => chunk
  | .interrupt _ => []

/-- An event, and nothing if it is a write that was not accepted in full. -/
def offer (t : Transmitter) : Event → Checked (Option Transmitter)
  | .write chunk => do
      let (accepted, t) ← t.write card (.ofList chunk) chunk.length
      .ok (if accepted = chunk.length then some t else none)
  | .interrupt statuses => .ok (some (t.intTransmitOk statuses))

/-- Events one after the other, as long as the writes are accepted in full. -/
def offers : List Event → Transmitter → Checked (Option Transmitter)
  | [], t => .ok (some t)
  | e :: es, t => do
      match ← t.offer card e with
      | some t => offers es t
      | none => .ok none

def Fresh (t : Transmitter) : Prop := t.pendingTx.Constructed ∧ t.transmitted = []

structure Sent (t : Transmitter) (s : List UInt8) : Prop where
  wf : t.pendingTx.WF
  transmitted : t.transmitted = (packetFraming.cut s).1
  pending : t.pending = (packetFraming.cut s).2

theorem Fresh.sent (h : t.Fresh) : t.Sent [] := by
  have hcut : packetFraming.cut [] = ([], []) := rfl
  have hholds := h.1.holds
  refine ⟨hholds.wf, ?_, ?_⟩
  · rw [h.2, hcut]
  · rw [hcut]
    exact hholds.contents

theorem Sent.write {s chunk : List UInt8} (h : t.Sent s) (hne : chunk ≠ [])
    (hsmall : ∀ p ∈ (packetFraming.cut (s ++ chunk)).1, p.length ≤ 1600) :
    ∃ r, t.offer card (.write chunk) = .ok r ∧ ∀ t', r = some t' → t'.Sent (s ++ chunk) := by
  have hlen : 0 < chunk.length := length_pos_of_ne_nil hne
  have hlength : (0 : Int) < chunk.length := by omega
  have htaken : taken chunk.length = min 10240 chunk.length := by
    unfold taken
    omega
  by_cases hroom : t.pending.length + taken chunk.length ≤ 10240
  · have hfirst : (ofList chunk).first (taken chunk.length)
        = chunk.take (taken chunk.length) := first_ofList chunk _ (by omega)
    -- the packets completed now are packets of the whole stream
    have hcut := cut_append (f := packetFraming) s (chunk.take (taken chunk.length))
    have hsmall' : ∀ p ∈ (packetFraming.cut (t.pending
        ++ (ofList chunk).first (taken chunk.length))).1, p.length ≤ 1600 := by
      intro p hp
      rw [h.pending, hfirst] at hp
      refine hsmall p ?_
      have hpart : p ∈ (packetFraming.cut (s ++ chunk.take (taken chunk.length))).1 := by
        rw [hcut]
        exact mem_append_right _ hp
      have hmore := mem_cut_append hpart (chunk.drop (taken chunk.length))
      rw [append_assoc, take_append_drop] at hmore
      exact hmore
    obtain ⟨t', hwrite, hwf', hpending', htransmitted'⟩ :=
      write_spec card h.wf (.ofList chunk) hlength hroom hsmall'
    refine ⟨_, by rw [offer, hwrite, ok_bind], ?_⟩
    intro t1 ht1
    split at ht1
    next hall =>
      cases ht1
      have hwhole : chunk.take (taken chunk.length) = chunk := take_of_length_le (by omega)
      rw [hfirst, hwhole, h.pending] at hpending' htransmitted'
      rw [hwhole] at hcut
      refine ⟨hwf', ?_, ?_⟩
      · rw [htransmitted', h.transmitted, hcut]
      · rw [hpending', hcut]
    · cases ht1
  · refine ⟨none, ?_, by simp⟩
    rw [offer, write_refused card h.wf _ hlength (by omega), ok_bind]
    simp only
    rw [if_neg (by omega)]

theorem Sent.interrupt {s : List UInt8} (h : t.Sent s) (statuses : Nat → UInt32) :
    (t.intTransmitOk statuses).Sent s := by
  obtain ⟨hpending, htransmitted⟩ := intTransmitOk_frame statuses t
  refine ⟨?_, ?_, ?_⟩
  · rw [hpending]
    exact h.wf
  · rw [htransmitted, h.transmitted]
  · unfold Transmitter.pending
    rw [hpending]
    exact h.pending

theorem Sent.offers {es : List Event} : ∀ {t : Transmitter} {s : List UInt8}, t.Sent s →
    (∀ chunk, Event.write chunk ∈ es → chunk ≠ []) →
    (∀ p ∈ (packetFraming.cut (s ++ (es.map Event.chunk).flatten)).1, p.length ≤ 1600) →
    ∃ r, Transmitter.offers card es t = .ok r
      ∧ ∀ t', r = some t' → t'.Sent (s ++ (es.map Event.chunk).flatten) := by
  induction es with
  | nil =>
    intro t s h _ _
    refine ⟨some t, rfl, ?_⟩
    intro t' ht'
    cases ht'
    simpa using h
  | cons e es ih =>
    intro t s h hne hsmall
    rw [map_cons, flatten_cons, ← append_assoc] at hsmall
    rw [map_cons, flatten_cons, ← append_assoc]
    have hstep : ∃ r, t.offer card e = .ok r ∧ ∀ t', r = some t' → t'.Sent (s ++ e.chunk) := by
      cases e with
      | write chunk =>
        exact h.write card (hne chunk mem_cons_self) fun p hp => hsmall p (mem_cut_append hp _)
      | interrupt statuses =>
        refine ⟨_, rfl, ?_⟩
        intro t' ht'
        cases ht'
        simpa [Event.chunk] using h.interrupt statuses
    obtain ⟨r, hoffer, hsent⟩ := hstep
    cases r with
    | none => exact ⟨none, by rw [Transmitter.offers, hoffer, ok_bind], by simp⟩
    | some t1 =>
      obtain ⟨r, hrest, hlast⟩ := ih (hsent t1 rfl)
        (fun chunk hc => hne chunk (mem_cons_of_mem e hc)) hsmall
      exact ⟨r, by rw [Transmitter.offers, hoffer, ok_bind]; exact hrest, hlast⟩

/-- **However a stream of packets is cut into write calls**, the calls return, and if they are
accepted in full then `transmit` was called once for each complete packet, in order and with its
bytes. The start of the next packet is left in the ring. -/
theorem transmits_packets (ht : t.Fresh) {packets : List (List UInt8)}
    (hpackets : ∀ p ∈ packets, p.length ≤ 1600) {events : List Event}
    (hchunks : ∀ chunk, Event.write chunk ∈ events → chunk ≠ [])
    (hcut : (events.map Event.chunk).flatten <+: packetStream packets) :
    (∃ r, offers card events t = .ok r)
      ∧ ∀ t', offers card events t = .ok (some t') →
        ∃ n, t'.transmitted = packets.take n
          ∧ (events.map Event.chunk).flatten = packetStream (packets.take n) ++ t'.pending
          ∧ (∀ p, packets[n]? = some p → t'.pending <+: packetFrame p
            ∧ t'.pending.length < (packetFrame p).length)
          ∧ (packets[n]? = none → t'.pending = [])
          ∧ ((events.map Event.chunk).flatten = packetStream packets →
            t'.transmitted = packets ∧ t'.pending = []) := by
  have hheads : ∀ p ∈ packets, packetFraming.Heads (bytes16 p.length) p := by
    intro p hp
    have := hpackets p hp
    exact packetFraming_heads (by omega)
  obtain ⟨n, rest, hcuts, hsplit, hnext, hlast⟩ := cut_of_prefix hheads hcut
  have hsmall : ∀ p ∈ (packetFraming.cut ([] ++ (events.map Event.chunk).flatten)).1,
      p.length ≤ 1600 := by
    rw [List.nil_append, hcuts]
    exact fun p hp => hpackets p (List.mem_of_mem_take hp)
  obtain ⟨r, hrun, hsent⟩ := ht.sent.offers card hchunks hsmall
  refine ⟨⟨r, hrun⟩, ?_⟩
  intro t' ht'
  have hr : r = some t' := Except.ok.inj (hrun.symm.trans ht')
  have hsent := hsent t' hr
  rw [List.nil_append] at hsent
  have htransmitted : t'.transmitted = packets.take n := by rw [hsent.transmitted, hcuts]
  have hpending : t'.pending = rest := by rw [hsent.pending, hcuts]
  have hstream : (events.map Event.chunk).flatten = packetStream (packets.take n) ++ rest := hsplit
  refine ⟨n, htransmitted, by rw [hpending, hstream], ?_, ?_, ?_⟩
  · intro p hp
    rw [hpending]
    exact hnext p hp
  · intro hp
    rw [hpending]
    exact hlast hp
  · intro hwhole
    have hall : packetFraming.cut (packetStream packets) = (packets, []) := cut_frames hheads
    rw [hsent.transmitted, hsent.pending, hwhole, hall]
    exact ⟨rfl, rfl⟩

def idle : Transmitter where
  txBuffers := fun _ _ => 0
  txCurWrite := 0
  txCurSend := 0
  pendingTx := ⟨⟨fun _ => 0, 0, 0⟩⟩
  buf := fun _ => 0
  transmitted := []
  registers := []

/-- A header cut in the middle, two packets that end in one call, an interrupt in
between, and a packet without bytes. -/
def twoPackets : List Event :=
  [.write [3], .interrupt fun _ => 0, .write [0, 7, 8], .write [9, 0, 0, 1, 0], .write [5]]

theorem transmits_packets_two :
    ∃ t', offers (fun _ => TSR_OWN) twoPackets idle = .ok (some t')
      ∧ t'.transmitted = [[7, 8, 9], [], [5]] ∧ t'.pending = [] := by
  have hchunks : ∀ chunk, Event.write chunk ∈ twoPackets → chunk ≠ [] := by
    intro chunk hc
    simp [twoPackets] at hc
    rcases hc with rfl | rfl | rfl | rfl <;> simp
  have hcut : (twoPackets.map Event.chunk).flatten <+: packetStream [[7, 8, 9], [], [5]] := by
    decide
  have hresult := transmits_packets (fun _ => TSR_OWN) (t := idle) ⟨⟨rfl, rfl⟩, rfl⟩ (by decide)
    hchunks hcut
  have hdone : ((offers (fun _ => TSR_OWN) twoPackets idle).map Option.isSome) = .ok true := by
    decide +kernel
  obtain ⟨r, hr, hsome⟩ := map_ok.mp hdone
  obtain ⟨t', rfl⟩ := Option.isSome_iff_exists.mp hsome
  obtain ⟨_, _, _, _, _, hall⟩ := hresult.2 t' hr
  exact ⟨t', hr, hall (by decide)⟩

/-! ## Any bytes at all -/

/-- The lengths declared in the ring and in the bytes of the call, if it is taken,
are at most 1600. -/
def Modest (t : Transmitter) (data : Bytes) (length : Int) : Prop :=
  t.pending.length + taken length ≤ 10240 →
    packetFraming.Bounded 1600 (t.pending ++ data.first (taken length))

def ModestStep (t t' : Transmitter) : Prop :=
  (∃ card data length r, 0 < length ∧ t.Modest data length
    ∧ t.write card data length = .ok (r, t'))
  ∨ ∃ statuses, t' = t.intTransmitOk statuses

def Jammed (t : Transmitter) : Prop :=
  ∀ card data length, 0 < length → t.write card data length = .ok (0, t)

/-- The ring holds no more than the start of a packet of 1600 bytes. -/
structure Short (t : Transmitter) : Prop where
  wf : t.pendingTx.WF
  short : t.pending.length < 1602

theorem Fresh.short (h : t.Fresh) : t.Short := by
  have hholds := h.1.holds
  refine ⟨hholds.wf, ?_⟩
  show t.pendingTx.contents.length < 1602
  rw [hholds.contents]
  decide

theorem Short.write (h : t.Short) {data : Bytes} {length : Int} (hlength : 0 < length)
    (hmodest : t.Modest data length) :
    ∃ r t', t.write card data length = .ok (r, t') ∧ t'.Short := by
  by_cases hroom : t.pending.length + taken length ≤ 10240
  · have hbounded := hmodest hroom
    obtain ⟨t', hwrite, hwf, hpending, _⟩ := write_spec card h.wf data hlength hroom hbounded.1
    refine ⟨_, t', hwrite, hwf, ?_⟩
    rw [hpending]
    exact hbounded.rest_lt
  · exact ⟨0, t, write_refused card h.wf data hlength (by omega), h⟩

theorem Short.step {t' : Transmitter} (h : t.Short) (hstep : ModestStep t t') : t'.Short := by
  rcases hstep with ⟨card, data, length, r, hlength, hmodest, hwrite⟩ | ⟨statuses, rfl⟩
  · obtain ⟨r', t1, hwrite', hshort⟩ := h.write card hlength hmodest
    rw [hwrite] at hwrite'
    cases hwrite'
    exact hshort
  have hpending := (intTransmitOk_frame statuses t).1
  refine ⟨?_, ?_⟩
  · rw [hpending]
    exact h.wf
  · unfold pending
    rw [hpending]
    exact h.short

theorem Short.not_jammed (h : t.Short) : ¬ t.Jammed := by
  intro hjammed
  have hshort := h.short
  have htaken : taken 1 = 1 := rfl
  have hsmall : ∀ p ∈ (packetFraming.cut (t.pending ++ first (fun _ => 0) (taken 1))).1,
      p.length ≤ 1600 := by
    intro p hp
    have hlen : 2 + p.length ≤ _ := length_le_of_mem_cut _ hp
    rw [length_append, length_first] at hlen
    omega
  obtain ⟨t', hwrite, _⟩ := write_spec (fun _ => 0) h.wf (fun _ => 0) (by decide)
    (show t.pending.length + taken 1 ≤ 10240 by omega) hsmall
  rw [hjammed (fun _ => 0) (fun _ => 0) 1 (by decide)] at hwrite
  cases hwrite

/-- **While every declared length is at most 1600**, a call returns (it does not if it copies
more than the staging buffer holds), and never are all later writes refused. -/
theorem staging_safe (h : Reach Fresh ModestStep t) :
    (∀ card data length, 0 < length → t.Modest data length →
      ∃ r t', t.write card data length = .ok (r, t'))
    ∧ ¬ t.Jammed := by
  have hshort : t.Short := by
    refine @Reach.invariant _ _ _ (fun t => t.Short) ?_ ?_ t h
    · exact fun t ht => ht.short
    · exact fun t t' _ ht hstep => ht.step hstep
  refine ⟨?_, hshort.not_jammed⟩
  intro card data length hlength hmodest
  obtain ⟨r, t', hwrite, _⟩ := hshort.write card hlength hmodest
  exact ⟨r, t', hwrite⟩

theorem staging_safe_largest : ∃ r t', idle.write (fun _ => 0)
    (.ofList (packetFrame (List.replicate 1600 7))) 1602 = .ok (r, t') := by
  refine (staging_safe (.init ⟨⟨rfl, rfl⟩, rfl⟩)).1 _ _ _ (by decide) ?_
  intro _
  have hframe : (ofList (packetFrame (replicate 1600 7))).first (taken 1602)
      = packetFrame (replicate 1600 7) ++ [] :=
    first_packetFrame (by rw [length_replicate]; rfl) (by decide)
  have hcut : packetFraming.cut (packetFrame (replicate 1600 7) ++ []) = ([replicate 1600 7], []) :=
    cut_some (first_frame (packetFraming_heads (by rw [length_replicate]; decide)) [])
  show packetFraming.Bounded 1600 ([] ++ _)
  rw [nil_append, hframe]
  refine ⟨?_, ?_⟩
  · rw [hcut]
    intro p hp
    rw [mem_singleton.mp hp, length_replicate]
  · rw [hcut]
    intro hheader
    exact absurd hheader (by decide)

/-- **Both failures.**  A packet of 1601 bytes is copied into the staging buffer;
a length that no ring of 10240 bytes completes jams the driver. -/
theorem staging_overflows :
    idle.Fresh
      ∧ idle.write (fun _ => 0) (.ofList (packetFrame (List.replicate 1601 0))) 1603
        = .error .outOfBounds
      ∧ ∃ t, idle.write (fun _ => 0) (.ofList (bytes16 65535 ++ List.replicate 10238 0)) 10240
        = .ok (10240, t) ∧ t.Jammed := by
  have hwf : idle.pendingTx.WF := (RingBuffer.Constructed.holds ⟨rfl, rfl⟩).wf
  have hempty : idle.pending = [] := (RingBuffer.Constructed.holds ⟨rfl, rfl⟩).contents
  refine ⟨⟨⟨rfl, rfl⟩, rfl⟩, ?_, ?_⟩
  · have hframe : (ofList (packetFrame (replicate 1601 0))).first (taken 1603)
        = packetFrame (replicate 1601 0) ++ [] :=
      first_packetFrame (by rw [length_replicate]; rfl) (by decide)
    refine write_overflows _ hwf _ (by decide) (by rw [hempty]; decide) ⟨replicate 1601 0, ?_, ?_⟩
    · rw [hempty, nil_append, hframe, packetFrame, cut_some (first_frame
        (packetFraming_heads (by rw [length_replicate]; decide)) [])]
      exact mem_cons_self
    · rw [length_replicate]
      decide
  · have hlen : (bytes16 65535 ++ replicate 10238 0).length = 10240 := by
      rw [length_append, length_replicate]
      rfl
    have hfirst : (ofList (bytes16 65535 ++ replicate 10238 0)).first (taken 10240)
        = bytes16 65535 ++ replicate 10238 0 := first_taken (by rw [hlen]; rfl) (by decide)
    -- the start of a packet of 65535 bytes
    have hpart : packetFraming.first (bytes16 65535 ++ replicate 10238 0) = none := by
      have hheads : packetFraming.Heads (bytes16 65535) (replicate 65535 0) :=
        ⟨rfl, by rw [length_replicate]; exact word16_bytes16 (by decide)⟩
      refine first_incomplete hheads ?_ ?_
      · rw [prefix_append_right_inj]
        exact ⟨replicate 55297 0, by rw [replicate_append_replicate]⟩
      · rw [hlen, length_append, length_replicate]
        decide
    have hcut := cut_none hpart
    have hstream : idle.pending ++ (ofList (bytes16 65535 ++ replicate 10238 0)).first
        (taken 10240) = bytes16 65535 ++ replicate 10238 0 := by
      rw [hempty, nil_append, hfirst]
    obtain ⟨t, hwrite, hwft, hpending, _⟩ := write_spec (fun _ => 0) hwf
      (.ofList (bytes16 65535 ++ replicate 10238 0)) (show (0 : Int) < 10240 by decide)
      (by rw [hempty]; decide) (by rw [hstream, hcut]; intro p hp; cases hp)
    refine ⟨t, hwrite, ?_⟩
    intro card data length hlength
    refine write_refused card hwft data hlength ?_
    rw [hpending, hstream, hcut, hlen]
    unfold taken
    omega

/-! ## What the card is given -/

/-- The buffer of a descriptor holds the packet and zeros up to 60 bytes, and the card was
last told its address and so many bytes. -/
def Holds (t : Transmitter) (desc : Nat) (data : Bytes) (length : Nat) : Prop :=
  (∀ i < max length 60, t.txBuffers desc i = if i < length then data i else 0) ∧
    ∃ value, [.bufferAddress desc desc, .status desc value] <:+ t.registers ∧
      (value &&& 0x1FFF).toNat = max length 60

theorem toNat_newDescStatus {length : Nat} (h : length ≤ 1514) :
    (newDescStatus length &&& 0x1FFF).toNat = max length 60 := by
  have hlen : (UInt32.ofNat (max length 60)).toNat = max length 60 := toNat_ofNat_lt (by omega)
  rw [newDescStatus, UInt32.toNat_and, UInt32.toNat_or, UInt32.toNat_and, hlen,
    Nat.and_or_distrib_right, Nat.and_assoc]
  show max length 60 &&& 2 ^ 13 - 1 ||| 0 = _
  rw [Nat.or_zero, Nat.and_two_pow_sub_one_eq_mod]
  omega

theorem filled_iff (buffer data : Bytes) (length : Nat) :
    (∀ i < max length 60, filled buffer data length i = if i < length then data i else 0) ↔
      ∀ i, 1500 ≤ i → i < length → buffer i = data i := by
  constructor
  · intro hbytes i hlow hhigh
    have hi := hbytes i (by omega)
    rwa [filled, if_neg (by omega), if_neg (by omega), if_pos hhigh] at hi
  · intro hrest i hi
    unfold filled
    by_cases hcopied : i < min length 1500
    · rw [if_pos hcopied, if_pos (by omega)]
    · by_cases hin : i < length
      · rw [if_neg hcopied, if_neg (by omega), if_pos hin, hrest i (by omega) hin]
      · rw [if_neg hcopied, if_pos (by omega), if_neg hin]

/-- **When the buffer holds the packet.**  Only 1500 bytes are copied, so the rest has
to be there from before. -/
theorem transmit_holds_iff {status : UInt32} {data : Bytes} {length : Nat} {t' : Transmitter}
    (hlength : length ≤ 1514) (h : t.transmit status data length = (0, t')) :
    t'.Holds (t.txCurWrite % 4).toNat data length ↔ ∀ i, 1500 ≤ i → i < length →
      t.txBuffers (t.txCurWrite % 4).toNat i = data i := by
  unfold transmit at h
  simp only at h
  split at h
  · simp at h
  · split at h
    · simp at h
    · cases h
      unfold Holds
      simp only [if_true]
      rw [filled_iff, and_iff_left]
      exact ⟨_, suffix_append _ _, toNat_newDescStatus hlength⟩

def usedBefore : Transmitter := { idle with txBuffers := fun _ _ => 9 }

/-- A full frame whose last 14 bytes lie in the buffer from the one before. -/
theorem transmit_holds_iff_full : ∃ t', usedBefore.transmit TSR_OWN
      (fun i => if i < 1500 then 7 else 9) 1514 = (0, t') ∧
    t'.Holds 0 (fun i => if i < 1500 then 7 else 9) 1514 := by
  refine ⟨_, rfl, (@transmit_holds_iff usedBefore TSR_OWN _ _ _ (by decide) rfl).mpr
    fun i hlow _ => ?_⟩
  exact (if_neg (by omega)).symm

/-- **The end of a full frame is not copied.** -/
theorem transmit_cuts : ∃ t', idle.transmit TSR_OWN (fun _ => 7) 1514 = (0, t') ∧
    ¬ t'.Holds 0 (fun _ => 7) 1514 := by
  refine ⟨_, rfl, fun hholds => ?_⟩
  have hbyte := (filled_iff (fun _ => 0) (fun _ => 7) 1514).mp hholds.1 1500
  exact absurd (hbyte (by decide) (by decide)) (by decide)

end Transmitter

end Peos2.Kernel
