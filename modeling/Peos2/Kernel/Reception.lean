/-
  Kernel.Reception — what a process reads of the packets the network card receives.

  The interrupt handler pushes the 16-bit length of a packet and its bytes; the reader
  takes a length and then that many bytes. They alternate in any way, also between the
  two pushes. As long as every record fits, the reader obtains packets that were
  received. Of a record that fits in part the start is pushed, and the reader takes
  the bytes of the next one for the rest.

  Main results: `returns_iff`, `framing_preserved`, `framing_lost`.
-/
import Peos2.Kernel.Transmission

namespace Peos2.Kernel

open Peos2.Lib Peos2.Support List Framing Bytes

/-! ## The queue -/

namespace BlockingDataQueue

variable {maxLen : Nat}

theorem pushFrom_spec (data : Bytes) {size : Nat} : ∀ (n i : Nat) (q : Queue UInt8 maxLen), q.WF →
    i + n ≤ size →
    ∃ q', pushFrom data size i n q = .ok (min n (maxLen - q.contents.length), q') ∧ q'.WF
      ∧ q'.contents = q.contents
        ++ Bytes.first (fun j => data (i + j)) (min n (maxLen - q.contents.length)) := by
  intro n
  induction n with
  | zero =>
    intro i q h _
    exact ⟨q, rfl, h, (append_nil _).symm⟩
  | succ n ih =>
    intro i q h hsize
    have hle := h.length_le
    by_cases hfull : q.contents.length = maxLen
    · refine ⟨q, ?_, h, ?_⟩
      · rw [pushFrom, Queue.pushBack_full h hfull, ok_bind, hfull, Nat.sub_self]
        rfl
      · rw [hfull, Nat.sub_self]
        exact (append_nil _).symm
    obtain ⟨q1, hpush, hwf1, hc1⟩ := Queue.pushBack_spec h (by omega) (data i)
    obtain ⟨q2, hrest, hwf2, hc2⟩ := ih (i + 1) q1 hwf1 (by omega)
    have hlen : q1.contents.length = q.contents.length + 1 := by
      rw [hc1, length_append, length_singleton]
    have hcount : min (n + 1) (maxLen - q.contents.length)
        = min n (maxLen - q1.contents.length) + 1 := by omega
    refine ⟨q2, ?_, hwf2, ?_⟩
    · rw [pushFrom, hpush, ok_bind, hcount]
      simp only [Bool.true_eq_false, if_false]
      rw [if_neg (by omega), hrest, ok_bind]
    · rw [hcount, first_succ, hc2]
      generalize min n (maxLen - q1.contents.length) = k
      rw [hc1, append_assoc, singleton_append]
      simp only [Nat.add_zero, Nat.add_assoc, Nat.add_comm 1]

theorem popUpTo_spec : ∀ (n : Nat) (q : Queue UInt8 maxLen), q.WF →
    ∃ q', popUpTo n q = .ok (q.contents.take n, q') ∧ q'.WF ∧ q'.contents = q.contents.drop n := by
  intro n
  induction n with
  | zero => exact fun q h => ⟨q, rfl, h, rfl⟩
  | succ n ih =>
    intro q h
    have hsize := h.size_eq
    rw [popUpTo]
    cases hc : q.contents with
    | nil =>
      rw [hc] at hsize
      rw [if_neg (by rw [hsize]; simp)]
      exact ⟨q, rfl, h, hc⟩
    | cons c cs =>
      obtain ⟨q1, hpop, hwf1, hc1⟩ := Queue.popFront_spec h hc
      obtain ⟨q2, hrest, hwf2, hc2⟩ := ih q1 hwf1
      rw [hc, length_cons] at hsize
      rw [if_pos (by omega), hpop, ok_bind]
      refine ⟨q2, ?_, hwf2, ?_⟩
      · simp only
        rw [hrest, ok_bind, hc1, take_succ_cons]
      · rw [hc2, hc1, drop_succ_cons]

theorem popFront_spec {q : Queue UInt8 maxLen} (h : q.WF) {n : Nat} (hn : 0 < n) :
    (q.contents = [] ∧ popFront q n = .ok none)
      ∨ (q.contents ≠ [] ∧ ∃ q', popFront q n = .ok (some (q.contents.take n, q')) ∧ q'.WF
        ∧ q'.contents = q.contents.drop n) := by
  have hsize := h.size_eq
  unfold popFront
  rw [if_neg (by omega)]
  by_cases hempty : q.contents = []
  · rw [hempty] at hsize
    exact .inl ⟨hempty, if_pos hsize⟩
  · have hpos := length_pos_of_ne_nil hempty
    obtain ⟨q', hpop, hwf, hc⟩ := popUpTo_spec n q h
    refine .inr ⟨hempty, q', ?_, hwf, hc⟩
    rw [if_neg (by omega), hpop, ok_bind]

/-- `pop_front` returns without waiting: a positive length takes that many bytes
off the front, or all there are; any other leaves the queue as it is. -/
def Returns (q : Queue UInt8 maxLen) (maxSize : Int) : Prop :=
  ∃ fuel cs q', popFrontInt fuel q maxSize = .ok (some (cs, q'))
    ∧ (0 < maxSize → (cs.length : Int) = min maxSize q.contents.length
        ∧ q.contents = cs ++ q'.contents)
    ∧ (maxSize ≤ 0 → cs = [] ∧ q' = q)

theorem popLoop_of_neg {q : Queue UInt8 maxLen} (h : q.WF) (hdata : q.contents ≠ [])
    {maxSize : Int} (hneg : maxSize < 0) (fuel : Nat) :
    popLoop maxSize fuel q = .error .outOfFuel := by
  induction fuel with
  | zero => rfl
  | succ fuel ih =>
    have hpos := length_pos_of_ne_nil hdata
    have hsize := h.size_eq
    -- no byte moves, so the round leaves everything as it was
    rw [popLoop, if_neg (by omega), Int.toNat_of_nonpos (by omega)]
    exact ih

/-- **A negative length never returns**: the inner loop takes nothing, and the outer
one ends only when something was taken. -/
theorem returns_iff {q : Queue UInt8 maxLen} (h : q.WF) (hdata : q.contents ≠ [])
    (maxSize : Int) : Returns q maxSize ↔ 0 ≤ maxSize := by
  have hpos := length_pos_of_ne_nil hdata
  have hsize := h.size_eq
  constructor
  · rintro ⟨fuel, cs, q', hok, _⟩
    by_contra hneg
    rw [popFrontInt, if_neg (by omega), popLoop_of_neg h hdata (by omega)] at hok
    cases hok
  · intro hle
    rcases hle.eq_or_lt with rfl | hlt
    · exact ⟨0, [], q, rfl, by simp, by simp⟩
    · obtain ⟨q', hpop, _, hc⟩ := popUpTo_spec maxSize.toNat q h
      have hlen : (q.contents.take maxSize.toNat).length = min maxSize.toNat q.contents.length :=
        length_take
      refine ⟨1, q.contents.take maxSize.toNat, q', ?_, fun _ => ⟨by omega, ?_⟩, by omega⟩
      · rw [popFrontInt, if_neg (by omega), popLoop, if_neg (by omega), hpop, ok_bind]
        exact if_pos (by omega)
      · rw [hc, take_append_drop]

def two : Queue UInt8 4 := { items := fun i => if i = 0 then 7 else 8, readIdx := 0, writeIdx := 2 }

theorem two_wf : two.WF := ⟨by decide, by decide, by decide, by decide⟩

theorem returns_iff_two : two.contents = [7, 8] ∧ Returns two 1 :=
  ⟨by decide, (returns_iff two_wf (by decide) 1).2 (by decide)⟩

theorem negative_spins : two.contents = [7, 8] ∧ ¬ Returns two (-1) := by
  refine ⟨by decide, ?_⟩
  rintro ⟨fuel, cs, q', hok, _⟩
  rw [popFrontInt, popLoop_of_neg two_wf (by decide) (by decide)] at hok
  cases hok

end BlockingDataQueue

/-! ## The interrupt handler -/

namespace Receiver

variable {r : Receiver}

def queued (r : Receiver) : List UInt8 := r.readFifo.contents

/-- The packet at `rx_pos`, without its header and its CRC. -/
def packet (r : Receiver) : List UInt8 :=
  { r with rxPos := r.rxPos + 4 }.packetData r.packetSize

/-- What is still to be pushed of a packet whose length was. -/
def toPush (r : Receiver) : List UInt8 :=
  match r.unpushed with
  | some size => r.packetData size
  | none => []

theorem toPush_of_idle (h : r.unpushed = none) : r.toPush = [] := by
  unfold toPush
  rw [h]

theorem toPush_of_some {size : Nat} (h : r.unpushed = some size) : r.toPush = r.packetData size := by
  unfold toPush
  rw [h]

theorem toPush_eq_packet {r' : Receiver} (hbuffer : r'.rxBuffer = r.rxBuffer)
    (hpos : r'.rxPos = r.rxPos + 4) (hunpushed : r'.unpushed = some r.packetSize) :
    r'.toPush = r.packet := by
  rw [toPush_of_some hunpushed]
  unfold packet packetData
  rw [hbuffer, hpos]

theorem dataSize_eq {size : Nat} (h4 : 4 ≤ size) (hmax : size ≤ 1518) :
    dataSize size = size - 4 := by
  unfold dataSize
  omega

@[simp] theorem length_packetData (r : Receiver) (size : Nat) :
    (r.packetData size).length = dataSize size := length_first _ _

theorem length_packet (r : Receiver) : r.packet.length = dataSize r.packetSize :=
  length_packetData _ _

theorem dataSize_lt (size : Nat) : dataSize size < 65536 := by
  unfold dataSize
  omega

theorem pushData_spec (hwf : r.readFifo.WF) (size : Nat)
    (hinside : r.rxPos + dataSize size ≤ rxBufferSize) :
    ∃ q, q.WF ∧ q.contents = r.queued ++ (r.packetData size).take (10240 - r.queued.length)
      ∧ r.pushData size = .ok ({ r with readFifo := q }.advance size) := by
  obtain ⟨q, hpush, hwfq, hcq⟩ := BlockingDataQueue.pushFrom_spec
    (fun i => r.rxBuffer (r.rxPos + i)) (dataSize size) 0 r.readFifo hwf
    (show 0 + dataSize size ≤ rxBufferSize - r.rxPos by omega)
  simp only [Nat.zero_add] at hcq
  refine ⟨q, hwfq, ?_, ?_⟩
  · rw [hcq, packetData, take_first]
    rfl
  · rw [pushData, hpush, ok_bind]

theorem receive_open (hwf : r.readFifo.WF) (hvalid : r.packetInvalid = false)
    (hopen : r.processOpened ≠ none) :
    ∃ q, q.WF ∧ q.contents = r.queued
        ++ (bytes16 (dataSize r.packetSize)).take (10240 - r.queued.length)
      ∧ r.receive = if r.queued.length = 10240 then
          { r with rxPos := r.rxPos + 4, received := r.received ++ [r.packet], readFifo := q }.pushData
            r.packetSize
        else .ok { r with rxPos := r.rxPos + 4, received := r.received ++ [r.packet], readFifo := q,
                          unpushed := some r.packetSize } := by
  have hle : r.queued.length ≤ 10240 := hwf.length_le
  obtain ⟨pid, hpid⟩ := Option.ne_none_iff_exists'.mp hopen
  obtain ⟨q, hpush, hwfq, hcq⟩ := BlockingDataQueue.pushFrom_spec
    (ofList (bytes16 (dataSize r.packetSize))) 2 0 r.readFifo hwf (Nat.le_refl 2)
  simp only [Nat.zero_add] at hcq
  have htake : first (fun j => ofList (bytes16 (dataSize r.packetSize)) j)
      (min 2 (10240 - r.readFifo.contents.length))
      = (bytes16 (dataSize r.packetSize)).take (10240 - r.queued.length) := by
    rw [← take_first]
    rfl
  refine ⟨q, hwfq, by rw [hcq, htake]; rfl, ?_⟩
  have hlen : r.queued.length = r.readFifo.contents.length := rfl
  unfold receive
  simp only [hvalid, Bool.false_eq_true, if_false, hpid]
  rw [hpush, ok_bind]
  by_cases hfull : r.queued.length = 10240
  · rw [if_pos hfull, if_pos (by omega)]
    rfl
  · rw [if_neg hfull, if_neg (by omega)]
    rfl

theorem receive_closed (hvalid : r.packetInvalid = false) (hclosed : r.processOpened = none) :
    r.receive = .ok ({ r with rxPos := r.rxPos + 4,
                              received := r.received ++ [r.packet] }.advance r.packetSize) := by
  unfold receive
  simp only [hvalid, Bool.false_eq_true, if_false, hclosed]
  rfl

theorem receive_invalid (hinvalid : r.packetInvalid = true) :
    r.receive = .ok ({ r with rxPos := 0 }.advance 0) := by
  unfold receive
  simp only [hinvalid, if_true]

theorem packetSize_le (hvalid : r.packetInvalid = false) : r.packetSize ≤ 1518 := by
  unfold packetInvalid at hvalid
  rw [Bool.or_eq_false_iff, decide_eq_false_iff_not, decide_eq_false_iff_not] at hvalid
  omega

end Receiver

/-! ## The driver and its reader -/

/-- The receiving side and a process that reads from it: `record` is what the
process has of the record it is reading, `obtained` the packets it has had. -/
structure Link where
  receiver : Receiver
  record : List UInt8
  obtained : List (List UInt8)

/-- How many bytes the reader still wants: first a length, then that many. -/
def wanted (record : List UInt8) : Nat :=
  if record.length < 2 then 2 - record.length else 2 + word16 (record.take 2) - record.length

namespace Link

/-- The reader puts bytes to its record; a record that is complete is a packet. -/
def take (l : Link) (bytes : List UInt8) : Link :=
  match packetFraming.first (l.record ++ bytes) with
  | some (p, _) => { l with record := [], obtained := l.obtained ++ [p] }
  | none => { l with record := l.record ++ bytes }

inductive Event where
  /-- One turn of the loop of `receive`; the card has left this in its buffer. -/
  | receive (rxBuffer : Bytes)
  /-- `receive` goes on after its first push. -/
  | pushData
  /-- `read(fd, ..., n)` -/
  | read (n : Nat)
  | openDevice (pid : Nat)
  | closeDevice (pid : Nat)

def fed (l : Link) (rxBuffer : Bytes) : Receiver := { l.receiver with rxBuffer }

def run (l : Link) : Event → Checked Link
  | .receive rxBuffer => do
      let receiver ← (l.fed rxBuffer).receive
      .ok { l with receiver }
  | .pushData =>
    match l.receiver.unpushed with
    | some size => do
        let receiver ← l.receiver.pushData size
        .ok { l with receiver }
    | none => .ok l
  | .read n => do
      match ← BlockingDataQueue.popFront l.receiver.readFifo n with
      | some (bytes, readFifo) =>
        .ok ({ l with receiver := { l.receiver with readFifo } }.take bytes)
      | none => .ok l
  | .openDevice pid => .ok { l with receiver := (l.receiver.openDevice pid).2 }
  | .closeDevice pid => .ok { l with receiver := (l.receiver.closeDevice pid).2 }

/-- When it can happen: the handler finishes one packet before the next, sizes count the CRC,
and the reader asks for what it wants or less. -/
def Enabled (l : Link) : Event → Prop
  | .receive rxBuffer => l.receiver.unpushed = none
      ∧ ((l.fed rxBuffer).packetInvalid = true ∨ 4 ≤ (l.fed rxBuffer).packetSize)
  | .pushData => l.receiver.unpushed ≠ none
  | .read n => 0 < n ∧ n ≤ wanted l.record
  | .openDevice _ | .closeDevice _ => True

/-- What is pushed fits into the queue: the two bytes of a length, unless the queue
is full, and then the bytes of the packet. -/
def Fits (l : Link) : Event → Prop
  | .receive rxBuffer => (l.fed rxBuffer).packetInvalid = true ∨ l.receiver.processOpened = none
      ∨ l.receiver.readFifo.size + 2 ≤ 10240 ∨ l.receiver.readFifo.full = true
  | .pushData => l.receiver.readFifo.size + l.receiver.toPush.length ≤ 10240
  | _ => True

/-- The driver before anything was received, and a reader that has read nothing. -/
structure Initial (l : Link) : Prop where
  rxPos : l.receiver.rxPos = 0
  empty : l.receiver.readFifo.readIdx = 0 ∧ l.receiver.readFifo.writeIdx = 0
  unpushed : l.receiver.unpushed = none
  received : l.receiver.received = []
  record : l.record = []
  obtained : l.obtained = []

def Step (l l' : Link) : Prop := ∃ e, l.Enabled e ∧ l.run e = .ok l'

def FittingStep (l l' : Link) : Prop := ∃ e, l.Enabled e ∧ l.Fits e ∧ l.run e = .ok l'

/-- The records are whole: what the reader has of its record, what is queued and what is
about to be pushed are the records of the packets `todo`, received after those obtained. -/
structure Framed (l : Link) (todo : List (List UInt8)) : Prop where
  wf : l.receiver.readFifo.WF
  position : l.receiver.unpushed = none → l.receiver.rxPos + 4 ≤ 8192
  pushing : ∀ size, l.receiver.unpushed = some size → l.receiver.rxPos ≤ 8192 ∧ 4 ≤ size
    ∧ size ≤ 1518
  stream : l.record ++ l.receiver.queued ++ l.receiver.toPush = packetStream todo
  incomplete : packetFraming.first l.record = none
  short : ∀ p ∈ todo, p.length < 65536
  order : (l.obtained ++ todo).Sublist l.receiver.received

theorem Initial.queued_eq {l : Link} (h : l.Initial) : l.receiver.queued = [] := by
  have hholds : (⟨l.receiver.readFifo⟩ : RingBuffer 10240).Holds [] :=
    RingBuffer.Constructed.holds h.empty
  exact hholds.contents

theorem Initial.framed {l : Link} (h : l.Initial) : l.Framed [] := by
  have hholds : (⟨l.receiver.readFifo⟩ : RingBuffer 10240).Holds [] :=
    RingBuffer.Constructed.holds h.empty
  refine ⟨hholds.wf, ?_, ?_, ?_, ?_, ?_, ?_⟩
  · intro _
    rw [h.rxPos]
    decide
  · intro size hsize
    rw [h.unpushed] at hsize
    cases hsize
  · rw [h.record, h.queued_eq, Receiver.toPush_of_idle h.unpushed]
    rfl
  · rw [h.record]
    rfl
  · intro p hp
    cases hp
  · rw [h.obtained, h.received]
    exact List.Sublist.refl _

/-! ## One event -/

variable {l : Link} {todo : List (List UInt8)}

theorem packetStream_concat (ps : List (List UInt8)) (p : List UInt8) :
    packetStream (ps ++ [p]) = packetStream ps ++ packetFrame p := by
  unfold packetStream
  rw [map_append, flatten_append, map_singleton, flatten_singleton]

theorem Framed.leave_out (h : l.Framed todo) (hidle : l.receiver.unpushed = none) {r : Receiver}
    (hfifo : r.readFifo.WF ∧ r.queued = l.receiver.queued) (hpos : r.rxPos + 4 ≤ 8192)
    (hunpushed : r.unpushed = none) (hreceived : l.receiver.received.Sublist r.received) :
    ({ l with receiver := r } : Link).Framed todo := by
  have hstream := h.stream
  rw [Receiver.toPush_of_idle hidle, append_nil] at hstream
  refine ⟨hfifo.1, fun _ => hpos, ?_, ?_, h.incomplete, h.short, h.order.trans hreceived⟩
  · intro size hsize
    have hnone : r.unpushed = some size := hsize
    rw [hunpushed] at hnone
    cases hnone
  · show l.record ++ r.queued ++ r.toPush = _
    rw [hfifo.2, Receiver.toPush_of_idle hunpushed, append_nil]
    exact hstream

theorem Framed.receive (h : l.Framed todo) {rxBuffer : Bytes}
    (henabled : l.Enabled (.receive rxBuffer)) (hfits : l.Fits (.receive rxBuffer)) :
    ∃ l' todo', l.run (.receive rxBuffer) = .ok l' ∧ l'.Framed todo' := by
  obtain ⟨hidle, hframe⟩ := henabled
  have hwf : (l.fed rxBuffer).readFifo.WF := h.wf
  have hpos : (l.fed rxBuffer).rxPos + 4 ≤ 8192 := h.position hidle
  have hadvance : ∀ (r : Receiver) (size : Nat), (r.advance size).rxPos + 4 ≤ 8192 := by
    intro r size
    show (r.rxPos + size + 3) / 4 * 4 % 8192 + 4 ≤ 8192
    omega
  by_cases hinvalid : (l.fed rxBuffer).packetInvalid = true
  · -- an invalid packet
    refine ⟨_, todo, by rw [run, Receiver.receive_invalid hinvalid, ok_bind], ?_⟩
    exact h.leave_out hidle ⟨hwf, rfl⟩ (hadvance _ _) rfl (List.Sublist.refl _)
  have hvalid : (l.fed rxBuffer).packetInvalid = false := Bool.eq_false_iff.mpr hinvalid
  have hsize := Receiver.packetSize_le hvalid
  have h4 : 4 ≤ (l.fed rxBuffer).packetSize := hframe.resolve_left hinvalid
  have hdata := Receiver.dataSize_eq h4 hsize
  by_cases hclosed : l.receiver.processOpened = none
  · -- nobody has opened the device
    refine ⟨_, todo, by rw [run, Receiver.receive_closed hvalid hclosed, ok_bind], ?_⟩
    exact h.leave_out hidle ⟨hwf, rfl⟩ (hadvance _ _) rfl (List.sublist_append_left _ _)
  obtain ⟨q, hwfq, hcq, hreceive⟩ := Receiver.receive_open hwf hvalid hclosed
  have hcq : q.contents = l.receiver.queued ++ _ := hcq
  by_cases hfull : (l.fed rxBuffer).queued.length = 10240
  · -- the queue is full: neither push takes anything
    have hnone : q.contents = l.receiver.queued := by
      rw [hcq, hfull, List.take_zero, List.append_nil]
    rw [if_pos hfull] at hreceive
    obtain ⟨q', hwfq', hcq', hpush⟩ := Receiver.pushData_spec (r := { l.fed rxBuffer with
        rxPos := (l.fed rxBuffer).rxPos + 4
        received := (l.fed rxBuffer).received ++ [(l.fed rxBuffer).packet]
        readFifo := q })
      hwfq (l.fed rxBuffer).packetSize (by
        show (l.fed rxBuffer).rxPos + 4 + _ ≤ 8192 + 16 + 1500
        omega)
    have hcq' : q'.contents = q.contents ++ List.take (10240 - q.contents.length) _ := hcq'
    have hsame : q'.contents = l.receiver.queued := by
      have hlen : l.receiver.queued.length = 10240 := hfull
      rw [hcq', hnone, hlen, List.take_zero, List.append_nil]
    refine ⟨_, todo, by rw [run, hreceive, hpush, ok_bind], ?_⟩
    exact h.leave_out hidle ⟨hwfq', hsame⟩ (hadvance _ _) rfl (List.sublist_append_left _ _)
  · -- its length is pushed
    have hroom : l.receiver.queued.length + 2 ≤ 10240 := by
      have hfifo := h.wf.size_eq
      have hlen : (l.fed rxBuffer).queued.length = l.receiver.readFifo.contents.length := rfl
      have hlen' : l.receiver.queued.length = l.receiver.readFifo.contents.length := rfl
      rcases hfits with hbad | hbad | _ | hbad
      · exact absurd hbad hinvalid
      · exact absurd hbad hclosed
      · omega
      · unfold Queue.full at hbad
        rw [beq_iff_eq] at hbad
        omega
    have hcq : q.contents = l.receiver.queued
        ++ bytes16 (Receiver.dataSize (l.fed rxBuffer).packetSize) := by
      rw [hcq, List.take_of_length_le]
      show 2 ≤ 10240 - l.receiver.queued.length
      omega
    rw [if_neg hfull] at hreceive
    refine ⟨_, todo ++ [(l.fed rxBuffer).packet], by rw [run, hreceive, ok_bind], ?_⟩
    have hstream := h.stream
    rw [Receiver.toPush_of_idle hidle, List.append_nil] at hstream
    refine ⟨hwfq, ?_, ?_, ?_, h.incomplete, ?_, ?_⟩
    · intro hnone
      cases hnone
    · intro size hsome
      cases hsome
      exact ⟨hpos, h4, hsize⟩
    · have hpacket := (l.fed rxBuffer).length_packet
      have hstream' : l.record ++ q.contents ++ (l.fed rxBuffer).packet
          = packetStream (todo ++ [(l.fed rxBuffer).packet]) := by
        rw [packetStream_concat, ← hstream, packetFrame, hpacket, hcq]
        simp only [List.append_assoc]
      rw [← hstream']
      exact congrArg (l.record ++ q.contents ++ ·) (Receiver.toPush_eq_packet rfl rfl rfl)
    · intro p hp
      rcases List.mem_append.mp hp with hp | hp
      · exact h.short p hp
      · rw [List.mem_singleton.mp hp]
        rw [Receiver.length_packet]
        exact Receiver.dataSize_lt _
    · rw [← List.append_assoc]
      exact h.order.append (List.Sublist.refl _)

theorem Framed.pushData (h : l.Framed todo) (henabled : l.Enabled .pushData)
    (hfits : l.Fits .pushData) : ∃ l', l.run .pushData = .ok l' ∧ l'.Framed todo := by
  obtain ⟨size, hunpushed⟩ := Option.ne_none_iff_exists'.mp henabled
  obtain ⟨_, h4, hmax⟩ := h.pushing size hunpushed
  have hdata := Receiver.dataSize_eq h4 hmax
  have hroom : l.receiver.queued.length + Receiver.dataSize size ≤ 10240 := by
    have hfits : l.receiver.readFifo.size + l.receiver.toPush.length ≤ 10240 := hfits
    have hsize := h.wf.size_eq
    rw [Receiver.toPush_of_some hunpushed, Receiver.length_packetData] at hfits
    have hqueued : l.receiver.queued.length = l.receiver.readFifo.contents.length := rfl
    omega
  obtain ⟨q, hwfq, hcq, hpush⟩ := Receiver.pushData_spec h.wf size (by
    show l.receiver.rxPos + _ ≤ 8192 + 16 + 1500
    omega)
  have hstream := h.stream
  rw [Receiver.toPush_of_some hunpushed] at hstream
  refine ⟨{ l with receiver := ({ l.receiver with readFifo := q } : Receiver).advance size }, ?_, ?_⟩
  · rw [run, hunpushed]
    simp only
    rw [hpush, ok_bind]
  · refine ⟨hwfq, ?_, ?_, ?_, h.incomplete, h.short, h.order⟩
    · intro _
      show (l.receiver.rxPos + size + 3) / 4 * 4 % 8192 + 4 ≤ 8192
      omega
    · intro size hsome
      cases hsome
    · show l.record ++ q.contents ++ [] = _
      rw [hcq, take_of_length_le (by rw [Receiver.length_packetData]; omega), append_nil,
        ← hstream, append_assoc]

variable {p rest : List UInt8}

theorem take_complete {bytes : List UInt8} (hp : p.length < 65536)
    (hrecord : l.record ++ bytes = packetFrame p) :
    l.take bytes = { l with record := [], obtained := l.obtained ++ [p] } := by
  have hfirst : packetFraming.first (packetFrame p) = some (p, []) := by
    have h := first_frame (packetFraming_heads hp) []
    rw [append_nil] at h
    exact h
  unfold take
  rw [hrecord, hfirst]

theorem run_read (hwf : l.receiver.readFifo.WF) {n : Nat} (hn : 0 < n)
    (hne : l.receiver.queued ≠ []) :
    ∃ q, q.WF ∧ q.contents = l.receiver.queued.drop n
      ∧ l.run (.read n) = .ok (({ l with
          receiver := { l.receiver with readFifo := q } } : Link).take
            (l.receiver.queued.take n)) := by
  rcases BlockingDataQueue.popFront_spec hwf hn with ⟨hempty, _⟩ | ⟨_, q, hpop, hwfq, hq⟩
  · exact absurd hempty hne
  · refine ⟨q, hwfq, hq, ?_⟩
    rw [run, hpop, ok_bind]
    rfl

/-- A read takes more of the record of the first packet, and never more than
that. -/
theorem Framed.read (h : l.Framed todo) {n : Nat} (henabled : l.Enabled (.read n)) :
    ∃ l' todo', l.run (.read n) = .ok l' ∧ l'.Framed todo' := by
  obtain ⟨hpos, hwanted⟩ := henabled
  by_cases hne : l.receiver.queued = []
  · -- the reader waits
    rcases BlockingDataQueue.popFront_spec h.wf hpos with ⟨_, hpop⟩ | ⟨hsome, _⟩
    · exact ⟨l, todo, by rw [run, hpop, ok_bind], h⟩
    · exact absurd hne hsome
  obtain ⟨q, hwf, hq, hrun⟩ := run_read h.wf hpos hne
  have hstream := h.stream
  cases htodo : todo with
  | nil =>
    -- without packets nothing is queued
    rw [htodo] at hstream
    have hnil := (append_eq_nil_iff.mp (append_eq_nil_iff.mp hstream).1).2
    exact absurd hnil hne
  | cons p ps =>
    have hp : p.length < 65536 := h.short p (by rw [htodo]; exact mem_cons_self)
    have hheads := packetFraming_heads hp
    have hsplit : l.record ++ (l.receiver.queued ++ l.receiver.toPush)
        = bytes16 p.length ++ p ++ packetStream ps := by
      rw [← append_assoc, hstream, htodo]
      rfl
    -- the bytes taken belong to the first record
    have hcount : l.record.length + n ≤ (packetFrame p).length := by
      have hframe : (packetFrame p).length = 2 + p.length := length_append
      unfold wanted at hwanted
      split at hwanted
      · omega
      next hlong =>
        have htake : l.record.take 2 = bytes16 p.length :=
          take_header hheads hsplit (show 2 ≤ _ by omega)
        rw [htake, word16_bytes16 hp] at hwanted
        omega
    have hrest : l.record ++ l.receiver.queued.take n
        ++ (l.receiver.queued.drop n ++ l.receiver.toPush)
        = packetFrame p ++ packetStream ps := by
      rw [append_assoc, ← append_assoc (l.receiver.queued.take n), take_append_drop, hsplit]
      rfl
    have htaken : (l.record ++ l.receiver.queued.take n).length ≤ (packetFrame p).length := by
      rw [length_append, length_take]
      omega
    have hprefix : l.record ++ l.receiver.queued.take n <+: packetFrame p :=
      prefix_of_prefix_length_le (hrest ▸ prefix_append _ _) (prefix_append _ _) htaken
    by_cases hshort : (l.record ++ l.receiver.queued.take n).length < (packetFrame p).length
    · -- the record is still incomplete
      have hnone := first_incomplete hheads hprefix hshort
      refine ⟨_, todo, hrun, ?_⟩
      unfold take
      simp only [hnone]
      refine ⟨hwf, h.position, h.pushing, ?_, hnone, h.short, h.order⟩
      show l.record ++ l.receiver.queued.take n ++ q.contents ++ l.receiver.toPush = _
      rw [hq, append_assoc, htodo]
      exact hrest
    -- the record is complete, and the packet is handed on
    have hrecord : l.record ++ l.receiver.queued.take n = packetFrame p :=
      hprefix.eq_of_length (by omega)
    refine ⟨_, ps, hrun, ?_⟩
    rw [take_complete (l := { l with receiver := { l.receiver with readFifo := q } }) hp hrecord]
    refine ⟨hwf, h.position, h.pushing, ?_, rfl, ?_, ?_⟩
    · show [] ++ q.contents ++ l.receiver.toPush = _
      rw [hrecord] at hrest
      rw [hq]
      exact append_cancel_left hrest
    · exact fun p' hp' => h.short p' (by rw [htodo]; exact mem_cons_of_mem p hp')
    · show ((l.obtained ++ [p]) ++ ps).Sublist l.receiver.received
      have horder := h.order
      rw [htodo] at horder
      rw [append_assoc]
      exact horder

theorem Framed.reopen (h : l.Framed todo) (processOpened : Option Nat) :
    ({ l with receiver := { l.receiver with processOpened } } : Link).Framed todo :=
  ⟨h.wf, h.position, h.pushing, h.stream, h.incomplete, h.short, h.order⟩

theorem Framed.step (h : l.Framed todo) {e : Event} (henabled : l.Enabled e) (hfits : l.Fits e) :
    ∃ l' todo', l.run e = .ok l' ∧ l'.Framed todo' := by
  cases e with
  | receive rxBuffer => exact h.receive henabled hfits
  | pushData =>
    obtain ⟨l', hrun, hframed⟩ := h.pushData henabled hfits
    exact ⟨l', todo, hrun, hframed⟩
  | read n => exact h.read henabled
  | openDevice pid =>
    refine ⟨_, todo, rfl, ?_⟩
    unfold Receiver.openDevice
    split
    · exact h
    · exact h.reopen (some pid)
  | closeDevice pid =>
    refine ⟨_, todo, rfl, ?_⟩
    unfold Receiver.closeDevice
    split
    · exact h.reopen none
    · exact h

theorem framed_of_reach (h : Reach Initial FittingStep l) : ∃ todo, l.Framed todo := by
  refine @Reach.invariant _ _ _ (fun l => ∃ todo, l.Framed todo) ?_ ?_ l h
  · intro l hinit
    exact ⟨[], hinit.framed⟩
  · intro l l' _ hframed hstep
    obtain ⟨todo, hframed⟩ := hframed
    obtain ⟨e, henabled, hfits, hrun⟩ := hstep
    obtain ⟨l1, todo', hrun', hframed'⟩ := hframed.step henabled hfits
    rw [hrun] at hrun'
    cases hrun'
    exact ⟨todo', hframed'⟩

/-! ## Whole runs -/

/-- **Framing is preserved**: as long as what is pushed fits, the packets obtained are packets
received, in order; the queue holds the tail of the record being read and then whole records,
the last perhaps in the middle of being pushed; and no event ends in a fault. -/
theorem framing_preserved (h : Reach Initial FittingStep l) :
    l.obtained.Sublist l.receiver.received
      ∧ (∃ tail whole, l.receiver.queued ++ l.receiver.toPush = tail ++ packetStream whole
        ∧ ((l.record = [] ∧ tail = [] ∧ (l.obtained ++ whole).Sublist l.receiver.received)
          ∨ ∃ p, l.record ++ tail = packetFrame p
            ∧ (l.obtained ++ p :: whole).Sublist l.receiver.received))
      ∧ ∀ e, l.Enabled e → l.Fits e → ∃ l', l.run e = .ok l' := by
  obtain ⟨todo, hframed⟩ := framed_of_reach h
  refine ⟨?_, ?_, ?_⟩
  · exact (sublist_append_left _ _).trans hframed.order
  · have hstream := hframed.stream
    have horder := hframed.order
    by_cases hrecord : l.record = []
    · rw [hrecord] at hstream
      exact ⟨[], todo, hstream, .inl ⟨hrecord, rfl, horder⟩⟩
    cases htodo : todo with
    | nil =>
      rw [htodo] at hstream
      have hnil := (append_eq_nil_iff.mp (append_eq_nil_iff.mp hstream).1).1
      exact absurd hnil hrecord
    | cons p ps =>
      -- what the reader has is the start of the first record
      rw [htodo, append_assoc] at hstream
      have hstream : l.record ++ (l.receiver.queued ++ l.receiver.toPush)
          = packetFrame p ++ packetStream ps := hstream
      have hp : p.length < 65536 := hframed.short p (by rw [htodo]; exact mem_cons_self)
      have hpart := length_lt_of_first_none (packetFraming_heads hp)
        (t := l.receiver.queued ++ l.receiver.toPush) (u := packetStream ps)
        hstream hframed.incomplete
      have hprefix : l.record <+: packetFrame p :=
        prefix_of_prefix_length_le (hstream ▸ prefix_append _ _)
          (prefix_append (packetFrame p) (packetStream ps)) (Nat.le_of_lt hpart)
      obtain ⟨tail, htail⟩ := hprefix
      refine ⟨tail, ps, ?_, .inr ⟨p, htail, by rw [← htodo]; exact horder⟩⟩
      have hall : l.record ++ (l.receiver.queued ++ l.receiver.toPush)
          = l.record ++ (tail ++ packetStream ps) := by
        rw [hstream, ← append_assoc, htail]
      exact append_cancel_left hall
  · intro e henabled hfits
    obtain ⟨l', _, hrun, _⟩ := hframed.step henabled hfits
    exact ⟨l', hrun⟩

def idle : Link where
  receiver :=
    { rxBuffer := fun _ => 0, rxPos := 0, processOpened := none, readFifo := ⟨fun _ => 0, 0, 0⟩
      unpushed := none, received := [] }
  record := []
  obtained := []

theorem idle_initial : idle.Initial := ⟨rfl, ⟨rfl, rfl⟩, rfl, rfl, rfl, rfl⟩

instance (l : Link) : (e : Event) → Decidable (l.Enabled e)
  | .receive rxBuffer => inferInstanceAs (Decidable (l.receiver.unpushed = none
      ∧ ((l.fed rxBuffer).packetInvalid = true ∨ 4 ≤ (l.fed rxBuffer).packetSize)))
  | .pushData => inferInstanceAs (Decidable (l.receiver.unpushed ≠ none))
  | .read n => inferInstanceAs (Decidable (0 < n ∧ n ≤ wanted l.record))
  | .openDevice _ | .closeDevice _ => inferInstanceAs (Decidable True)

instance (l : Link) : (e : Event) → Decidable (l.Fits e)
  | .receive rxBuffer => inferInstanceAs (Decidable ((l.fed rxBuffer).packetInvalid = true
      ∨ l.receiver.processOpened = none ∨ l.receiver.readFifo.size + 2 ≤ 10240
      ∨ l.receiver.readFifo.full = true))
  | .pushData =>
    inferInstanceAs (Decidable (l.receiver.readFifo.size + l.receiver.toPush.length ≤ 10240))
  | .read _ | .openDevice _ | .closeDevice _ => inferInstanceAs (Decidable True)

/-- A packet of three bytes: its header, its bytes and its CRC. -/
def threeBytes : Bytes := Bytes.ofList [1, 0, 7, 0, 10, 20, 30, 0, 0, 0, 0]

/-- The reader takes the length before the bytes are pushed, and the bytes in two
calls. -/
def readThree : List Event :=
  [.openDevice 1, .receive threeBytes, .read 2, .pushData, .read 1, .read 2]

theorem framing_preserved_three :
    ∃ l, Reach Initial FittingStep l ∧ l.obtained = [[10, 20, 30]]
      ∧ l.obtained.Sublist l.receiver.received := by
  have hrun : (runGuarded (fun l e => l.Enabled e ∧ l.Fits e) run readThree idle).map obtained
      = .ok [[10, 20, 30]] := by
    decide +kernel
  obtain ⟨l, hl, hobtained⟩ := map_ok.mp hrun
  have hreach : Reach Initial FittingStep l :=
    Reach.runGuarded (fun _ e _ _ hguard hcall => ⟨e, hguard.1, hguard.2, hcall⟩)
      (.init idle_initial) hl
  exact ⟨l, hreach, hobtained, (framing_preserved hreach).1⟩

/-! ## A packet that fits in part -/

/-- A buffer in which every fourth position is the header of a valid packet of 1518
bytes; the data of each of them are the same. -/
def largePackets : Bytes := fun i => [1, 0, 0xEE, 5].getD (i % 4) 0

def large : List UInt8 := largePackets.first 1514

theorem length_large : large.length = 1514 := length_first _ _

theorem length_packetFrame (p : List UInt8) : (packetFrame p).length = 2 + p.length :=
  length_append

/-- The handler is done with a packet, and the next one is at its position. -/
structure Ready (l : Link) : Prop where
  wf : l.receiver.readFifo.WF
  idle : l.receiver.unpushed = none
  opened : l.receiver.processOpened ≠ none
  aligned : l.receiver.rxPos % 4 = 0
  position : l.receiver.rxPos < 8192

theorem packet_large {r : Receiver} (hbuffer : r.rxBuffer = largePackets) (haligned : r.rxPos % 4 = 0) :
    r.packetStatus = 1 ∧ r.packetSize = 1518 ∧ r.packet = large := by
  have hat : ∀ i, r.rxBuffer (r.rxPos + i) = largePackets i := by
    intro i
    rw [hbuffer]
    show [1, 0, 0xEE, 5].getD ((r.rxPos + i) % 4) 0 = [1, 0, 0xEE, 5].getD (i % 4) 0
    rw [Nat.add_mod, haligned, Nat.zero_add, Nat.mod_mod]
  have hsize : r.packetSize = 1518 := by
    unfold Receiver.packetSize
    rw [hat, hat]
    decide
  refine ⟨?_, hsize, ?_⟩
  · unfold Receiver.packetStatus
    have h0 := hat 0
    rw [Nat.add_zero] at h0
    rw [h0, hat]
    decide
  · unfold Receiver.packet
    rw [hsize]
    show first (fun i => r.rxBuffer (r.rxPos + 4 + i)) 1514 = first largePackets 1514
    refine congrArg (fun f => first f 1514) (funext fun i => ?_)
    rw [Nat.add_assoc, hat]
    show [1, 0, 0xEE, 5].getD ((4 + i) % 4) 0 = [1, 0, 0xEE, 5].getD (i % 4) 0
    rw [Nat.add_mod_left]

/-- The receiver after the length of a large packet was pushed. -/
def lengthPushed (l : Link) (readFifo : Queue UInt8 10240) : Receiver :=
  { l.fed largePackets with
    rxPos := l.receiver.rxPos + 4
    received := l.receiver.received ++ [large]
    readFifo
    unpushed := some 1518 }

/-- Some run gets to these bytes and packets, with the handler ready. -/
def Attains (queued record : List UInt8) (received obtained : List (List UInt8)) : Prop :=
  ∃ l, Reach Initial Step l ∧ l.Ready ∧ l.receiver.queued = queued ∧ l.record = record
    ∧ l.receiver.received = received ∧ l.obtained = obtained

section Attains

variable {queued record record' : List UInt8} {received obtained obtained' : List (List UInt8)}

theorem Attains.arrive (h : Attains queued record received obtained)
    (hroom : queued.length + 2 ≤ 10240) :
    Attains ((queued ++ packetFrame large).take 10240) record (received ++ [large]) obtained := by
  obtain ⟨l, hreach, h, rfl, rfl, rfl, rfl⟩ := h
  obtain ⟨hstatus, hsize, hpacket⟩ := packet_large (r := l.fed largePackets) rfl h.aligned
  have hvalid : (l.fed largePackets).packetInvalid = false := by
    unfold Receiver.packetInvalid
    rw [hstatus, hsize]
    decide
  have hpos := h.position
  have haligned := h.aligned
  -- the length
  obtain ⟨q1, hwf1, hq1, hreceive⟩ := Receiver.receive_open (r := l.fed largePackets) h.wf hvalid
    h.opened
  have hq1 : q1.contents = l.receiver.queued ++ bytes16 1514 := by
    rw [hq1, hsize]
    show l.receiver.queued ++ (bytes16 1514).take (10240 - l.receiver.queued.length) = _
    rw [take_of_length_le (show 2 ≤ _ by omega)]
  have hnotfull : ¬ (l.fed largePackets).queued.length = 10240 := by
    show ¬ l.receiver.queued.length = 10240
    omega
  rw [if_neg hnotfull, hpacket, hsize] at hreceive
  have hstep1 : Step l { l with receiver := l.lengthPushed q1 } :=
    ⟨.receive largePackets, ⟨h.idle, .inr (by rw [hsize]; omega)⟩, by
      rw [run, hreceive, ok_bind]
      rfl⟩
  -- the bytes
  obtain ⟨q2, hwf2, hq2, hpush⟩ := Receiver.pushData_spec (r := l.lengthPushed q1) hwf1 1518 (by
      show l.receiver.rxPos + 4 + 1514 ≤ 8192 + 16 + 1500
      omega)
  have hdata : (l.lengthPushed q1).packetData 1518 = large := by
    rw [← hpacket]
    unfold Receiver.packet
    rw [hsize]
    rfl
  have hstep2 : Step { l with receiver := l.lengthPushed q1 }
      { l with receiver := ({ l.lengthPushed q1 with readFifo := q2 } : Receiver).advance 1518 } := by
    refine ⟨.pushData, Option.some_ne_none 1518, ?_⟩
    show ((l.lengthPushed q1).pushData 1518 >>= fun receiver => .ok { l with receiver }) = _
    rw [hpush, ok_bind]
  refine ⟨_, (hreach.step hstep1).step hstep2, ⟨hwf2, rfl, h.opened, ?_, ?_⟩, ?_, rfl, rfl, rfl⟩
  · show (l.receiver.rxPos + 4 + 1518 + 3) / 4 * 4 % 8192 % 4 = 0
    omega
  · show (l.receiver.rxPos + 4 + 1518 + 3) / 4 * 4 % 8192 < 8192
    omega
  · show q2.contents = _
    rw [hq2, hdata]
    show q1.contents ++ large.take (10240 - q1.contents.length) = _
    have hlen : (l.receiver.queued ++ bytes16 1514).length = l.receiver.queued.length + 2 :=
      length_append
    have hfits : (l.receiver.queued ++ bytes16 1514).take 10240 = l.receiver.queued ++ bytes16 1514 :=
      take_of_length_le (by omega)
    rw [hq1, packetFrame, length_large, ← append_assoc, take_append, hfits]

/-- A read takes what is queued, up to what was asked for. -/
theorem Attains.read {n : Nat} (h : Attains queued record received obtained) (hn : 0 < n)
    (hwanted : n ≤ wanted record) (hne : queued ≠ []) (htake : ∀ r,
      (⟨r, record, obtained⟩ : Link).take (queued.take n) = ⟨r, record', obtained'⟩) :
    Attains (queued.drop n) record' received obtained' := by
  obtain ⟨l, hreach, h, rfl, rfl, rfl, rfl⟩ := h
  obtain ⟨q, hwf, hq, hrun⟩ := run_read h.wf hn hne
  rw [htake] at hrun
  exact ⟨_, hreach.step ⟨.read n, ⟨hn, hwanted⟩, hrun⟩,
    ⟨hwf, h.idle, h.opened, h.aligned, h.position⟩, hq, rfl, rfl, rfl⟩

theorem Attains.readLength (h : Attains (bytes16 p.length ++ rest) [] received obtained)
    (hpos : p ≠ []) (hp : p.length < 65536) :
    Attains rest (bytes16 p.length) received obtained := by
  have hnone : packetFraming.first (bytes16 p.length) = none := by
    refine first_incomplete (packetFraming_heads hp) (prefix_append _ _) ?_
    rw [length_append]
    have := length_pos_of_ne_nil hpos
    omega
  refine h.read (n := 2) (by decide) (by decide) (cons_ne_nil _ _) fun r => ?_
  show (⟨r, [], obtained⟩ : Link).take (bytes16 p.length) = _
  unfold take
  rw [nil_append, hnone]

theorem Attains.readBytes (h : Attains (p ++ rest) (bytes16 p.length) received obtained)
    (hpos : p ≠ []) (hp : p.length < 65536) : Attains rest [] received (obtained ++ [p]) := by
  have hwanted : wanted (bytes16 p.length) = p.length := by
    show 2 + word16 (bytes16 p.length) - 2 = p.length
    rw [word16_bytes16 hp]
    omega
  rw [show rest = (p ++ rest).drop p.length from drop_left.symm]
  refine h.read (length_pos_of_ne_nil hpos) hwanted.ge (append_ne_nil_of_left_ne_nil hpos _) ?_
  intro r
  rw [take_left]
  exact take_complete (l := ⟨r, bytes16 p.length, obtained⟩) hp rfl

/-- Records of a large packet that nobody reads. -/
def unread (n : Nat) : List UInt8 := (List.replicate n (packetFrame large)).flatten

theorem length_unread (n : Nat) : (unread n).length = n * 1516 := by
  unfold unread
  rw [length_flatten, map_replicate, sum_replicate_nat, length_packetFrame, length_large]

theorem unread_succ (n : Nat) : unread (n + 1) = unread n ++ packetFrame large := by
  unfold unread
  rw [replicate_succ', flatten_append, flatten_singleton]

/-- Up to six large packets arrive unread. -/
theorem attains_unread : ∀ n, n ≤ 6 → Attains (unread n) [] (List.replicate n large) [] := by
  intro n
  induction n with
  | zero =>
    intro _
    have hopen : Step idle { idle with receiver := (idle.receiver.openDevice 1).2 } :=
      ⟨.openDevice 1, trivial, rfl⟩
    refine ⟨_, (Reach.init idle_initial).step hopen, ?_, idle_initial.queued_eq, rfl, rfl, rfl⟩
    exact ⟨idle_initial.framed.wf, rfl, Option.some_ne_none 1, rfl, by decide⟩
  | succ n ih =>
    intro hn
    have hlen := length_unread n
    have hlen' := length_unread (n + 1)
    have h := (ih (by omega)).arrive (by omega)
    rw [← unread_succ, take_of_length_le (by omega), ← replicate_succ'] at h
    exact h

theorem Attains.drain (n : Nat) : ∀ {obtained : List (List UInt8)},
    Attains (unread n ++ rest) [] received obtained →
    ∃ obtained', Attains rest [] received obtained' := by
  have hne : large ≠ [] := ne_nil_of_length_pos (by rw [length_large]; decide)
  have hlen : large.length < 65536 := by
    rw [length_large]
    decide
  induction n with
  | zero => exact fun h => ⟨_, h⟩
  | succ n ih =>
    intro obtained h
    have hsplit : unread (n + 1) ++ rest = bytes16 large.length ++ (large ++ (unread n ++ rest)) := by
      rw [unread, replicate_succ, flatten_cons]
      simp only [packetFrame, append_assoc]
      rfl
    rw [hsplit] at h
    exact ih ((h.readLength hne hlen).readBytes hne hlen)

end Attains

/-- What the reader takes for the seventh packet: the part of it that fitted, and
the start of the record of the eighth. -/
def mixed : List UInt8 := large.take 1142 ++ (packetFrame large).take 372

theorem length_mixed : mixed.length = 1514 := by
  unfold mixed
  rw [length_append, length_take, length_take, length_packetFrame, length_large]
  rfl

theorem mixed_ne_large : mixed ≠ large := by
  intro heq
  have hbyte : mixed[1142]? = large[1142]? := by rw [heq]
  have hlen : (large.take 1142).length = 1142 := by
    rw [length_take, length_large]
    rfl
  have hlarge : large[1142]? = some 0xEE := getElem?_first _ (by decide)
  have hmixed : mixed[1142]? = some 0xEA := by
    unfold mixed
    rw [getElem?_append_right (by omega), hlen, packetFrame, length_large]
    rfl
  rw [hlarge, hmixed] at hbyte
  revert hbyte
  decide

/-- Seven large packets arrive before the reader takes any; it reads six and the length of the
seventh, an eighth arrives, and it goes on. -/
theorem framing_lost :
    ∃ l, Reach Initial Step l ∧ ∃ p ∈ l.obtained, p ∉ l.receiver.received := by
  have hne : mixed ≠ [] := ne_nil_of_length_pos (by rw [length_mixed]; decide)
  have hshort : mixed.length < 65536 := by
    rw [length_mixed]
    decide
  have hlen := length_unread 6
  have hseven := (attains_unread 6 (by decide)).arrive (by omega)
  -- six whole records, and 1144 bytes of the seventh
  have hpart : (unread 6 ++ packetFrame large).take 10240
      = unread 6 ++ (bytes16 mixed.length ++ large.take 1142) := by
    rw [take_append, take_of_length_le (by omega), hlen, length_mixed, packetFrame, length_large,
      take_append]
    rfl
  rw [hpart] at hseven
  obtain ⟨obtained, hseventh⟩ := hseven.drain
  -- the length of the seventh, and the eighth
  have hlen' : (large.take 1142).length = 1142 := by
    rw [length_take, length_large]
    rfl
  have height := (hseventh.readLength hne hshort).arrive (by omega)
  have hmixed : (large.take 1142 ++ packetFrame large).take 10240
      = mixed ++ (packetFrame large).drop 372 := by
    rw [take_of_length_le, mixed, append_assoc, take_append_drop]
    rw [length_append, hlen', length_packetFrame, length_large]
    decide
  rw [hmixed] at height
  obtain ⟨l, hreach, _, _, _, hreceived, hobtained⟩ := height.readBytes hne hshort
  refine ⟨l, hreach, mixed, ?_, ?_⟩
  · rw [hobtained]
    exact mem_append_right _ (mem_singleton.mpr rfl)
  · rw [hreceived, ← replicate_succ', ← replicate_succ']
    intro hmem
    exact mixed_ne_large (eq_of_mem_replicate hmem)

end Link

end Peos2.Kernel
