/-
  Kernel.Rtl8139 — the network card driver (`kernel/rtl8139.cc`,
  `kernel/support/blocking_queue.h`).

  Sending: what a process writes is a stream of packets, each behind its 16-bit length.
  The driver collects it in a ring buffer and hands every complete packet to `transmit`,
  through a static buffer of 1600 bytes.

  Receiving: the interrupt handler pushes the length and then the bytes of each packet
  onto a queue that a process reads. The second push may come after the reader has
  run, since the first one wakes it.

  What the card answers, and what it has put into its buffer, are parameters.
-/
import Peos2.Support.RingBuffer

namespace Peos2.Kernel

open Peos2.Lib Peos2.Support

/-- The `uint16_t` whose bytes lie at a pointer. -/
def word16 (bytes : List UInt8) : Nat := (bytes.getD 0 0).toNat + 256 * (bytes.getD 1 0).toNat

/-- The bytes of a `uint16_t`. -/
def bytes16 (n : Nat) : List UInt8 := [UInt8.ofNat n, UInt8.ofNat (n / 256)]

/-! ## Sending -/

/-- `#define TSR_OWN 0x00002000` -/
def TSR_OWN : UInt32 := 0x2000

/-- A write to a register of a descriptor: `TSAD0 + desc * 4` is given the address of a
buffer, `TSD0 + desc * 4` a status. -/
inductive RegisterWrite where
  | bufferAddress (desc buffer : Nat)
  | status (desc : Nat) (value : UInt32)
  deriving Repr, DecidableEq

/-- The state of the sending side; `transmitted` are the packets that `transmit`
was called with, and `registers` what it has written to the card, oldest first. -/
structure Transmitter where
  /-- `uint8_t tx_buffers[4][1516]` -/
  txBuffers : Nat → Bytes
  txCurWrite : UInt32
  txCurSend : UInt32
  pendingTx : RingBuffer 10240
  /-- `static char buf[1600]` -/
  buf : Bytes
  transmitted : List (List UInt8)
  registers : List RegisterWrite

namespace Transmitter

/-- The buffer of a descriptor after the packet was copied and padded. -/
def filled (buffer data : Bytes) (length : Nat) : Bytes := fun i =>
  if i < min length 1500 then data i else if length ≤ i ∧ i < 60 then 0 else buffer i

/-- `new_desc_status`, with the length that the padding loop ends with. -/
def newDescStatus (length : Nat) : UInt32 :=
  (UInt32.ofNat (max length 60) &&& (0x1FFF : UInt32)) ||| ((9 : UInt32) <<< (16 : UInt32))

/-- `int transmit(pci_device *dev, const char *data, size_t length)`; `status` is
what the card answers for the descriptor. -/
def transmit (t : Transmitter) (status : UInt32) (data : Bytes) (length : Nat) : Int × Transmitter :=
  let t := { t with transmitted := t.transmitted ++ [data.first length] }
  if t.txCurWrite ≥ t.txCurSend + 4 then (-1, t)
  else if status &&& TSR_OWN = 0 then (-1, t)
  else
    let writeDesc := (t.txCurWrite % 4).toNat
    (0, { t with
      txBuffers := fun i =>
        if i = writeDesc then filled (t.txBuffers writeDesc) data length else t.txBuffers i
      txCurWrite := t.txCurWrite + 1
      registers := t.registers ++
        [.bufferAddress writeDesc writeDesc, .status writeDesc (newDescStatus length)] })

/-- The bytes read into `buf`, which has room for 1600. -/
def copyToBuf (buf : Bytes) (bytes : List UInt8) : Checked Bytes :=
  if bytes.length ≤ 1600 then
    .ok fun i => if i < bytes.length then bytes.getD i 0 else buf i
  else .error .outOfBounds

/-- The loop body of `write` once a packet is complete. -/
def sendPacket (card : Nat → UInt32) (t : Transmitter) (packetSize : Nat) :
    Checked Transmitter := do
  let (consumedHeader, pendingTx) ← t.pendingTx.consume 2
  check (consumedHeader == 2)
    "consumed_header == sizeof(packet_size) && \"failed to consume pending tx packet size\""
  let (payload, pendingTx) ← pendingTx.readFront (UInt32.ofNat packetSize)
  let buf ← copyToBuf t.buf payload
  check (payload.length == packetSize)
    "consumed_payload == packet_size && \"failed to consume pending tx payload\""
  .ok ({ t with pendingTx, buf }.transmit (card t.transmitted.length) buf packetSize).2

/-- The loop of `write`; every turn takes at least the header off the ring. -/
def sendPackets (card : Nat → UInt32) : Nat → Transmitter → Checked Transmitter
  | 0, _ => .error .outOfFuel
  | fuel + 1, t =>
    if t.pendingTx.size ≥ 2 then do
      let header ← t.pendingTx.peek 0 2
      if header.length ≠ 2 then .ok t
      else if t.pendingTx.size < UInt32.ofNat (2 + word16 header) then .ok t
      else
        let t ← t.sendPacket card (word16 header)
        sendPackets card fuel t
    else .ok t

/-- `int write(int handle, const char *data, int length)`; `card n` is the status
that the card answers in call number `n` of `transmit`. -/
def write (card : Nat → UInt32) (t : Transmitter) (data : Bytes) (length : Int) :
    Checked (Int × Transmitter) := do
  check (decide (length > 0)) "length > 0"
  let bytesWritable := min (signed t.pendingTx.capacity) length
  let (written, pendingTx) ← t.pendingTx.write data (unsigned bytesWritable) (-1)
  if written = false then .ok (0, { t with pendingTx })
  else
    let t ← sendPackets card (pendingTx.size.toNat + 1) { t with pendingTx }
    .ok (bytesWritable, t)

/-- The loop of `int_rtl8139` over the descriptors that were handed to the card. -/
def sendDone (statuses : Nat → UInt32) : Nat → Transmitter → Transmitter
  | 0, t => t
  | fuel + 1, t =>
    if t.txCurSend < t.txCurWrite then
      let status := statuses (t.txCurSend % 4).toNat
      -- underrun, collision, abort or lost carrier: the packet is dropped
      if status &&& 0xE0004000 ≠ 0 ∨ status &&& TSR_OWN ≠ 0 then
        sendDone statuses fuel { t with txCurSend := t.txCurSend + 1 }
      else t
    else t

/-- `int_rtl8139` on `IMR_TOK`: the packets the card has taken, then the cursors
are normalised. -/
def intTransmitOk (statuses : Nat → UInt32) (t : Transmitter) : Transmitter :=
  let t := sendDone statuses (t.txCurWrite - t.txCurSend).toNat t
  if t.txCurSend ≥ 4 then
    { t with txCurSend := t.txCurSend - 4, txCurWrite := t.txCurWrite - 4 }
  else t

end Transmitter

/-! ## The queue that is read -/

namespace BlockingDataQueue

variable {maxLen : Nat}

/-- The loop of `push_back` over the bytes of an array with `size` entries, from
entry `i` on. It ends early when the queue is full. -/
def pushFrom (data : Bytes) (size : Nat) : Nat → Nat → Queue UInt8 maxLen →
    Checked (Nat × Queue UInt8 maxLen)
  | _, 0, q => .ok (0, q)
  | i, n + 1, q => do
      let (pushed, q) ← q.pushBack (data i)
      if pushed = false then .ok (0, q)
      else if size ≤ i then .error .outOfBounds
      else
        let (count, q) ← pushFrom data size (i + 1) n q
        .ok (count + 1, q)

/-- The loop that takes bytes off the queue, at most `n`. -/
def popUpTo : Nat → Queue UInt8 maxLen → Checked (List UInt8 × Queue UInt8 maxLen)
  | 0, q => .ok ([], q)
  | n + 1, q =>
    if q.size > 0 then do
      let (c, q) ← q.popFront
      let (cs, q) ← popUpTo n q
      .ok (c :: cs, q)
    else .ok ([], q)

/-- `int pop_front(char *destination, int max_size)`, as far as it gets without
waiting: on an empty queue it waits for the next push. -/
def popFront (q : Queue UInt8 maxLen) (maxSize : Nat) :
    Checked (Option (List UInt8 × Queue UInt8 maxLen)) :=
  if maxSize = 0 then .ok (some ([], q))
  else if q.size = 0 then .ok none
  else do
    let (cs, q) ← popUpTo maxSize q
    .ok (some (cs, q))

/-- The `while (true)` of `pop_front`, for at most `fuel` rounds. The length is an
`int`; the inner loop takes no byte unless it is positive. -/
def popLoop (maxSize : Int) : Nat → Queue UInt8 maxLen →
    Checked (Option (List UInt8 × Queue UInt8 maxLen))
  | 0, _ => .error .outOfFuel
  | fuel + 1, q =>
    if q.size = 0 then .ok none
    else do
      let (cs, q) ← popUpTo maxSize.toNat q
      if cs.length > 0 then .ok (some (cs, q)) else popLoop maxSize fuel q

/-- `pop_front` with the `int` that `read` passes on. -/
def popFrontInt (fuel : Nat) (q : Queue UInt8 maxLen) (maxSize : Int) :
    Checked (Option (List UInt8 × Queue UInt8 maxLen)) :=
  if maxSize = 0 then .ok (some ([], q)) else popLoop maxSize fuel q

end BlockingDataQueue

/-! ## Receiving -/

/-- The size of `rx_buffer`: the ring, and room behind it for what the card does
not wrap. -/
def rxBufferSize : Nat := 8192 + 16 + 1500

/-- The state of the receiving side. `unpushed` is the size of the packet whose length was
pushed and whose bytes were not; `received` are the valid packets delivered, oldest first. -/
structure Receiver where
  rxBuffer : Bytes
  rxPos : Nat
  processOpened : Option Nat
  readFifo : Queue UInt8 10240
  unpushed : Option Nat
  received : List (List UInt8)

namespace Receiver

/-- The two halves of the header of the packet at `rx_pos`: its status and its
size, which counts the trailing CRC. -/
def packetStatus (r : Receiver) : Nat :=
  word16 [r.rxBuffer r.rxPos, r.rxBuffer (r.rxPos + 1)]

def packetSize (r : Receiver) : Nat :=
  word16 [r.rxBuffer (r.rxPos + 2), r.rxBuffer (r.rxPos + 3)]

/-- `!(packet_status & RXS_ROK) || packet_size > 1518` -/
def packetInvalid (r : Receiver) : Bool := r.packetStatus % 2 = 0 || r.packetSize > 1518

/-- `uint16_t data_size = packet_size - 4` -/
def dataSize (packetSize : Nat) : Nat := (packetSize + 65532) % 65536

/-- The bytes of the packet whose header was consumed. -/
def packetData (r : Receiver) (size : Nat) : List UInt8 :=
  Bytes.first (fun i => r.rxBuffer (r.rxPos + i)) (dataSize size)

/-- `rx_pos = ALIGN_UP(rx_pos + packet_size, 4) % rx_ring_size` -/
def advance (r : Receiver) (packetSize : Nat) : Receiver :=
  { r with rxPos := (r.rxPos + packetSize + 3) / 4 * 4 % 8192, unpushed := none }

/-- The second push of `receive` and the rest of the turn. -/
def pushData (r : Receiver) (size : Nat) : Checked Receiver := do
  let (_, readFifo) ← BlockingDataQueue.pushFrom (fun i => r.rxBuffer (r.rxPos + i))
    (rxBufferSize - r.rxPos) 0 (dataSize size) r.readFifo
  .ok ({ r with readFifo }.advance size)

/-- One turn of the loop of `receive`. The first push wakes the reader if it put
anything into the queue; else the turn goes on at once. -/
def receive (r : Receiver) : Checked Receiver :=
  let size := r.packetSize
  if r.packetInvalid then .ok ({ r with rxPos := 0 }.advance 0)
  else
    let r := { r with rxPos := r.rxPos + 4 }
    let r := { r with received := r.received ++ [r.packetData size] }
    match r.processOpened with
    | none => .ok (r.advance size)
    | some _ => do
        let (count, readFifo) ← BlockingDataQueue.pushFrom (Bytes.ofList (bytes16 (dataSize size)))
          2 0 2 r.readFifo
        let r := { r with readFifo := readFifo }
        if count = 0 then r.pushData size else .ok { r with unpushed := some size }

/-- `int open(vfs_device *, const char *path, uint32_t flags)` by the process `pid`. -/
def openDevice (r : Receiver) (pid : Nat) : Int × Receiver :=
  if r.processOpened.isSome then (-206, r) else (0, { r with processOpened := some pid })

/-- `int close(int handle)` by the process `pid`; the queue is not emptied. -/
def closeDevice (r : Receiver) (pid : Nat) : Int × Receiver :=
  if r.processOpened = some pid then (0, { r with processOpened := none }) else (-205, r)

end Receiver

end Peos2.Kernel
