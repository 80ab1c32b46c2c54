/-
  Kernel.TxRing — the ring of transmit descriptors (`kernel/rtl8139.cc`).

  `transmit` fills the buffer of the next of four descriptors, and the interrupt
  handler passes those that the card is done with. Before the handler takes whole
  turns off the cursors it can be switched away from, and `transmit` be called.

  Main result: `ring_fifo`.
-/
import Peos2.Kernel.Rtl8139
import Peos2.Lib.Run
import Mathlib.Data.List.Nodup

namespace Peos2.Kernel

open Peos2.Lib Peos2.Support List

namespace Transmitter

/-- A descriptor, with what lies in its buffer. -/
def descriptor (t : Transmitter) (i : Nat) : Nat × Bytes := (i, t.txBuffers i)

/-- The descriptors from `tx_cur_send` to `tx_cur_write - 1`. -/
def inFlight (t : Transmitter) : List (Nat × Bytes) :=
  window t.descriptor 4 t.txCurSend.toNat (t.txCurWrite.toNat - t.txCurSend.toNat)

/-- The end of `int_rtl8139`. -/
def normalised (t : Transmitter) : Transmitter :=
  if t.txCurSend ≥ 4 then
    { t with txCurSend := t.txCurSend - 4, txCurWrite := t.txCurWrite - 4 }
  else t

/-- At most four descriptors are between the cursors, and `tx_cur_send` is below `n`. -/
structure Cursors (t : Transmitter) (n : Nat) : Prop where
  le : t.txCurSend.toNat ≤ t.txCurWrite.toNat
  room : t.txCurWrite.toNat ≤ t.txCurSend.toNat + 4
  small : t.txCurSend.toNat < n

variable {t : Transmitter} {n : Nat}

theorem toNat_add_small {a : UInt32} (ha : a.toNat < 12) {k : Nat} (hk : k ≤ 4) :
    (a + UInt32.ofNat k).toNat = a.toNat + k := by
  rw [toNat_add_eq, toNat_ofNat_lt (by omega)]
  omega

/-- The handler passes some of the descriptors, from the first on. -/
theorem sendDone_spec (statuses : Nat → UInt32) (fuel : Nat) (h : t.Cursors 8) :
    ∃ k, k ≤ t.txCurWrite.toNat - t.txCurSend.toNat ∧
      sendDone statuses fuel t = { t with txCurSend := t.txCurSend + UInt32.ofNat k } := by
  obtain ⟨hle, hroom, hsmall⟩ := h
  -- `k` were passed before the rounds that are left
  have hloop : ∀ k, k ≤ t.txCurWrite.toNat - t.txCurSend.toNat →
      ∃ k', k' ≤ t.txCurWrite.toNat - t.txCurSend.toNat ∧
        sendDone statuses fuel { t with txCurSend := t.txCurSend + UInt32.ofNat k }
          = { t with txCurSend := t.txCurSend + UInt32.ofNat k' } := by
    induction fuel with
    | zero => exact fun k hk => ⟨k, hk, rfl⟩
    | succ fuel ih =>
      intro k hk
      rw [sendDone]
      split
      next hlt =>
        rw [lt_iff_toNat, toNat_add_small (by omega) (by omega)] at hlt
        simp only at hlt ⊢
        split
        · rw [UInt32.add_assoc, ← UInt32.ofNat_one, ← UInt32.ofNat_add]
          exact ih (k + 1) (by omega)
        · exact ⟨k, hk, rfl⟩
      · exact ⟨k, hk, rfl⟩
  simpa using hloop 0 (Nat.zero_le _)

theorem inFlight_passed {k : Nat} (h : t.Cursors 8)
    (hk : k ≤ t.txCurWrite.toNat - t.txCurSend.toNat) :
    { t with txCurSend := t.txCurSend + UInt32.ofNat k }.inFlight = t.inFlight.drop k := by
  obtain ⟨hle, hroom, hsmall⟩ := h
  show window t.descriptor 4 (t.txCurSend + UInt32.ofNat k).toNat _ = _
  rw [inFlight, drop_window, toNat_add_small (by omega) (by omega), Nat.sub_sub]

theorem normalised_spec (h : t.Cursors 8) :
    t.normalised.Cursors 4 ∧ t.normalised.inFlight = t.inFlight := by
  obtain ⟨hle, hroom, hsmall⟩ := h
  unfold normalised
  split
  next hge =>
    have hge' : 4 ≤ t.txCurSend.toNat := le_iff_toNat.mp hge
    have hsend : (t.txCurSend - 4).toNat = t.txCurSend.toNat - 4 := UInt32.toNat_sub_of_le _ _ hge
    have hwrite : (t.txCurWrite - 4).toNat = t.txCurWrite.toNat - 4 :=
      UInt32.toNat_sub_of_le _ _ (le_iff_toNat.mpr (hge'.trans hle))
    refine ⟨⟨?_, ?_, ?_⟩, ?_⟩
    · simp only; omega
    · simp only; omega
    · simp only; omega
    · show window t.descriptor 4 (t.txCurSend - 4).toNat _ = _
      rw [hsend, hwrite, Nat.sub_sub_sub_cancel_right hge']
      exact window_sub_mul t.descriptor 4 _ 1 _ hge'
  next hlt =>
    have hlt' : ¬ 4 ≤ t.txCurSend.toNat := fun hge => hlt (le_iff_toNat.mpr hge)
    exact ⟨⟨hle, hroom, by omega⟩, rfl⟩

/-- What `transmit` hands over: the next descriptor, with the packet in its buffer. -/
def offered (t : Transmitter) (data : Bytes) (length : Nat) : Nat × Bytes :=
  let desc := t.txCurWrite.toNat % 4
  (desc, filled (t.txBuffers desc) data length)

/-- `transmit` puts its descriptor behind those in flight, whose buffers stay. -/
theorem transmit_spec (h : t.Cursors n) (hn : n ≤ 8) (status : UInt32) (data : Bytes)
    (length : Nat) : (t.transmit status data length).2.Cursors n ∧
      (t.transmit status data length).2.inFlight = t.inFlight ++
        if (t.transmit status data length).1 = 0 then [t.offered data length] else [] := by
  obtain ⟨hle, hroom, hsmall⟩ := h
  have hlimit : (t.txCurSend + 4).toNat = t.txCurSend.toNat + 4 :=
    toNat_add_small (by omega) (Nat.le_refl 4)
  have hsucc : (t.txCurWrite + 1).toNat = t.txCurWrite.toNat + 1 :=
    toNat_add_small (by omega) (show 1 ≤ 4 by decide)
  have hdesc : (t.txCurWrite % 4).toNat = t.txCurWrite.toNat % 4 := UInt32.toNat_mod _ _
  unfold transmit
  simp only
  split
  · exact ⟨⟨hle, hroom, hsmall⟩, (append_nil _).symm⟩
  next hfree =>
    rw [ge_iff_le, le_iff_toNat, hlimit] at hfree
    split
    · exact ⟨⟨hle, hroom, hsmall⟩, (append_nil _).symm⟩
    refine ⟨⟨?_, ?_, hsmall⟩, ?_⟩
    · simp only; omega
    · simp only; omega
    have hback := window_store_back t.descriptor (r := t.txCurSend.toNat) (t.offered data length)
      (show t.txCurWrite.toNat - t.txCurSend.toNat < 4 by omega)
    rw [Nat.add_sub_cancel' hle] at hback
    rw [if_pos rfl, inFlight, inFlight, ← hback]
    simp only
    rw [hsucc, Nat.sub_add_comm hle, hdesc]
    congr 1
    funext i
    simp only [descriptor, storeAt, offered]
    split
    next heq => rw [heq]
    next => rfl

theorem nodup_inFlight (h : t.Cursors n) : (t.inFlight.map Prod.fst).Nodup := by
  obtain ⟨hle, hroom, hsmall⟩ := h
  rw [inFlight, window, map_map]
  refine Nodup.map_on ?_ nodup_range
  intro i hi j hj heq
  rw [mem_range] at hi hj
  exact slot_inj (by omega) (by omega) heq

end Transmitter

/-! ## Runs -/

/-- The ring, with the descriptors handed to the card and those it is done with, in order;
`handling` is set from the loop of the handler to its end. -/
structure TxRing where
  tx : Transmitter
  handed : List (Nat × Bytes)
  retired : List (Nat × Bytes)
  handling : Bool

namespace TxRing

open Transmitter

inductive Event where
  | transmit (status : UInt32) (data : Bytes) (length : Nat)
  /-- `int_rtl8139` up to the call of `receive`; the card answers these statuses. -/
  | done (statuses : Nat → UInt32)
  /-- The end of the handler. -/
  | normalise

def run (r : TxRing) : Event → TxRing
  | .transmit status data length =>
    let (ret, tx) := r.tx.transmit status data length
    { r with tx, handed := r.handed ++ if ret = 0 then [r.tx.offered data length] else [] }
  | .done statuses =>
    let tx := sendDone statuses (r.tx.txCurWrite - r.tx.txCurSend).toNat r.tx
    let passed := tx.txCurSend.toNat - r.tx.txCurSend.toNat
    { r with tx, retired := r.retired ++ r.tx.inFlight.take passed, handling := true }
  | .normalise => { r with tx := r.tx.normalised, handling := false }

/-- The card is not heard while the handler runs. -/
def Enabled (r : TxRing) : Event → Prop
  | .transmit _ _ _ => True
  | .done _ => r.handling = false
  | .normalise => r.handling = true

def Initial (r : TxRing) : Prop :=
  r.tx.txCurSend = 0 ∧ r.tx.txCurWrite = 0 ∧ r.handed = [] ∧ r.retired = [] ∧ r.handling = false

def Step (r r' : TxRing) : Prop := ∃ e, r.Enabled e ∧ r.run e = r'

structure Orderly (r : TxRing) : Prop where
  cursors : r.tx.Cursors (if r.handling then 8 else 4)
  fifo : r.handed = r.retired ++ r.tx.inFlight

variable {r : TxRing}

theorem Orderly.step (h : r.Orderly) {e : Event} (he : r.Enabled e) : (r.run e).Orderly := by
  obtain ⟨hcursors, hfifo⟩ := h
  cases e with
  | transmit status data length =>
    obtain ⟨hcursors', hflight⟩ := transmit_spec hcursors (by split <;> decide) status data length
    refine ⟨hcursors', ?_⟩
    simp only [run]
    rw [hflight, hfifo, append_assoc]
  | done statuses =>
    rw [show r.handling = false from he] at hcursors
    obtain ⟨hle, hroom, hsmall : r.tx.txCurSend.toNat < 4⟩ := hcursors
    have hcursors : r.tx.Cursors 8 := ⟨hle, hroom, by omega⟩
    obtain ⟨k, hk, hdone⟩ :=
      sendDone_spec statuses (r.tx.txCurWrite - r.tx.txCurSend).toNat hcursors
    have hsend := toNat_add_small (a := r.tx.txCurSend) (k := k) (by omega) (by omega)
    simp only [run]
    rw [hdone]
    refine ⟨⟨?_, ?_, ?_⟩, ?_⟩
    · simp only; omega
    · simp only; omega
    · show (r.tx.txCurSend + UInt32.ofNat k).toNat < 8
      omega
    · simp only
      rw [hsend, Nat.add_sub_cancel_left, inFlight_passed hcursors hk, append_assoc,
        take_append_drop]
      exact hfifo
  | normalise =>
    rw [show r.handling = true from he] at hcursors
    obtain ⟨hcursors', hflight⟩ := normalised_spec hcursors
    refine ⟨hcursors', ?_⟩
    simp only [run]
    rw [hflight, hfifo]

/-- **The ring is a FIFO of packets**: at most four descriptors are in flight, all different,
and their buffers hold what was handed over, oldest first, wherever `transmit` is called
between the two halves of the handler. -/
theorem ring_fifo (h : Reach Initial Step r) :
    r.handed = r.retired ++ r.tx.inFlight
      ∧ r.tx.inFlight.length ≤ 4 ∧ (r.tx.inFlight.map Prod.fst).Nodup
      ∧ r.tx.txCurSend.toNat ≤ r.tx.txCurWrite.toNat ∧ r.tx.txCurWrite.toNat < 12 := by
  have horderly : r.Orderly := by
    refine @Reach.invariant _ _ _ Orderly ?_ ?_ r h
    · rintro r ⟨hsend, hwrite, hhanded, hretired, hhandling⟩
      refine ⟨⟨?_, ?_, ?_⟩, ?_⟩
      · simp [hsend, hwrite]
      · simp [hsend, hwrite]
      · simp [hsend, hhandling]
      · simp [hhanded, hretired, inFlight, window, hsend, hwrite]
    · rintro r r' _ horderly ⟨e, he, rfl⟩
      exact horderly.step he
  obtain ⟨hcursors, hfifo⟩ := horderly
  have hnodup := nodup_inFlight hcursors
  obtain ⟨hle, hroom, hsmall⟩ := hcursors
  have hbound : r.tx.txCurSend.toNat < 8 := by
    split at hsmall <;> omega
  refine ⟨hfifo, ?_, hnodup, hle, by omega⟩
  rw [inFlight, length_window]
  omega

def unused : TxRing where
  tx := ⟨fun _ _ => 0, 0, 0, ⟨⟨fun _ => 0, 0, 0⟩⟩, fun _ => 0, [], []⟩
  handed := []
  retired := []
  handling := false

/-- All four descriptors are handed over and passed, the first is used again before the cursors
are normalised, and the second after it. -/
def onceRound : List Event :=
  List.replicate 4 (.transmit TSR_OWN (fun _ => 7) 60) ++
    [.done fun _ => TSR_OWN, .transmit TSR_OWN (fun _ => 8) 60, .normalise,
      .transmit TSR_OWN (fun _ => 9) 60]

theorem ring_fifo_round : ∃ r, Reach Initial Step r ∧ r.handed.map Prod.fst = [0, 1, 2, 3, 0, 1]
    ∧ r.retired.map Prod.fst = [0, 1, 2, 3] ∧ r.handed = r.retired ++ r.tx.inFlight
    ∧ r.tx.txCurSend = 0 := by
  have hstart : Reach Initial Step unused := .init ⟨rfl, rfl, rfl, rfl, rfl⟩
  have hfilled := (((hstart.step ⟨.transmit TSR_OWN (fun _ => 7) 60, trivial, rfl⟩).step
    ⟨.transmit TSR_OWN (fun _ => 7) 60, trivial, rfl⟩).step
    ⟨.transmit TSR_OWN (fun _ => 7) 60, trivial, rfl⟩).step
    ⟨.transmit TSR_OWN (fun _ => 7) 60, trivial, rfl⟩
  have hreach : Reach Initial Step (onceRound.foldl run unused) :=
    (((hfilled.step ⟨.done fun _ => TSR_OWN, rfl, rfl⟩).step
      ⟨.transmit TSR_OWN (fun _ => 8) 60, trivial, rfl⟩).step ⟨.normalise, rfl, rfl⟩).step
      ⟨.transmit TSR_OWN (fun _ => 9) 60, trivial, rfl⟩
  exact ⟨_, hreach, by decide, by decide, (ring_fifo hreach).1, by decide⟩

end TxRing

end Peos2.Kernel
