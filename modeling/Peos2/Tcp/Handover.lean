/-
  Tcp.Handover — the segments of a connection on their way through IPv4.

  `connection::send` gives each segment to `_ipv4.send` and ignores what that returns, but
  not its assertions: a segment whose next hop is not cached takes one of the 32 callbacks
  that ARP has for the address, and without one the kernel stops.

  Main results: the segments pass exactly if their next hop is cached or ARP has a callback
  for each (`passDown_iff`); whatever a call on a connection puts out goes to its remote end
  (`onReceive_outward`).
-/
import Peos2.Ipv4.Send
import Peos2.Tcp.Moves

namespace Peos2.Tcp

open Peos2.Lib Peos2.Support List
open Peos2.Ipv4 (Frame Sender)
open Peos2.Arp (HwAddr)

/-- `_ipv4.send(PROTO_TCP, ...)` of the segments a connection handed to IPv4, one
after the other: the frames that are given to `ethernet().send`. -/
def passDown (overflow : Int → Checked Int) (hwaddr : HwAddr) :
    List Action → Sender → Checked (Sender × List Frame)
  | [], s => .ok (s, [])
  | .output destination header payload :: rest, s => do
      let (_, s, frames) ← s.send overflow hwaddr .TCP destination
        (Bytes.ofList (header.bytes ++ payload)) (UInt32.ofNat (header.bytes ++ payload).length)
      let (s, frames') ← passDown overflow hwaddr rest s
      .ok (s, frames ++ frames')
  | _ :: rest, s => passDown overflow hwaddr rest s

namespace Action

def isOutput : Action → Bool
  | .output _ _ _ => true
  | _ => false

/-- If the action puts a segment out, then to this address. -/
def Toward (destination : Address) : Action → Prop
  | .output destination' _ _ => destination' = destination
  | _ => True

end Action

/-- The next hop to `destination` is cached, or ARP has a callback for each segment among
`outs`. -/
def Passable (s : Sender) (destination : Address) (outs : List Action) : Prop :=
  s.arp.cached (s.nextHop destination) ≠ none ∨
    outs.countP Action.isOutput ≤ s.arp.slots (s.nextHop destination)

/-- **When segments pass IPv4.**  Every segment that has to wait takes a callback of its next
hop, and nothing in between gives one back. -/
theorem passDown_iff (overflow : Int → Checked Int) (hwaddr : HwAddr) (destination : Address)
    (outs : List Action) : ∀ {s : Sender}, s.Sound → (∀ a ∈ outs, a.Toward destination) →
      ((∃ r, passDown overflow hwaddr outs s = .ok r) ↔ Passable s destination outs) := by
  induction outs with
  | nil =>
    intro s _ _
    exact ⟨fun _ => .inr (Nat.zero_le _), fun _ => ⟨_, rfl⟩⟩
  | cons a rest ih =>
    intro s h htoward
    have hrest : ∀ a ∈ rest, a.Toward destination := fun b hb => htoward b (mem_cons_of_mem a hb)
    cases a with
    | output destination' header payload =>
      have hto : destination' = destination := htoward _ mem_cons_self
      subst hto
      have hreturns := Sender.send_iff h overflow hwaddr .TCP destination'
        (Bytes.ofList (header.bytes ++ payload)) (UInt32.ofNat (header.bytes ++ payload).length)
      have hcount : (Action.output destination' header payload :: rest).countP Action.isOutput
          = rest.countP Action.isOutput + 1 := countP_cons_of_pos rfl
      constructor
      · rintro ⟨r, hr⟩
        obtain ⟨⟨_, s', _⟩, hsend, hr⟩ := bind_ok.mp hr
        obtain ⟨r', hlater, _⟩ := bind_ok.mp hr
        have hasks := Sender.send_ok h hsend
        have hpass := (ih hasks.sound hrest).mp ⟨r', hlater⟩
        unfold Passable at hpass ⊢
        rw [hasks.nextHop, hasks.cached] at hpass
        by_cases hcached : s.arp.cached (s.nextHop destination') = none
        · have hslots := hasks.slots hcached
          have hleft := hpass.resolve_left (not_not.mpr hcached)
          exact .inr (by omega)
        · exact .inl hcached
      · intro hpass
        unfold Passable at hpass
        have hroom : s.arp.cached (s.nextHop destination') ≠ none ∨
            s.arp.hasRoom (s.nextHop destination') = true := by
          rcases hpass with hcached | hroom
          · exact .inl hcached
          · exact .inr ((s.arp.hasRoom_iff_slots _).mpr (by omega))
        obtain ⟨⟨sent, s', frames⟩, hsend⟩ := hreturns.mpr hroom
        have hasks := Sender.send_ok h hsend
        have hlater : Passable s' destination' rest := by
          unfold Passable
          rw [hasks.nextHop, hasks.cached]
          by_cases hcached : s.arp.cached (s.nextHop destination') = none
          · have hslots := hasks.slots hcached
            have hleft := hpass.resolve_left (not_not.mpr hcached)
            exact .inr (by omega)
          · exact .inl hcached
        obtain ⟨r, hr⟩ := (ih hasks.sound hrest).mpr hlater
        refine ⟨(r.1, frames ++ r.2), ?_⟩
        rw [passDown, hsend, ok_bind]
        simp only
        rw [hr, ok_bind]
    | _ => exact ih h hrest

/-! ## Where a connection sends -/

namespace World

variable (env : Environment) {w w' : World} {metadata : SegmentMetadata} {data : Bytes}
  {length : UInt32}

/-- What was added to the trace sends to the remote end, which is still the same. -/
def Outward (w w' : World) : Prop :=
  w'.conn.remote = w.conn.remote ∧ ∃ outs, w'.trace = w.trace ++ outs ∧
    ∀ a ∈ outs, a.Toward w.conn.remote.ipaddr

theorem Outward.trans {w'' : World} (h : Outward w w') (h' : Outward w' w'') : Outward w w'' := by
  obtain ⟨hremote, outs, htrace, hto⟩ := h
  obtain ⟨hremote', outs', htrace', hto'⟩ := h'
  refine ⟨hremote'.trans hremote, outs ++ outs', ?_, ?_⟩
  · rw [htrace', htrace, append_assoc]
  · intro a ha
    rcases mem_append.mp ha with ha | ha
    · exact hto a ha
    · rw [← hremote]
      exact hto' a ha

theorem Outward.same (hremote : w'.conn.remote = w.conn.remote) (htrace : w'.trace = w.trace) :
    Outward w w' :=
  ⟨hremote, [], by rw [htrace, append_nil], fun _ ha => absurd ha not_mem_nil⟩

theorem Outward.logged (hremote : w'.conn.remote = w.conn.remote) {a : Action}
    (htrace : w'.trace = w.trace ++ [a]) (hto : a.Toward w.conn.remote.ipaddr) : Outward w w' :=
  ⟨hremote, [a], htrace, fun _ hb => mem_singleton.mp hb ▸ hto⟩

theorem transition_outward (w : World) (state : ConnectionState) : Outward w (w.transition state) :=
  .logged rfl rfl trivial

theorem Move.outward (h : Move env w w') : Outward w w' := by
  cases h with
  | acked => exact .same rfl rfl
  | emitted emit =>
    cases emit with
    | fetched => exact .same rfl rfl
    | sent => exact .logged rfl rfl rfl
  | left =>
    refine .trans ?_ (transition_outward _ _)
    exact .logged rfl rfl trivial
  | _ => exact .logged rfl rfl trivial

theorem Moves.outward (h : Moves env w w') : Outward w w' := by
  induction h with
  | refl => exact .same rfl rfl
  | tail _ hmove ih => exact ih.trans (hmove.outward env)

theorem Arrival.outward (h : Arrival w metadata data length w') : Outward w w' := by
  cases h with
  | established | closing =>
    refine .trans ?_ (transition_outward _ _)
    exact .logged rfl rfl trivial
  | _ => exact .logged rfl rfl trivial

theorem onReceive_outward {fuel : Nat} (h : w.onReceive env fuel metadata data length = .ok w') :
    Outward w w' := by
  obtain ⟨w1, harrival, hmoves⟩ := onReceive_moves env h
  exact harrival.outward.trans (hmoves.outward env)

end World

end Peos2.Tcp
