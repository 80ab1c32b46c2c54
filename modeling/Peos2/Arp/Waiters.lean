/-
  Arp.Waiters — whoever asks ARP for an address is answered exactly once.

  The callback of the `n`-th call of `fetch_network` is `n`. The history keeps the
  address of each request and the callbacks invoked so far. Without timers, table
  and slots this is a ledger, and every call is a move of it: a request is answered
  or put on the list of its address, a reply settles one address, and a tick settles
  those whose probes give up.

  Main result: `waiters_answered_once`.
-/
import Peos2.Arp.Probes
import Peos2.Lib.Ledger

namespace Peos2.Arp

open Peos2.Lib Peos2.Support Multiset
open Peos2.Tcp (Address)
open Peos2.Net (FrameMetadata Retryable)
open Protocol (answers replyIn)

/-! ## Runs -/

inductive Operation where
  | fetch (ipaddr : Address)
  | receive (metadata : FrameMetadata) (data : Bytes) (length : UInt32)
  | tick (deltaMs : UInt32)

/-- ARP, the address of every request, and the callbacks that were invoked with
what they were told. -/
structure Tracked where
  arp : Protocol Nat
  requests : List Address
  log : List (Nat × Option HwAddr)

namespace Tracked

def run (overflow : Int → Checked Int) (host : Host) (s : Tracked) : Operation → Checked Tracked
  | .fetch ipaddr => do
      let (arp, effects) ← s.arp.fetchNetwork overflow host ipaddr s.requests.length
      .ok ⟨arp, s.requests ++ [ipaddr], s.log ++ answers effects⟩
  | .receive metadata data length => do
      let (arp, effects) ← s.arp.onReceive host metadata data length
      .ok ⟨arp, s.requests, s.log ++ answers effects⟩
  | .tick deltaMs => do
      let (arp, effects) ← s.arp.tick overflow host deltaMs
      .ok ⟨arp, s.requests, s.log ++ answers effects⟩

structure Initial (s : Tracked) : Prop where
  arp : s.arp.Constructed
  requests : s.requests = []
  log : s.log = []

def Step (overflow : Int → Checked Int) (host : Host) (s s' : Tracked) : Prop :=
  ∃ op, s.run overflow host op = .ok s'

/-- How often the callback of request `n` was invoked. -/
def invoked (s : Tracked) (n : Nat) : Nat := (s.log.map Prod.fst).count n

/-- There is room for the request; a message is as long as its header. -/
def Admits (s : Tracked) : Operation → Prop
  | .fetch ipaddr => s.arp.cached ipaddr ≠ none ∨ s.arp.hasRoom ipaddr = true
  | .receive _ _ length => length ≥ 28
  | .tick _ => True

/-- A request for a cached address is answered at once, and any other one waits. -/
def Fetched (s : Tracked) (ipaddr : Address) (s' : Tracked) : Prop :=
  s'.requests = s.requests ++ [ipaddr] ∧
  match s.arp.cached ipaddr with
  | some address => s'.log = s.log ++ [(s.requests.length, some address)] ∧
      ∀ k, s'.arp.probe k = s.arp.probe k
  | none => s'.log = s.log ∧ (s'.arp.probe ipaddr).isSome ∧
      (s'.arp.waiters ipaddr).Perm (s.requests.length :: s.arp.waiters ipaddr) ∧
      ∀ k, k ≠ ipaddr → s'.arp.probe k = s.arp.probe k

/-- A reply answers everything that waits for its address, and ends the probe. -/
def Received (host : Host) (s : Tracked) (data : Bytes) (s' : Tracked) : Prop :=
  s'.requests = s.requests ∧
  match replyIn host data with
  | some (spa, sha) => s'.log = s.log ++ (s.arp.waiters spa).map (fun n => (n, some sha)) ∧
      ∀ k, s'.arp.probe k = if k = spa then none else s.arp.probe k
  | none => s'.log = s.log ∧ ∀ k, s'.arp.probe k = s.arp.probe k

/-- A tick answers everything that waits for the addresses whose probes give up. -/
def Ticked (overflow : Int → Checked Int) (s : Tracked) (deltaMs : UInt32) (s' : Tracked) :
    Prop :=
  s'.requests = s.requests ∧
  ∃ gone, s.arp.Ended overflow (signed deltaMs) gone s'.arp ∧
    s'.log = s.log ++ gone.flatMap fun k => (s.arp.waiters k).map fun n => (n, none)

def Answers (overflow : Int → Checked Int) (host : Host) (s : Tracked) (op : Operation)
    (s' : Tracked) : Prop :=
  match op with
  | .fetch ipaddr => Fetched s ipaddr s'
  | .receive _ data _ => Received host s data s'
  | .tick deltaMs => Ticked overflow s deltaMs s'

variable {overflow : Int → Checked Int} {host : Host} {s s' : Tracked}

/-! ## A call -/

theorem fetch_answers (h : s.arp.Sound) {ipaddr : Address}
    (hrun : s.run overflow host (.fetch ipaddr) = .ok s') : s'.arp.Sound ∧ Fetched s ipaddr s' := by
  rw [run, bind_ok] at hrun
  obtain ⟨⟨arp, effects⟩, hcall, hrun⟩ := hrun
  cases hrun
  unfold Fetched
  rcases Protocol.fetchNetwork_spec h overflow host ipaddr s.requests.length with
    ⟨address, hcached, hspec⟩ | ⟨hcached, _, p', effects', hspec, hnone, hjoined⟩ | ⟨_, _, hspec⟩
  · rw [hspec] at hcall
    cases hcall
    rw [hcached]
    exact ⟨h, rfl, rfl, fun _ => rfl⟩
  · rw [hspec] at hcall
    cases hcall
    rw [hcached]
    refine ⟨hjoined.sound, rfl, ?_, hjoined.probing, hjoined.waiters, hjoined.others⟩
    show s.log ++ answers effects = s.log
    rw [hnone, List.append_nil]
  · rw [hspec] at hcall
    cases hcall

theorem receive_answers (h : s.arp.Sound) {metadata : FrameMetadata} {data : Bytes}
    {length : UInt32} (hrun : s.run overflow host (.receive metadata data length) = .ok s') :
    s'.arp.Sound ∧ Received host s data s' := by
  rw [run, bind_ok] at hrun
  obtain ⟨⟨arp, effects⟩, hcall, hrun⟩ := hrun
  cases hrun
  unfold Received
  rcases Protocol.onReceive_spec host s.arp metadata data (Protocol.onReceive_length hcall) with
    ⟨spa, sha, hreply, hspec⟩ | ⟨hreply, effects', hspec, hnone⟩
  · obtain ⟨p', hwrite, hsound, _, hl⟩ := Protocol.writeCacheEntry_spec h spa sha
    rw [hspec, hwrite] at hcall
    cases hcall
    rw [hreply]
    refine ⟨hsound, rfl, ?_, hl⟩
    show s.log ++ Protocol.answers _ = _
    rw [Protocol.answers_invocations]
  rw [hspec] at hcall
  cases hcall
  rw [hreply]
  refine ⟨h, rfl, ?_, fun _ => rfl⟩
  show s.log ++ answers effects = s.log
  rw [hnone, List.append_nil]

theorem tick_answers (h : s.arp.Sound) {deltaMs : UInt32}
    (hrun : s.run overflow host (.tick deltaMs) = .ok s') :
    s'.arp.Sound ∧ Ticked overflow s deltaMs s' := by
  rw [run, bind_ok] at hrun
  obtain ⟨⟨arp, effects⟩, hcall, hrun⟩ := hrun
  cases hrun
  rcases Protocol.tick_spec h overflow host deltaMs with
    ⟨p', effects', gone, hspec, hended, hdismissed⟩ | ⟨x, e, _, hspec⟩
  · rw [hspec] at hcall
    cases hcall
    refine ⟨hended.sound, rfl, gone, hended, ?_⟩
    show s.log ++ answers effects = _
    rw [hdismissed]
    rfl
  · rw [hspec] at hcall
    cases hcall

variable {op : Operation}

theorem run_answers (h : s.arp.Sound) (hrun : s.run overflow host op = .ok s') :
    s'.arp.Sound ∧ Answers overflow host s op s' := by
  cases op with
  | fetch ipaddr => exact fetch_answers h hrun
  | receive metadata data length => exact receive_answers h hrun
  | tick deltaMs => exact tick_answers h hrun

/-- A call for which there is room returns. -/
theorem run_returns (h : s.arp.Sound) (hadmits : s.Admits op) :
    (∃ s', s.run overflow host op = .ok s') ∨
    (∃ x e, overflow x = .error e ∧ s.run overflow host op = .error e) := by
  cases op with
  | fetch ipaddr =>
    left
    rcases Protocol.fetchNetwork_spec h overflow host ipaddr s.requests.length with
      ⟨address, _, hspec⟩ | ⟨_, _, p', effects', hspec, _⟩ | ⟨hcached, hroom, _⟩
    · exact ⟨_, by rw [run, hspec, ok_bind]⟩
    · exact ⟨_, by rw [run, hspec, ok_bind]⟩
    · rcases hadmits with hc | hr
      · exact absurd hcached hc
      · rw [hroom] at hr
        cases hr
  | receive metadata data length =>
    left
    rcases Protocol.onReceive_spec host s.arp metadata data hadmits with
      ⟨spa, sha, _, hspec⟩ | ⟨_, effects', hspec, _⟩
    · obtain ⟨p', hwrite, _⟩ := Protocol.writeCacheEntry_spec h spa sha
      exact ⟨_, by rw [run, hspec, hwrite, ok_bind]⟩
    · exact ⟨_, by rw [run, hspec, ok_bind]⟩
  | tick deltaMs =>
    rcases Protocol.tick_spec h overflow host deltaMs with
      ⟨p', effects', gone, hspec, _⟩ | ⟨x, e, hover, hspec⟩
    · exact Or.inl ⟨_, by rw [run, hspec, ok_bind]⟩
    · exact Or.inr ⟨x, e, hover, by rw [run, hspec, error_bind]⟩

/-! ## The ledger -/

/-- Who waits for which address, and who was answered. -/
def ledger (s : Tracked) : Ledger Address (Option HwAddr) :=
  ⟨s.requests, fun k => s.arp.waiters k, s.log⟩

inductive Move : Ledger Address (Option HwAddr) → Ledger Address (Option HwAddr) → Prop
  | answer (l : Ledger Address (Option HwAddr)) (ipaddr : Address) (address : HwAddr) :
      Move l (l.answer ipaddr (some address))
  | enqueue (l : Ledger Address (Option HwAddr)) (ipaddr : Address) : Move l (l.enqueue ipaddr)
  | reply (l : Ledger Address (Option HwAddr)) (spa : Address) (sha : HwAddr) :
      Move l (l.settle spa (some sha))
  | giveUp (l : Ledger Address (Option HwAddr)) {gone : List Address} (h : gone.Nodup) :
      Move l (l.settleAll gone none)
  | stay (l : Ledger Address (Option HwAddr)) : Move l l

theorem Move.balanced {l l' : Ledger Address (Option HwAddr)} (hmove : Move l l')
    (h : l.Balanced) : l'.Balanced := by
  cases hmove with
  | answer ipaddr address => exact h.answer ipaddr (some address)
  | enqueue ipaddr => exact h.enqueue ipaddr
  | reply spa sha => exact h.settle spa (some sha)
  | giveUp hnd => exact h.settleAll hnd
  | stay => exact h

theorem ledger_eq {l : Ledger Address (Option HwAddr)} (hkeys : s.requests = l.keys)
    (hpending : ∀ k, (s.arp.waiters k : Multiset Nat) = l.pending k)
    (hanswers : (s.log : Multiset (Nat × Option HwAddr)) = l.answers) : s.ledger = l := by
  unfold ledger
  rw [hkeys, hanswers, show (fun k => (s.arp.waiters k : Multiset Nat)) = l.pending from
    funext hpending]

theorem Fetched.move {ipaddr : Address} (h : Fetched s ipaddr s') : Move s.ledger s'.ledger := by
  obtain ⟨hrequests, hrest⟩ := h
  cases hcached : s.arp.cached ipaddr with
  | some address =>
    rw [hcached] at hrest
    obtain ⟨hlog, hprobes⟩ := hrest
    have heq : s'.ledger = s.ledger.answer ipaddr (some address) := by
      refine ledger_eq hrequests (fun k => ?_) ?_
      · rw [Protocol.waiters_congr (hprobes k)]
        rfl
      · rw [hlog]
        rfl
    rw [heq]
    exact .answer _ _ _
  | none =>
    rw [hcached] at hrest
    obtain ⟨hlog, _, hperm, hothers⟩ := hrest
    have heq : s'.ledger = s.ledger.enqueue ipaddr := by
      refine ledger_eq hrequests (fun k => ?_) (by rw [hlog]; rfl)
      show _ = if k = ipaddr then _ else _
      split
      next hk =>
        rw [hk]
        exact coe_eq_coe.mpr hperm
      next hk =>
        rw [Protocol.waiters_congr (hothers k hk)]
        rfl
    rw [heq]
    exact .enqueue _ _

theorem Received.move {data : Bytes} (h : Received host s data s') : Move s.ledger s'.ledger := by
  obtain ⟨hrequests, hrest⟩ := h
  cases hreply : replyIn host data with
  | some reply =>
    rw [hreply] at hrest
    obtain ⟨hlog, hl⟩ := hrest
    have heq : s'.ledger = s.ledger.settle reply.1 (some reply.2) := by
      refine ledger_eq hrequests (fun k => ?_) ?_
      · show _ = if k = reply.1 then _ else _
        split
        next hk =>
          rw [Protocol.waiters_of_none (by rw [hl, if_pos hk])]
          rfl
        next hk =>
          rw [Protocol.waiters_congr (p := s.arp) (by rw [hl, if_neg hk])]
          rfl
      · rw [hlog, ← coe_add]
        rfl
    rw [heq]
    exact .reply _ _ _
  | none =>
    rw [hreply] at hrest
    obtain ⟨hlog, hl⟩ := hrest
    have heq : s'.ledger = s.ledger := by
      refine ledger_eq hrequests (fun k => ?_) (by rw [hlog]; rfl)
      rw [Protocol.waiters_congr (hl k)]
      rfl
    rw [heq]
    exact .stay _

theorem Ticked.move {deltaMs : UInt32} (h : Ticked overflow s deltaMs s') :
    Move s.ledger s'.ledger := by
  obtain ⟨hrequests, gone, hended, hlog⟩ := h
  have heq : s'.ledger = s.ledger.settleAll gone none := by
    refine ledger_eq hrequests (fun k => ?_) ?_
    · show _ = if k ∈ gone then _ else _
      split
      next hk =>
        rw [Protocol.waiters_of_none (hended.ended k hk)]
        rfl
      next hk =>
        rw [(hended.others k hk).1]
        rfl
    · rw [hlog, ← coe_add, ← coe_bind]
      rfl
  rw [heq]
  exact .giveUp _ hended.nodup

/-- Every call is a move of the ledger. -/
theorem run_moves (h : s.arp.Sound) (hrun : s.run overflow host op = .ok s') :
    Move s.ledger s'.ledger := by
  obtain ⟨_, hanswers⟩ := run_answers h hrun
  cases op with
  | fetch ipaddr => exact Fetched.move hanswers
  | receive metadata data length => exact Received.move hanswers
  | tick deltaMs => exact Ticked.move hanswers

/-! ## Runs, again -/

theorem Initial.ledger_blank (h : s.Initial) : s.ledger = Ledger.blank := by
  refine ledger_eq h.requests (fun k => ?_) (by rw [h.log]; rfl)
  rw [Protocol.waiters_of_none (h.arp.probe k)]
  rfl

theorem reach_balanced (h : Reach Initial (Step overflow host) s) :
    s.arp.Sound ∧ s.ledger.Balanced := by
  refine @Reach.invariant _ _ _ (fun s => s.arp.Sound ∧ s.ledger.Balanced) ?_ ?_ s h
  · intro s h0
    rw [h0.ledger_blank]
    exact ⟨h0.arp.sound, Ledger.Balanced.blank⟩
  · intro s s' _ ⟨hsound, hbalanced⟩ ⟨op, hrun⟩
    exact ⟨(run_answers hsound hrun).1, (run_moves hsound hrun).balanced hbalanced⟩

/-- **Whoever asks ARP for an address is answered exactly once.** In every run, whatever a timer
that overflows becomes, each callback waits in the probe of its own address and was not invoked,
or waits nowhere and was invoked once; each call invokes those it should, with the right result,
and returns if there is room. -/
theorem waiters_answered_once (overflow : Int → Checked Int) (host : Host) {s : Tracked}
    (h : Reach Initial (Step overflow host) s) :
    (∀ n ipaddr, s.requests[n]? = some ipaddr →
      (s.arp.waiters ipaddr).count n + s.invoked n = 1) ∧
    (∀ ipaddr, ∀ n ∈ s.arp.waiters ipaddr, s.requests[n]? = some ipaddr) ∧
    (∀ a ∈ s.log, a.1 < s.requests.length) ∧
    (∀ op s', s.run overflow host op = .ok s' → Answers overflow host s op s') ∧
    (∀ op, s.Admits op → (∃ s', s.run overflow host op = .ok s') ∨
      ∃ x e, overflow x = .error e ∧ s.run overflow host op = .error e) := by
  obtain ⟨hsound, hbalanced⟩ := reach_balanced h
  refine ⟨?_, ?_, ?_, fun op s' hrun => (run_answers hsound hrun).2,
    fun op hop => run_returns hsound hop⟩
  · intro n ipaddr hn
    have honce := hbalanced.once n ipaddr hn
    unfold Ledger.answered ledger at honce
    simp only [coe_count, map_coe] at honce
    exact honce
  · intro ipaddr n hn
    exact hbalanced.own ipaddr n (mem_coe.mpr hn)
  · intro a ha
    exact hbalanced.known a (mem_coe.mpr ha)

/-- Three requests for two addresses, and a reply for the first: its two callbacks
have been invoked, and the third waits. -/
theorem waiters_answered_once_reply :
    ∃ s, Reach Initial (Step (fun _ => .error .overflow) ⟨[2, 0, 0, 0, 0, 1], 1⟩) s ∧
      s.log = [(0, some [2, 0, 0, 0, 0, 5]), (1, some [2, 0, 0, 0, 0, 5])] ∧
      s.requests[0]? = some 5 ∧ (s.arp.waiters 5).count 0 + s.invoked 0 = 1 ∧
      s.requests[2]? = some 6 ∧ (s.arp.waiters 6).count 2 + s.invoked 2 = 1 := by
  let reply : Header := ⟨1, 0x0800, 6, 4, 2, [2, 0, 0, 0, 0, 5], 5, [2, 0, 0, 0, 0, 1], 1⟩
  let ops : List Operation := [.fetch 5, .fetch 5, .fetch 6, .tick 100,
    .receive ⟨[], []⟩ (Bytes.ofList reply.bytes) 28]
  let start : Tracked := ⟨⟨⟨⟨fun _ => ⟨0, []⟩, 0, 0⟩⟩, .blank⟩, [], []⟩
  have hrun : (ops.foldlM (run (fun _ => .error .overflow) ⟨[2, 0, 0, 0, 0, 1], 1⟩) start).map
      (fun s => (s.requests, s.log))
      = .ok ([5, 5, 6], [(0, some [2, 0, 0, 0, 0, 5]), (1, some [2, 0, 0, 0, 0, 5])]) := by
    decide +kernel
  obtain ⟨s, hs, heq⟩ := map_ok.mp hrun
  obtain ⟨hrequests, hlog⟩ := Prod.mk.inj heq
  have hreach : Reach Initial (Step (fun _ => .error .overflow) ⟨[2, 0, 0, 0, 0, 1], 1⟩) s :=
    Reach.foldlM (fun _ op _ _ h => ⟨op, h⟩) (.init ⟨⟨rfl, rfl, rfl⟩, rfl, rfl⟩) hs
  obtain ⟨honce, _⟩ := waiters_answered_once _ _ hreach
  have h0 : s.requests[0]? = some 5 := by rw [hrequests]; rfl
  have h2 : s.requests[2]? = some 6 := by rw [hrequests]; rfl
  exact ⟨s, hreach, hlog, h0, honce 0 5 h0, h2, honce 2 6 h2⟩

end Tracked

end Peos2.Arp
