/-
  Kernel.Locks — condition variables (`kernel/locks.h`).

  A process that waits puts its number into a slot of the variable and blocks. A
  notification unblocks the process of a slot in use and switches to it. Only when
  its own process is switched to again does it erase the slot and go on with the next;
  in between, everything else can happen.

  Calls that are not finished are on the kernel stacks of their processes. Beside the
  slot they hold its generation, which the kernel does not have: it tells an entry
  from a later one in the same slot.
-/
import Peos2.Kernel.Process

namespace Peos2.Kernel.Locks

open Peos2.Lib Peos2.Support

/-! ## Definitions -/

/-- What is left to do in a call. -/
inductive Call where
  /-- `wait()`, inside `proc_block`, with its `idx`. -/
  | wait (idx generation : Nat)
  /-- `notify(idx)`, inside `proc_unblock_and_switch`; of `notify_all` or not. -/
  | notify (all : Bool) (idx generation : Nat)
  deriving Repr, DecidableEq

/-- `condition_variable<_MaxWaiters>`, with the calls on it. -/
structure ConditionVariable (maxWaiters : Nat) where
  waitingProcs : Pool Nat maxWaiters 0xFFFF
  generation : Nat → Nat
  calls : Nat → Option Call

structure State (maxWaiters : Nat) where
  scheduler : Scheduler
  condition : ConditionVariable maxWaiters

variable {maxWaiters : Nat}

namespace ConditionVariable

/-- What `pid` has still to do on the variable. -/
def setCall (c : ConditionVariable maxWaiters) (pid : Nat) (call : Option Call) :
    ConditionVariable maxWaiters :=
  { c with calls := storeAt c.calls pid call }

/-- `idx = _waiting_procs.emplace_anywhere(pid)` -/
def enter (c : ConditionVariable maxWaiters) (pid : Nat) :
    Checked (ConditionVariable maxWaiters) := do
  let (idx, waitingProcs) ← c.waitingProcs.emplaceAnywhere pid
  let generation := c.generation idx + 1
  let c := { c with waitingProcs, generation := storeAt c.generation idx generation }
  .ok (c.setCall pid (some (.wait idx generation)))

/-- `_waiting_procs.erase(idx)`, the last thing `pid` does in its call. -/
def erase (c : ConditionVariable maxWaiters) (pid idx : Nat) :
    Checked (ConditionVariable maxWaiters) := do
  let waitingProcs ← c.waitingProcs.erase idx
  .ok ({ c with waitingProcs }.setCall pid none)

/-- `if (ret < 0 && _waiting_procs.valid(idx)) _waiting_procs.erase(idx);` -/
def leave (c : ConditionVariable maxWaiters) (pid idx : Nat) (ret : Int) :
    Checked (ConditionVariable maxWaiters) :=
  if ret < 0 ∧ c.waitingProcs.valid idx = true then c.erase pid idx else .ok (c.setCall pid none)

/-- `for (; i < _waiting_procs.watermark(); ++i) if (!_waiting_procs.valid(i))
continue;`, with `n` slots to go, up to the first slot in use. -/
def nextFrom (waitingProcs : Pool Nat maxWaiters 0xFFFF) : Nat → Nat → Option Nat
  | 0, _ => none
  | n + 1, i => if waitingProcs.valid i then some i else nextFrom waitingProcs n (i + 1)

/-- The slot a notification goes on to when it is at `i`. -/
def nextWaiter (c : ConditionVariable maxWaiters) (i : Nat) : Option Nat :=
  nextFrom c.waitingProcs (c.waitingProcs.watermark - i) i

end ConditionVariable

namespace State

/-! ## The calls -/

/-- `current_pid` -/
def currentPid (s : State maxWaiters) : Nat := s.scheduler.currentPid

/-- `int wait()`, up to the switch. -/
def wait (s : State maxWaiters) : Checked (State maxWaiters) := do
  check (decide (s.currentPid ≠ noProcess)) "_is_assigned"
  let condition ← s.condition.enter s.currentPid
  let scheduler ← s.scheduler.procBlock s.currentPid
  .ok { scheduler, condition }

/-- The loops of `notify_one` and `notify_all` from `i` on, up to the switch in
`notify(idx)`. -/
def notifyFrom (s : State maxWaiters) (all : Bool) (i : Nat) : Checked (State maxWaiters) :=
  match s.condition.nextWaiter i with
  | none => .ok s
  | some idx => do
      let pid ← s.condition.waitingProcs.get idx
      let scheduler ← s.scheduler.procUnblockAndSwitch pid 1
      let call := Call.notify all idx (s.condition.generation idx)
      .ok { scheduler, condition := s.condition.setCall s.currentPid (some call) }

/-- `void notify_one()`, up to the switch. -/
def notifyOne (s : State maxWaiters) : Checked (State maxWaiters) := s.notifyFrom false 0

/-- `void notify_all()`, up to the first switch. -/
def notifyAll (s : State maxWaiters) : Checked (State maxWaiters) := s.notifyFrom true 0

def continueCall (s : State maxWaiters) : Checked (State maxWaiters) :=
  match s.condition.calls s.currentPid with
  | none => .ok s
  | some (.wait idx _) => do
      let proc ← s.scheduler.get s.currentPid
      let condition ← s.condition.leave s.currentPid idx proc.unblockStatus
      .ok { s with condition }
  | some (.notify all idx _) => do
      let condition ← s.condition.erase s.currentPid idx
      let s := { s with condition }
      if all then s.notifyFrom true (idx + 1) else .ok s

/-! ## Runs -/

/-- What the current process, or an interrupt handler in it, can do. -/
inductive Action where
  | wait
  | notifyOne
  | notifyAll
  | continueCall
  /-- `syscall_fork`, or `kernel_main` starting the first process. -/
  | fork (prevProcess nextProcess : Nat)
  /-- `proc_block` for another reason. -/
  | block
  /-- `proc_unblock_and_switch` by somebody else, as the timer. -/
  | unblock (pid : Nat) (status : Int)
  | yield
  deriving Repr, DecidableEq

def run (s : State maxWaiters) : Action → Checked (State maxWaiters)
  | .wait => s.wait
  | .notifyOne => s.notifyOne
  | .notifyAll => s.notifyAll
  | .continueCall => s.continueCall
  | .fork prevProcess nextProcess => do
      let (_, scheduler) ← s.scheduler.spawn prevProcess nextProcess
      .ok { s with scheduler }
  | .block => do
      let scheduler ← s.scheduler.procBlock s.currentPid
      .ok { s with scheduler }
  | .unblock pid status => do
      let scheduler ← s.scheduler.procUnblockAndSwitch pid status
      .ok { s with scheduler }
  | .yield => do
      let scheduler ← s.scheduler.procYield
      .ok { s with scheduler }

def inWait (s : State maxWaiters) (pid : Nat) : Bool :=
  match s.condition.calls pid with
  | some (.wait _ _) => true
  | _ => false

/-- Who can do what. A call is finished first. The idle process does not block, and apart from
notifications only a timeout ends a `wait`. -/
def Enabled (s : State maxWaiters) (action : Action) : Prop :=
  (s.condition.calls s.currentPid ≠ none ↔ action = .continueCall) ∧
  match action with
  | .wait => s.currentPid ≠ s.scheduler.idleProcess
  | .block => s.currentPid ≠ s.scheduler.idleProcess
  | .unblock pid status => s.inWait pid = true → status < 0
  | _ => True

def Step (s : State maxWaiters) (action : Action) (s' : State maxWaiters) : Prop :=
  s.Enabled action ∧ s.run action = .ok s'

/-- After `proc_init`, with a new variable. -/
structure Initial (s : State maxWaiters) : Prop where
  scheduler : s.scheduler.Initial
  /-- `static_assert(Capacity <= p2::numeric_limits<Index>::max())` -/
  capacity : maxWaiters ≤ 0xFFFF
  waitingProcs : s.condition.waitingProcs = Pool.blank
  calls : s.condition.calls = fun _ => none

end State

end Peos2.Kernel.Locks
