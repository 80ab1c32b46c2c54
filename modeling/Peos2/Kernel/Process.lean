/-
  Kernel.Process — processes and their scheduling (`kernel/process.cc`,
  `process_private.h`).

  Two queues are threaded through the pool of processes, of those that can run and of
  those that are suspended; a killed process is on neither, but keeps its slot until
  somebody has waited for it.

  A process switch is the end of what happens at once: what is left to do is on the
  kernel stack, until the process is switched to again. The address space and the
  files of a process are not part of the model.
-/
import Peos2.Lib.Word
import Peos2.Support.Pool

namespace Peos2.Kernel

open Peos2.Lib Peos2.Support

/-! ## Definitions -/

/-- `processes.end_sentinel()` -/
def noProcess : Nat := 0xFFFF

/-- What is on the kernel stack of a process that is not running. -/
inductive KernelStack where
  /-- The system call, or the interrupt, returns to the process. -/
  | user
  /-- `syscall_wait(pid)`, after its `proc_yield()`. -/
  | wait (pid : Nat)
  /-- `syscall_exit`, after its `proc_yield()`. -/
  | exit
  deriving Repr, DecidableEq

/-- `process` -/
structure Process where
  suspended : Bool
  terminating : Bool
  exitStatus : Int
  unblockStatus : Int
  prevProcess : Nat
  nextProcess : Nat
  waitingProcess : Option Nat
  lastTick : UInt64
  kernelStack : KernelStack
  deriving Repr, DecidableEq

/-- `process(...)`; its links are not initialised. -/
def Process.new (prevProcess nextProcess : Nat) : Process where
  suspended := false
  terminating := false
  exitStatus := 0
  unblockStatus := 0
  prevProcess := prevProcess
  nextProcess := nextProcess
  waitingProcess := none
  lastTick := 0
  kernelStack := .user

/-- `running_head` or `suspended_head`, as an argument. -/
inductive QueueName where
  | running
  | suspended
  deriving Repr, DecidableEq

/-- The global state of `process.cc`. -/
structure Scheduler where
  processes : Pool Process 128 0xFFFF
  currentPid : Nat
  runningHead : Nat
  suspendedHead : Nat
  idleProcess : Nat
  tickCount : UInt64

namespace Scheduler

/-- `processes[pid]` -/
def get (s : Scheduler) (pid : Nat) : Checked Process := s.processes.get pid

/-- A store through `processes[pid]`. -/
def modify (s : Scheduler) (pid : Nat) (f : Process → Process) : Checked Scheduler := do
  let proc ← s.processes.get pid
  let processes ← s.processes.set pid (f proc)
  .ok { s with processes }

/-- `*head` -/
def head (s : Scheduler) : QueueName → Nat
  | .running => s.runningHead
  | .suspended => s.suspendedHead

/-- `*head = pid` -/
def setHead (s : Scheduler) (pid : Nat) : QueueName → Scheduler
  | .running => { s with runningHead := pid }
  | .suspended => { s with suspendedHead := pid }

/-! ## The queues -/

/-- `if (pid != end_sentinel) processes[pid].prev_process = x;` -/
def setPrevProcess (s : Scheduler) (pid x : Nat) : Checked Scheduler :=
  if pid ≠ noProcess then s.modify pid fun proc => { proc with prevProcess := x } else .ok s

/-- `if (pid != end_sentinel) processes[pid].next_process = x;` -/
def setNextProcess (s : Scheduler) (pid x : Nat) : Checked Scheduler :=
  if pid ≠ noProcess then s.modify pid fun proc => { proc with nextProcess := x } else .ok s

/-- `void enqueue_front(proc_handle pid, proc_handle *head)` -/
def enqueueFront (s : Scheduler) (pid : Nat) (q : QueueName) : Checked Scheduler := do
  let s ← s.setPrevProcess (s.head q) pid
  let s ← s.modify pid fun proc =>
    { proc with nextProcess := s.head q, prevProcess := noProcess }
  .ok (s.setHead pid q)

/-- `void dequeue(proc_handle pid, proc_handle *head)`; `proc` is a reference, so it
is read again after every store. -/
def dequeue (s : Scheduler) (pid : Nat) (q : QueueName) : Checked Scheduler := do
  let proc ← s.get pid
  let s ← s.setNextProcess proc.prevProcess proc.nextProcess
  let proc ← s.get pid
  let s ← s.setPrevProcess proc.nextProcess proc.prevProcess
  let proc ← s.get pid
  .ok (if s.head q = pid then s.setHead proc.nextProcess q else s)

/-- From one queue to the front of the other, with the flag that goes with it. -/
def requeue (s : Scheduler) (pid : Nat) (src dst : QueueName) (suspended : Bool) :
    Checked Scheduler := do
  let s ← s.dequeue pid src
  let s ← s.enqueueFront pid dst
  s.modify pid fun proc => { proc with suspended }

/-- `void proc_suspend(proc_handle pid)` -/
def suspend (s : Scheduler) (pid : Nat) : Checked Scheduler := do
  let proc ← s.get pid
  if proc.suspended then .ok s else s.requeue pid .running .suspended true

/-- `void proc_resume(proc_handle pid)` -/
def resume (s : Scheduler) (pid : Nat) : Checked Scheduler := do
  let proc ← s.get pid
  if proc.suspended = false then .ok s else s.requeue pid .suspended .running false

/-! ## Switching -/

/-- The loop of `decide_next_process` from `node` on. -/
def leastFrom (s : Scheduler) : Nat → Nat → UInt64 → Nat → Checked Nat
  | 0, _, _, _ => .error .outOfFuel
  | fuel + 1, node, minimumTick, minimumPid =>
    if node = noProcess then .ok minimumPid
    else do
      let proc ← s.get node
      if proc.lastTick < minimumTick then
        s.leastFrom fuel proc.nextProcess proc.lastTick node
      else s.leastFrom fuel proc.nextProcess minimumTick minimumPid

/-- `proc_handle decide_next_process()`. A queue of more than 128 processes goes
round in a circle, and the loop with it. -/
def decideNextProcess (s : Scheduler) : Checked Nat := do
  let minimumPid ← s.leastFrom 129 s.runningHead 0xFFFFFFFFFFFFFFFF noProcess
  .ok (if minimumPid = noProcess then s.idleProcess else minimumPid)

/-- `void switch_process(proc_handle pid)` -/
def switchProcess (s : Scheduler) (pid : Nat) : Checked Scheduler := do
  let s ← s.modify pid fun proc => { proc with lastTick := s.tickCount }
  .ok { s with currentPid := pid }

/-- The process `proc_switch` takes: a terminating one cannot run. -/
def switchTarget (s : Scheduler) (pid : Nat) (proc : Process) : Checked Nat :=
  if proc.terminating then s.decideNextProcess else .ok pid

/-- `void proc_switch(proc_handle pid)` -/
def procSwitch (s : Scheduler) (pid : Nat) : Checked Scheduler :=
  if s.currentPid ≠ noProcess ∧ s.currentPid = pid then .ok s
  else do
    let proc ← s.get pid
    check (!proc.suspended) "!proc.suspended && \"please resume the process before switching to it\""
    let pid ← s.switchTarget pid proc
    s.switchProcess pid

/-- `if (processes.valid(current_pid)) processes[current_pid].last_tick = tick_count;` -/
def touchCurrent (s : Scheduler) : Checked Scheduler :=
  if s.processes.valid s.currentPid then
    s.modify s.currentPid fun proc => { proc with lastTick := s.tickCount }
  else .ok s

/-- `int proc_yield()`, up to the switch. -/
def procYield (s : Scheduler) : Checked Scheduler := do
  let s ← { s with tickCount := s.tickCount + 1 }.touchCurrent
  let pid ← s.decideNextProcess
  s.procSwitch pid

/-- `int proc_block(proc_handle pid)`, up to the switch. -/
def procBlock (s : Scheduler) (pid : Nat) : Checked Scheduler := do
  let s ← s.suspend pid
  s.procYield

/-- `void proc_unblock_and_switch(proc_handle pid, int status)`, up to the switch. -/
def procUnblockAndSwitch (s : Scheduler) (pid : Nat) (status : Int) : Checked Scheduler :=
  if s.processes.valid pid then do
    let s ← s.modify pid fun proc => { proc with unblockStatus := status }
    let s ← s.resume pid
    s.procSwitch pid
  else .ok s

/-! ## From birth to death -/

/-- `processes.emplace_anywhere(...)` and `proc_enqueue`; the links of the new
process hold whatever was in its storage. -/
def spawn (s : Scheduler) (prevProcess nextProcess : Nat) : Checked (Nat × Scheduler) := do
  let (pid, processes) ← s.processes.emplaceAnywhere (Process.new prevProcess nextProcess)
  let s ← { s with processes }.enqueueFront pid .running
  .ok (pid, s)

/-- `void process::exit(int status)` of the process `pid`. -/
def exitProcess (s : Scheduler) (pid : Nat) (status : Int) : Checked Scheduler := do
  let s ← s.modify pid fun proc => { proc with terminating := true, exitStatus := status }
  let proc ← s.get pid
  match proc.waitingProcess with
  | some waiting => s.resume waiting
  | none => .ok s

/-- `void proc_kill(proc_handle pid, uint32_t exit_status)` -/
def procKill (s : Scheduler) (pid : Nat) (exitStatus : Int) : Checked Scheduler := do
  check (decide (pid ≠ s.idleProcess)) "pid != idle_process && \"trying to kill the idle process\""
  if s.processes.valid pid = false then .ok s
  else
    let proc ← s.get pid
    let s ← s.dequeue pid (if proc.suspended then .suspended else .running)
    s.exitProcess pid exitStatus

/-- `void destroy_process(proc_handle pid)` -/
def destroyProcess (s : Scheduler) (pid : Nat) : Checked Scheduler := do
  let _ ← s.get pid
  let processes ← s.processes.erase pid
  .ok { s with processes }

/-- `syscall_kill(uint32_t pid)`; a `proc_handle` has 16 bits. -/
def syscallKill (s : Scheduler) (pid : UInt32) : Checked Scheduler :=
  s.procKill (pid.toNat % 65536) 123

/-- `syscall_exit(int exit_status)`, up to the switch. -/
def syscallExit (s : Scheduler) (exitStatus : Int) : Checked Scheduler := do
  let current := s.currentPid
  let s ← s.procKill current exitStatus
  let s ← s.modify current fun proc => { proc with kernelStack := .exit }
  s.procYield

/-- `syscall_wait(int pid)`, up to the switch if there is one. -/
def syscallWait (s : Scheduler) (pid : Int) : Checked Scheduler :=
  let pid := (pid % 65536).toNat
  if s.processes.valid pid = false then .ok s
  else if s.currentPid = noProcess then .ok s
  else do
    let proc ← s.get pid
    if proc.terminating = false then
      let parentPid := s.currentPid
      let s ← s.suspend parentPid
      let s ← s.modify pid fun proc => { proc with waitingProcess := some parentPid }
      let s ← s.modify parentPid fun proc => { proc with kernelStack := .wait pid }
      s.procYield
    else s.destroyProcess pid

/-- The current process goes on with the system call it was switched away in. -/
def continueCall (s : Scheduler) : Checked Scheduler := do
  let current ← s.get s.currentPid
  match current.kernelStack with
  | .user => .ok s
  | .wait pid =>
    let s ← s.modify s.currentPid fun proc => { proc with kernelStack := .user }
    let proc ← s.get pid
    check proc.terminating "processes[pid].terminating && \"woke up without pid terminating\""
    s.destroyProcess pid
  | .exit => .error (.assertion "false && \"unreachable\"")

/-! ## Runs -/

/-- What can happen between two switches. -/
inductive Operation where
  /-- `syscall_fork`, or `kernel_main` starting the first process. -/
  | fork (prevProcess nextProcess : Nat)
  | kill (pid : UInt32)
  | exit (exitStatus : Int)
  | wait (pid : Int)
  | continueCall
  /-- `proc_block(*proc_current_pid())` -/
  | block
  /-- `proc_unblock_and_switch` from an interrupt handler. -/
  | unblock (pid : Nat) (status : Int)
  /-- `proc_yield` of a process, or by the timer. -/
  | yield
  deriving Repr, DecidableEq

def run (s : Scheduler) : Operation → Checked Scheduler
  | .fork prevProcess nextProcess => do
      let (_, s) ← s.spawn prevProcess nextProcess
      .ok s
  | .kill pid => s.syscallKill pid
  | .exit exitStatus => s.syscallExit exitStatus
  | .wait pid => s.syscallWait pid
  | .continueCall => s.continueCall
  | .block => s.procBlock s.currentPid
  | .unblock pid status => s.procUnblockAndSwitch pid status
  | .yield => s.procYield

/-- A process that was switched away in the middle of a call first has to finish
the call. -/
def midCall (s : Scheduler) : Bool :=
  match s.processes.lookup s.currentPid with
  | some proc => proc.kernelStack ≠ .user
  | none => false

/-- After `proc_init`: the idle process, which is on no queue, and nothing else. -/
structure Initial (s : Scheduler) : Prop where
  processes : ∃ prevProcess nextProcess pid,
    (Pool.blank.emplaceAnywhere (Process.new prevProcess nextProcess) : Checked _)
      = .ok (pid, s.processes) ∧ s.idleProcess = pid
  currentPid : s.currentPid = noProcess
  runningHead : s.runningHead = noProcess
  suspendedHead : s.suspendedHead = noProcess

/-- One operation, of a process that has finished its call or is about to. -/
def Step (s : Scheduler) (op : Operation) (s' : Scheduler) : Prop :=
  (s.midCall = true ↔ op = .continueCall) ∧ s.run op = .ok s'

end Scheduler

end Peos2.Kernel
