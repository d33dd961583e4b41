import Xv6.Kernel.Basic
import Xv6.Lib.Run

/-!
# The interrupt flag

`pushcli` and `popcli` count in the processor, and so do `acquire` and `release`; what they restore
is meant for the kernel thread that calls them. A thread that gives up its processor in `sched` may
go on at another one. In the model every call is a step of the processor that runs the thread; the
loop of `acquire` is one step for each `xchg`. A handler of a trap belongs to the thread that it
interrupts, and changes the flag only where no `pushcli` is open.
-/

namespace Xv6.Interrupts

open Transition

abbrev CpuId := ℕ
abbrev LockId := ℕ

abbrev ptableLock : LockId := 0

/-- The fields of `struct cpu` that count, and `FL_IF` of its flags register. -/
structure Cpu where
  ncli : ℤ
  intena : Bool
  flagIf : Bool
  deriving DecidableEq, Repr

structure Spinlock where
  locked : Bool
  cpu : Option CpuId
  deriving DecidableEq, Repr

/-! ## spinlock.c -/

namespace Cpu

/-- `mycpu` panics with interrupts enabled. -/
def mycpu (cpu : Cpu) : Except String Cpu :=
  if cpu.flagIf then .error "mycpu called with interrupts enabled\n" else .ok cpu

def pushcli (cpu : Cpu) : Except String Cpu := do
  let eflags := cpu.flagIf
  let cpu ← mycpu { cpu with flagIf := false }
  let cpu := if cpu.ncli = 0 then { cpu with intena := eflags } else cpu
  return { cpu with ncli := cpu.ncli + 1 }

def popcli (cpu : Cpu) : Except String Cpu :=
  if cpu.flagIf then .error "popcli - interruptible"
  else
    let cpu := { cpu with ncli := cpu.ncli - 1 }
    if cpu.ncli < 0 then .error "popcli"
    else if cpu.ncli = 0 ∧ cpu.intena = true then .ok { cpu with flagIf := true }
    else .ok cpu

def holding (me : CpuId) (lock : Spinlock) (cpu : Cpu) : Except String (Bool × Cpu) := do
  let cpu ← cpu.pushcli
  let cpu ← cpu.mycpu
  let r := lock.locked && lock.cpu == some me
  let cpu ← cpu.popcli
  return (r, cpu)

end Cpu

/-! ## The machine -/

/-- Where a process is. `running` says whether its state is something else than `RUNNING` already;
`parked` has the variable `intena` of `sched`. -/
inductive Context where
  | unused
  | fresh
  | running (left : Bool)
  | parked (intena : Bool)
  deriving DecidableEq, Repr

namespace Context

def isParked : Context → Bool
  | .parked _ => true
  | _ => false

/-- The scheduler can switch to the process. -/
def isReady : Context → Bool
  | .fresh | .parked _ => true
  | _ => false

end Context

/-- A processor runs its scheduler if `proc` has nothing for it. `spinning` has the lock that it waits
for in `acquire`. -/
structure Machine where
  cpu : CpuId → Cpu
  lock : LockId → Spinlock
  proc : CpuId → Option Slot
  spinning : CpuId → Option LockId
  context : Slot → Context
  panicked : Option String

inductive Thread where
  | scheduler (c : CpuId)
  | process (p : Slot)
  deriving DecidableEq, Repr

inductive Op where
  | pushcli
  | popcli
  | acquire (l : LockId)
  | xchg
  | release (l : LockId)
  | setIf (enabled : Bool)
  | leave
  | sched
  | resume (p : Slot)
  | fork (p : Slot)
  | reap (p : Slot)
  deriving DecidableEq, Repr

namespace Machine

def thread (machine : Machine) (c : CpuId) : Thread :=
  match machine.proc c with
  | none => .scheduler c
  | some p => .process p

def setCpu (machine : Machine) (c : CpuId) (cpu : Cpu) : Machine :=
  { machine with cpu := Function.update machine.cpu c cpu }

def acquire (machine : Machine) (c : CpuId) (l : LockId) : Except String Machine := do
  let cpu ← (machine.cpu c).pushcli
  let (held, cpu) ← cpu.holding c (machine.lock l)
  if held then .error "acquire"
  else return { machine.setCpu c cpu with spinning := Function.update machine.spinning c (some l) }

/-- One turn of the loop of `acquire`, and what follows if it is the last. -/
def xchg (machine : Machine) (c : CpuId) (l : LockId) : Except String Machine :=
  if (machine.lock l).locked then .ok machine
  else do
    let _ ← (machine.cpu c).mycpu
    return { machine with
      lock := Function.update machine.lock l { locked := true, cpu := some c }
      spinning := Function.update machine.spinning c none }

def release (machine : Machine) (c : CpuId) (l : LockId) : Except String Machine := do
  let (held, cpu) ← (machine.cpu c).holding c (machine.lock l)
  if held then
    let cpu ← cpu.popcli
    return { machine.setCpu c cpu with
      lock := Function.update machine.lock l { locked := false, cpu := none } }
  else .error "release"

/-- `sched` up to `swtch`, for the process of a processor. -/
def sched (machine : Machine) (c : CpuId) (p : Slot) : Except String Machine := do
  -- `myproc`
  let cpu ← (machine.cpu c).pushcli
  let cpu ← cpu.mycpu
  let cpu ← cpu.popcli
  let (held, cpu) ← cpu.holding c (machine.lock ptableLock)
  if !held then .error "sched ptable.lock"
  else
    let cpu ← cpu.mycpu
    if cpu.ncli ≠ 1 then .error "sched locks"
    else if machine.context p ≠ .running true then .error "sched running"
    else if cpu.flagIf then .error "sched interruptible"
    else return { machine.setCpu c cpu with
      proc := Function.update machine.proc c none
      context := Function.update machine.context p (.parked cpu.intena) }

/-- `swtch` from the scheduler to a process that is in `sched`, or to a new one in `forkret`. -/
def resume (machine : Machine) (c : CpuId) (p : Slot) : Except String Machine :=
  let next := { machine with
    proc := Function.update machine.proc c (some p)
    context := Function.update machine.context p (.running false) }
  match machine.context p with
  | .parked intena => do
      let cpu ← (machine.cpu c).mycpu
      return next.setCpu c { cpu with intena := intena }
  | _ => .ok next

def enabled (machine : Machine) (c : CpuId) : Op → Bool
  | .xchg => (machine.spinning c).isSome
  | .leave | .sched => (machine.spinning c).isNone && (machine.proc c).isSome
  | .resume p => (machine.spinning c).isNone && (machine.proc c).isNone && (machine.context p).isReady
  | .fork p => (machine.spinning c).isNone && machine.context p == .unused
  | .reap p => (machine.spinning c).isNone && (machine.context p).isParked
  | _ => (machine.spinning c).isNone

def exec (machine : Machine) (c : CpuId) : Op → Except String Machine
  | .pushcli => do
      let cpu ← (machine.cpu c).pushcli
      return machine.setCpu c cpu
  | .popcli => do
      let cpu ← (machine.cpu c).popcli
      return machine.setCpu c cpu
  | .acquire l => machine.acquire c l
  | .xchg =>
      match machine.spinning c with
      | none => .ok machine
      | some l => machine.xchg c l
  | .release l => machine.release c l
  | .setIf enabled => .ok (machine.setCpu c { machine.cpu c with flagIf := enabled })
  | .leave =>
      match machine.proc c with
      | none => .ok machine
      | some p => .ok { machine with context := Function.update machine.context p (.running true) }
  | .sched =>
      match machine.proc c with
      | none => .ok machine
      | some p => machine.sched c p
  | .resume p => machine.resume c p
  | .fork p => .ok { machine with context := Function.update machine.context p .fresh }
  | .reap p => .ok { machine with context := Function.update machine.context p .unused }

end Machine

/-! ## What a thread has done -/

/-- The machine with what can be told from the calls of each thread: how many of its pushes are open,
the interrupt flag before the outermost of them, and the locks that it has. -/
structure Watch where
  machine : Machine
  opened : Thread → ℕ
  outer : Thread → Option Bool
  held : Thread → Finset LockId

namespace Watch

def push (watch : Watch) (c : CpuId) : Watch :=
  let t := watch.machine.thread c
  { watch with
    opened := Function.update watch.opened t (watch.opened t + 1)
    outer := if watch.opened t = 0 then
        Function.update watch.outer t (some (watch.machine.cpu c).flagIf)
      else watch.outer }

def pop (watch : Watch) (c : CpuId) : Watch :=
  let t := watch.machine.thread c
  { watch with opened := Function.update watch.opened t (watch.opened t - 1) }

def take (watch : Watch) (c : CpuId) (l : LockId) : Watch :=
  let t := watch.machine.thread c
  { watch with held := Function.update watch.held t (insert l (watch.held t)) }

def drop (watch : Watch) (c : CpuId) (l : LockId) : Watch :=
  let t := watch.machine.thread c
  { watch with held := Function.update watch.held t ((watch.held t).erase l) }

/-- What an operation adds. A new process starts in `forkret` with `ptable.lock` and with the push that
the scheduler has made; the scheduler does not keep its interrupt flag when it switches. -/
def note (watch : Watch) (c : CpuId) : Op → Watch
  | .pushcli | .acquire _ => watch.push c
  | .popcli => watch.pop c
  | .release l => (watch.pop c).drop c l
  | .xchg =>
      match watch.machine.spinning c with
      | none => watch
      | some l => if (watch.machine.lock l).locked then watch else watch.take c l
  | .sched => { watch with outer := Function.update watch.outer (.scheduler c) none }
  | .fork p =>
      { watch with
        opened := Function.update watch.opened (.process p) 1
        outer := Function.update watch.outer (.process p) none
        held := Function.update watch.held (.process p) {ptableLock} }
  | _ => watch

/-- A step of a processor. After a panic there is none. -/
def step (watch : Watch) (label : CpuId × Op) : Option Watch :=
  if watch.machine.panicked = none ∧ watch.machine.enabled label.1 label.2 then
    match watch.machine.exec label.1 label.2 with
    | .error message => some { watch with machine := { watch.machine with panicked := some message } }
    | .ok next => some { watch.note label.1 label.2 with machine := next }
  else none

/-- How threads are to use the functions: they pop what they have pushed, acquire locks that they do not
have, release locks that they have, change the flag otherwise only where no push is open, and
switch with `ptable.lock` only, in a state other than `RUNNING`. -/
def Proper (watch : Watch) (label : CpuId × Op) : Prop :=
  let t := watch.machine.thread label.1
  match label.2 with
  | .popcli => 0 < watch.opened t
  | .acquire l => l ∉ watch.held t
  | .release l => l ∈ watch.held t ∧ 0 < watch.opened t
  | .setIf _ => watch.opened t = 0
  | .sched => watch.opened t = 1 ∧ watch.held t = {ptableLock} ∧
      ∀ p, watch.machine.proc label.1 = some p → watch.machine.context p = .running true
  | .resume _ => watch.opened t = 1 ∧ watch.held t = {ptableLock}
  | _ => True

instance (watch : Watch) : DecidablePred watch.Proper
  | (_, .popcli) => inferInstanceAs (Decidable (_ < _))
  | (_, .acquire _) => inferInstanceAs (Decidable (_ ∉ _))
  | (_, .release _) => inferInstanceAs (Decidable (_ ∧ _))
  | (_, .setIf _) => inferInstanceAs (Decidable (_ = _))
  | (_, .sched) => inferInstanceAs (Decidable (_ ∧ _ ∧ ∀ _ : Slot, _))
  | (_, .resume _) => inferInstanceAs (Decidable (_ ∧ _))
  | (_, .pushcli) | (_, .xchg) | (_, .leave) | (_, .fork _) | (_, .reap _) => inferInstanceAs (Decidable True)

/-- The schedulers run, nothing has been pushed and no lock is taken. -/
structure Initial (watch : Watch) : Prop where
  calm : watch.machine.panicked = none
  ncli : ∀ c, (watch.machine.cpu c).ncli = 0
  proc : ∀ c, watch.machine.proc c = none
  spinning : ∀ c, watch.machine.spinning c = none
  lock : ∀ l, (watch.machine.lock l).locked = false
  context : ∀ p, watch.machine.context p = .unused
  opened : ∀ t, watch.opened t = 0
  held : ∀ t, watch.held t = ∅

end Watch

end Xv6.Interrupts
