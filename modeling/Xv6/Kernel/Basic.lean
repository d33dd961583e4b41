import Xv6.Lib.Threads
import Xv6.Param

/-!
# Process table, locks and channels

The data that `proc.c` works on. Pointers to table entries are slot numbers, a null
pointer is `none`. A wait channel is the address of a kernel object; channels of
different objects are different, so a channel is named by its object. The same holds
for spin locks.
-/

namespace Xv6

abbrev Slot := Fin NPROC

abbrev SemId := Fin NSEMS

inductive ProcState where
  | unused
  | embryo
  | sleeping
  | runnable
  | running
  | zombie
  deriving DecidableEq, Repr

/-- What a process can sleep on. A pipe has two channels, `&p->nread` and `&p->nwrite`.
`other` stands for the objects outside this model. -/
inductive Chan where
  | proc (slot : Slot)
  | ticks
  | sem (sem : SemId)
  | input
  | log
  | sleeplock
  | nread
  | nwrite
  | other (object : ℕ)
  deriving DecidableEq, Repr

inductive Lock where
  | ptable
  | tickslock
  | cons
  | sem (sem : SemId)
  | log
  | sleeplock
  | pipe
  | other (object : ℕ)
  deriving DecidableEq, Repr

/-- `struct schedStat`. What the source keeps in a `float` is an exact rational, and
`executed_cycle`, to which it adds `0.1f` at each dispatch, is the number of dispatches. -/
structure SchedStat where
  queueId : ℤ
  place : ℤ
  lastRun : ℤ
  priority : ℤ
  priorityRatio : ℚ
  arrivalTime : ℤ
  arrivalTimeRatio : ℚ
  executedCycle : ℕ
  executedCycleRatio : ℚ
  deriving DecidableEq, Repr

structure BjfRatios where
  priorityRatio : ℚ
  arrivalTimeRatio : ℚ
  executedCycleRatio : ℚ
  deriving DecidableEq, Repr

def SchedStat.setRatios (status : SchedStat) (ratios : BjfRatios) : SchedStat :=
  { status with
    priorityRatio := ratios.priorityRatio
    arrivalTimeRatio := ratios.arrivalTimeRatio
    executedCycleRatio := ratios.executedCycleRatio }

/-- `struct proc`, as far as `proc.c` decides on it. The kernel stack is a page number. -/
structure Proc where
  state : ProcState
  pid : ℤ
  parent : Option Slot
  chan : Option Chan
  killed : Bool
  kstack : Option ℕ
  scheduleStatus : SchedStat
  deriving DecidableEq, Repr

/-- The `schedule_status` that `allocproc` gives a new process. -/
def SchedStat.fresh : SchedStat where
  queueId := UNSET
  place := 0
  lastRun := 0
  priority := BJF_PRIORITY_DEF
  priorityRatio := 1
  arrivalTime := 0
  arrivalTimeRatio := 1
  executedCycle := 0
  executedCycleRatio := 1

/-- A table entry as the loader leaves it: all bytes zero. -/
def Proc.empty : Proc where
  state := .unused
  pid := 0
  parent := none
  chan := none
  killed := false
  kstack := none
  scheduleStatus :=
    { SchedStat.fresh with
      priority := 0, priorityRatio := 0, arrivalTimeRatio := 0, executedCycleRatio := 0 }

/-- The stores of `scheduler` to the process it switches to. -/
def Proc.dispatch (proc : Proc) (ticks : ℤ) : Proc :=
  { proc with
    state := .running
    scheduleStatus :=
      { proc.scheduleStatus with
        lastRun := ticks
        executedCycle := proc.scheduleStatus.executedCycle + 1 } }

section Dispatch

variable {proc : Proc} {ticks : ℤ}

@[simp]
theorem Proc.dispatch_state : (proc.dispatch ticks).state = .running := rfl

@[simp]
theorem Proc.dispatch_pid : (proc.dispatch ticks).pid = proc.pid := rfl

@[simp]
theorem Proc.dispatch_parent : (proc.dispatch ticks).parent = proc.parent := rfl

@[simp]
theorem Proc.dispatch_killed : (proc.dispatch ticks).killed = proc.killed := rfl

@[simp]
theorem Proc.dispatch_kstack : (proc.dispatch ticks).kstack = proc.kstack := rfl

end Dispatch

def toInt (word : ℕ) : ℤ := Int.bmod word (2 ^ 32)

/-- The shared state: the process table with its globals, the clock, the free pages, and
the state `sub` of the subsystem at hand. -/
structure Kern (Sub : Type) where
  proc : Slot → Proc
  initproc : Slot
  nextpid : ℤ
  ticks : ℕ
  freePages : List ℕ
  sub : Sub

/-- The threads: one for each process, and the scheduler of each processor. -/
inductive Thread (ncpu : ℕ) where
  | proc (slot : Slot)
  | scheduler (cpu : Fin ncpu)
  deriving DecidableEq, Repr

namespace Kern

variable {Sub : Type}

def modify (kern : Kern Sub) (slot : Slot) (change : Proc → Proc) : Kern Sub :=
  { kern with proc := Function.update kern.proc slot (change (kern.proc slot)) }

def setState (kern : Kern Sub) (slot : Slot) (state : ProcState) : Kern Sub :=
  kern.modify slot fun proc => { proc with state }

/-- The first table entry that satisfies `test`, in the order of the table loops. -/
def find (kern : Kern Sub) (test : Slot → Proc → Bool) : Option Slot :=
  (List.finRange NPROC).find? fun slot => test slot (kern.proc slot)

/-- `wakeup1(chan)`: all processes sleeping on `chan` become runnable. -/
def wakeup1 (kern : Kern Sub) (chan : Option Chan) : Kern Sub :=
  { kern with
    proc := fun slot =>
      let proc := kern.proc slot
      if proc.state = .sleeping ∧ proc.chan = chan then { proc with state := .runnable }
      else proc }

end Kern

end Xv6
