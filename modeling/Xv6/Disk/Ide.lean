import Xv6.Kernel.Basic
import Xv6.Lib.Run

/-!
# The disk drivers

`ide.c` hands the requests of processes to the disk one after the other and waits for its
interrupts; `memide.c` copies the blocks itself. In the model of `ide.c` the parts of `iderw` and
of `ideintr` under `idelock` are one step each, and the disk carries out its command in a step of
its own.
-/

namespace Xv6.Ide

abbrev BufId := Fin NBUF

/-- `struct buf`, without the links of its lists. The sleep lock is given by its holder. -/
structure Buf (Data : Type) where
  valid : Bool
  dirty : Bool
  dev : ℕ
  blockno : ℕ
  holder : Option Slot
  data : Data

/-- `(b->flags & (B_VALID|B_DIRTY)) == B_VALID`. -/
def Buf.Synced {Data : Type} (buf : Buf Data) : Prop := buf.valid = true ∧ buf.dirty = false

instance {Data : Type} (buf : Buf Data) : Decidable buf.Synced := inferInstanceAs (Decidable (_ ∧ _))

/-- Why a function does not go on: a panic with its message, or a loop that has not ended. -/
inductive Stop where
  | panic (message : String)
  | waiting
  deriving DecidableEq, Repr

/-! ## The hardware -/

/-- What `idestart` writes to the ports `0x1f2` to `0x1f6`, and the words that follow a write
command. -/
structure Command (Data : Type) where
  count : ℕ
  low : ℕ
  middle : ℕ
  high : ℕ
  drive : ℕ
  write : Option Data

/-- The command for a buffer. A block is one sector. -/
def Buf.command {Data : Type} (buf : Buf Data) : Command Data :=
  let sector := buf.blockno
  { count := 1
    low := sector % 256
    middle := sector / 2 ^ 8 % 256
    high := sector / 2 ^ 16 % 256
    drive := 224 + buf.dev % 2 * 16 + sector / 2 ^ 24 % 16
    write := if buf.dirty then some buf.data else none }

namespace Command

variable {Data : Type}

def disk (command : Command Data) : ℕ := command.drive / 16 % 2

/-- The first sector that a command is for. -/
def sector (command : Command Data) : ℕ :=
  command.low + 2 ^ 8 * command.middle + 2 ^ 16 * command.high + 2 ^ 24 * (command.drive % 16)

end Command

/-- The controller: the command that it carries out, the words at the data port and its interrupt. -/
structure Controller (Data : Type) where
  command : Option (Command Data)
  port : Option Data
  irq : Bool

/-! ## ide.c -/

/-- Where a process is in `iderw`: before `acquire(&idelock)`, in `sleep`, or woken up. -/
inductive Call where
  | idle
  | entering (b : BufId)
  | asleep (b : BufId)
  | awake (b : BufId)
  deriving DecidableEq, Repr

/-- The driver with the disk and the processes. `started` is the buffer that `idestart` has last been
called with. -/
structure Machine (Data : Type) where
  buf : BufId → Buf Data
  qnext : BufId → Option BufId
  idequeue : Option BufId
  havedisk1 : Bool
  controller : Controller Data
  disks : ℕ → ℕ → Data
  call : Slot → Call
  started : Option BufId

namespace Machine

variable {Data : Type}

/-- The buffer of the call that a process is in. -/
def current (machine : Machine Data) (p : Slot) : Option BufId :=
  match machine.call p with
  | .idle => none
  | .entering b | .asleep b | .awake b => some b

def idestart (machine : Machine Data) : Option BufId → Except Stop (Machine Data)
  | none => .error (.panic "idestart")
  | some b =>
      let buf := machine.buf b
      if buf.blockno ≥ FSSIZE then .error (.panic "incorrect blockno")
      -- `idewait(0)`
      else if machine.controller.command.isSome then .error .waiting
      else
        .ok { machine with
          controller := { machine.controller with command := some buf.command }
          started := some b }

/-- The disk carries out its command and raises its interrupt. -/
def finish (machine : Machine Data) : Option (Machine Data) :=
  match machine.controller.command with
  | none => none
  | some command =>
      match command.write with
      | some data =>
          some { machine with
            controller := { command := none, port := none, irq := true }
            disks := Function.update machine.disks command.disk
              (Function.update (machine.disks command.disk) command.sector data) }
      | none =>
          some { machine with
            controller :=
              { command := none, port := some (machine.disks command.disk command.sector), irq := true } }

def modify (machine : Machine Data) (b : BufId) (change : Buf Data → Buf Data) : Machine Data :=
  { machine with buf := Function.update machine.buf b (change (machine.buf b)) }

def wakeup (machine : Machine Data) (b : BufId) : Machine Data :=
  { machine with
    call := fun p => if machine.call p = .asleep b then .awake b else machine.call p }

/-- `insl(0x1f0, b->data, BSIZE/4)`, which waits for data at the port. -/
def insl (machine : Machine Data) (b : BufId) : Except Stop (Machine Data) :=
  match machine.controller.port with
  | none => .error .waiting
  | some data =>
      .ok { machine.modify b fun buf => { buf with data := data } with
        controller := { machine.controller with port := none } }

def ideintr (machine : Machine Data) : Except Stop (Machine Data) :=
  match machine.idequeue with
  | none => .ok machine
  | some b => do
      let machine := { machine with idequeue := machine.qnext b }
      let machine ← if (machine.buf b).dirty then .ok machine else machine.insl b
      let machine := machine.modify b fun buf => { buf with valid := true, dirty := false }
      let machine := machine.wakeup b
      if machine.idequeue.isSome then machine.idestart machine.idequeue else .ok machine

def refuse (machine : Machine Data) (p : Slot) (b : BufId) : Option String :=
  let buf := machine.buf b
  if buf.holder ≠ some p then some "iderw: buf not locked"
  else if buf.Synced then some "iderw: nothing to do"
  else if buf.dev ≠ 0 ∧ machine.havedisk1 = false then some "iderw: ide disk 1 not present"
  else none

/-- The link that `pp` points to: `idequeue`, or that of a buffer. -/
def load (machine : Machine Data) : Option BufId → Option BufId
  | none => machine.idequeue
  | some b => machine.qnext b

def store (machine : Machine Data) (pp target : Option BufId) : Machine Data :=
  match pp with
  | none => { machine with idequeue := target }
  | some b => { machine with qnext := Function.update machine.qnext b target }

/-- `for(pp=&idequeue; *pp; pp=&(*pp)->qnext);`, followed for a number of steps. -/
def lastLink (machine : Machine Data) : ℕ → Option BufId → Except Stop (Option BufId)
  | 0, _ => .error .waiting
  | fuel + 1, pp =>
      match machine.load pp with
      | none => .ok pp
      | some b => machine.lastLink fuel (some b)

def setCall (machine : Machine Data) (p : Slot) (call : Call) : Machine Data :=
  { machine with call := Function.update machine.call p call }

/-- The loop of `iderw`: `sleep` or return. -/
def test (machine : Machine Data) (p : Slot) (b : BufId) : Machine Data :=
  if (machine.buf b).Synced then machine.setCall p .idle else machine.setCall p (.asleep b)

/-- What `iderw` does from `acquire(&idelock)` on. There are not more buffers than steps. -/
def append (machine : Machine Data) (p : Slot) (b : BufId) : Except Stop (Machine Data) := do
  let machine := { machine with qnext := Function.update machine.qnext b none }
  let pp ← machine.lastLink (NBUF + 1) none
  let machine := machine.store pp (some b)
  let machine ← if machine.idequeue = some b then machine.idestart (some b) else .ok machine
  return machine.test p b

end Machine

/-- The steps of processes, of the disk and of its interrupt. A process that sleeps can also be
woken up because it has been killed; and a buffer that nobody is in `iderw` with may change in any
way. -/
inductive Label (Data : Type) where
  | call (p : Slot) (b : BufId)
  | append (p : Slot)
  | test (p : Slot)
  | kill (p : Slot)
  | change (b : BufId) (buf : Buf Data)
  | disk
  | intr

def step {Data : Type} (machine : Machine Data) : Label Data → Option (Machine Data)
  | .call p b =>
      if machine.call p = .idle ∧ machine.refuse p b = none then
        some (machine.setCall p (.entering b))
      else none
  | .append p =>
      match machine.call p with
      | .entering b => (machine.append p b).toOption
      | _ => none
  | .test p =>
      match machine.call p with
      | .awake b => some (machine.test p b)
      | _ => none
  | .kill p =>
      match machine.call p with
      | .asleep b => some (machine.setCall p (.awake b))
      | _ => none
  | .change b buf =>
      if ∀ p, machine.current p ≠ some b then some (machine.modify b fun _ => buf) else none
  | .disk => machine.finish
  | .intr =>
      if machine.controller.irq then
        { machine with controller := { machine.controller with irq := false } }.ideintr.toOption
      else none

/-! ## memide.c -/

/-- Where a process is in an `iderw` that takes effect in one step. -/
inductive AtomicCall where
  | idle
  | called (b : BufId)
  | completed (b : BufId)
  deriving DecidableEq, Repr

structure Memide (Data : Type) where
  buf : BufId → Buf Data
  disksize : ℕ
  memdisk : ℕ → Data
  call : Slot → AtomicCall

namespace Memide

variable {Data : Type}

def refuse (memide : Memide Data) (p : Slot) (b : BufId) : Option String :=
  let buf := memide.buf b
  if buf.holder ≠ some p then some "iderw: buf not locked"
  else if buf.Synced then some "iderw: nothing to do"
  else if buf.dev ≠ 1 then some "iderw: request not for disk 1"
  else if buf.blockno ≥ memide.disksize then some "iderw: block out of range"
  else none

def iderw (memide : Memide Data) (b : BufId) : Memide Data :=
  let buf := memide.buf b
  if buf.dirty then
    { memide with
      buf := Function.update memide.buf b { buf with valid := true, dirty := false }
      memdisk := Function.update memide.memdisk buf.blockno buf.data }
  else
    { memide with
      buf := Function.update memide.buf b { buf with data := memide.memdisk buf.blockno, valid := true } }

end Memide

/-- The calls, the moment at which each takes effect, and the returns. -/
inductive AtomicLabel (Data : Type) where
  | call (p : Slot) (b : BufId)
  | complete (p : Slot)
  | return (p : Slot)
  | change (b : BufId) (buf : Buf Data)

def atomicStep {Data : Type} (memide : Memide Data) : AtomicLabel Data → Option (Memide Data)
  | .call p b =>
      if memide.call p = .idle then
        some { memide with call := Function.update memide.call p (.called b) }
      else none
  | .complete p =>
      match memide.call p with
      | .called b =>
          if memide.refuse p b = none then
            some { memide.iderw b with call := Function.update memide.call p (.completed b) }
          else none
      | _ => none
  | .return p =>
      match memide.call p with
      | .completed _ => some { memide with call := Function.update memide.call p .idle }
      | _ => none
  | .change b buf =>
      if ∀ p, memide.call p ≠ .called b ∧ memide.call p ≠ .completed b then
        some { memide with buf := Function.update memide.buf b buf }
      else none

end Xv6.Ide
