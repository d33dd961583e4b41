import Xv6.Kernel.Basic

/-!
# The code of `proc.c`

Every kernel function is a list of instructions. Lock operations are instructions of
their own; what happens between two of them is an act. Where the source branches or
loops, the act reads the state and puts the code of the chosen branch in front of the
rest. Tests on data that the model leaves out (whether `copyuvm` finds memory, how often
an unmodelled subsystem goes back to sleep) follow the choice of the step.

The file system and the memory calls of `fork` and `exit` take no lock of this model and
are left out, as is the once-only file-system initialisation in `forkret`.
-/

namespace Xv6

open Threads

/-- The acts of `proc.c`; `sub` are those of the subsystem at hand. -/
inductive Act (SubAct : Type) where
  | allocproc
  | kstack (np : Slot)
  | copyuvm (np : Slot)
  | forkRunnable (np : Slot)
  | forkTicks (np : Slot)
  | forkQueue (np : Slot)
  | setQueue (pid : ℤ) (queue : ℤ)
  | exitSched
  | zombieExit
  | waitScan
  | kill (pid : ℤ)
  | sleepSched (chan : Chan)
  | clearChan
  | wakeup1 (chan : Chan)
  | yieldSched
  | setBjfParamsProcess (pid : ℤ) (ratios : BjfRatios)
  | setBjfParamsSystem (ratios : BjfRatios)
  | setBjfPriority (pid : ℤ) (priority : ℤ)
  | pick
  | sysSleep (n : ℕ)
  | sysSleepLoop (ticks0 n : ℕ)
  | tick
  | ageScan (osTicks : ℤ) (index : ℕ)
  | ageQueue (slot : Slot)
  | otherLoop (object : ℕ)
  | iret
  | sub (act : SubAct)
  deriving DecidableEq

section Functions

variable {SubAct : Type}

def wakeup (chan : Chan) : Code Lock (Act SubAct) :=
  [.acquire .ptable, .act (.wakeup1 chan), .release .ptable]

/-- `sleep(chan, lk)`. The stores to `p->chan` and `p->state` and the switch in `sched` are
one act: `ptable.lock` is held from the stores until the scheduler releases it. -/
def sleep (chan : Chan) (lk : Lock) : Code Lock (Act SubAct) :=
  if lk = .ptable then
    [.act (.sleepSched chan), .act .clearChan]
  else
    [.acquire .ptable, .release lk, .act (.sleepSched chan), .act .clearChan,
      .release .ptable, .acquire lk]

def yield : Code Lock (Act SubAct) :=
  [.acquire .ptable, .act .yieldSched, .release .ptable]

/-- Where a new process starts; it still holds `ptable.lock` from the scheduler. -/
def forkret : Code Lock (Act SubAct) := [.release .ptable]

/-- The part of `change_queue` before its loop: `UNSET` is replaced by the queue that the
pid calls for. -/
def defaultQueue (pid newQueue : ℤ) : Option ℤ :=
  if newQueue = UNSET then
    if pid = 1 then some ROUND_ROBIN else if pid > 1 then some LCFS else none
  else some newQueue

def changeQueue (pid newQueue : ℤ) : Code Lock (Act SubAct) :=
  match defaultQueue pid newQueue with
  | none => []
  | some queue => [.acquire .ptable, .act (.setQueue pid queue), .release .ptable]

def fork : Code Lock (Act SubAct) := [.acquire .ptable, .act .allocproc]

def exit : Code Lock (Act SubAct) := [.acquire .ptable, .act .exitSched, .act .zombieExit]

def wait : Code Lock (Act SubAct) := [.acquire .ptable, .act .waitScan]

def kill (pid : ℤ) : Code Lock (Act SubAct) :=
  [.acquire .ptable, .act (.kill pid), .release .ptable]

def setBjfParamsProcess (pid : ℤ) (ratios : BjfRatios) : Code Lock (Act SubAct) :=
  [.acquire .ptable, .act (.setBjfParamsProcess pid ratios), .release .ptable]

def setBjfParamsSystem (ratios : BjfRatios) : Code Lock (Act SubAct) :=
  [.acquire .ptable, .act (.setBjfParamsSystem ratios), .release .ptable]

def setBjfPriority (pid priority : ℤ) : Code Lock (Act SubAct) :=
  [.acquire .ptable, .act (.setBjfPriority pid priority), .release .ptable]

def ageprocs (osTicks : ℤ) : Code Lock (Act SubAct) :=
  [.acquire .ptable, .act (.ageScan osTicks 0)]

def scheduler : Code Lock (Act SubAct) := [.acquire .ptable, .act .pick]

/-- `sys_sleep`, from the listing `kernel.asm`. -/
def sysSleep (n : ℕ) : Code Lock (Act SubAct) := [.acquire .tickslock, .act (.sysSleep n)]

/-- The part of `trap` that the first processor runs on a clock interrupt, from the
listing `kernel.asm`. -/
def timer : Code Lock (Act SubAct) := [.acquire .tickslock, .act .tick, .act .iret]

/-- The use of `sleep` by the rest of the kernel: with its own lock held, in a loop. -/
def sleepOther (object : ℕ) : Code Lock (Act SubAct) :=
  [.acquire (.other object), .act (.otherLoop object)]

end Functions

/-- A subsystem: its acts, its system calls and its interrupt handlers. -/
structure Subsystem (Sub SubAct SubEntry SubIntr : Type) where
  exec : {ncpu : ℕ} → SubAct → Thread ncpu → ℕ → Kern Sub →
    Option (Kern Sub × Code Lock (Act SubAct))
  entry : SubEntry → Code Lock (Act SubAct)
  intr : SubIntr → Code Lock (Act SubAct)

inductive Entry (SubEntry : Type) where
  | fork
  | exit
  | wait
  | kill (pid : ℤ)
  | sysSleep (n : ℕ)
  | changeQueue (pid queue : ℤ)
  | setBjfParamsProcess (pid : ℤ) (ratios : BjfRatios)
  | setBjfParamsSystem (ratios : BjfRatios)
  | setBjfPriority (pid priority : ℤ)
  | sleepOther (object : ℕ)
  | wakeupOther (object : ℕ)
  | sub (entry : SubEntry)
  deriving DecidableEq

/-- The interrupts: the clock on the first processor, the clock on a processor that runs a
process, and those of the subsystem. -/
inductive Intr (SubIntr : Type) where
  | timer
  | yield
  | sub (intr : SubIntr)
  deriving DecidableEq

variable {Sub SubAct SubEntry SubIntr : Type} {ncpu : ℕ}

theorem Act.sub_or_not (act : Act SubAct) :
    (∃ subAct, act = .sub subAct) ∨ ∀ subAct, act ≠ .sub subAct := by
  cases act <;> simp

theorem Entry.sub_or_not (entry : Entry SubEntry) :
    (∃ subEntry, entry = .sub subEntry) ∨ ∀ subEntry, entry ≠ .sub subEntry := by
  cases entry <;> simp

abbrev Effect (Sub SubAct : Type) (ncpu : ℕ) :=
  Outcome (Thread ncpu) Lock (Act SubAct) (Kern Sub)

namespace Kern

/-- The children of `curproc` get init as their parent. -/
def adopt (kern : Kern Sub) (curproc : Slot) : Kern Sub :=
  { kern with
    proc := fun slot =>
      if (kern.proc slot).parent = some curproc then
        { kern.proc slot with parent := some kern.initproc }
      else kern.proc slot }

/-- The children of `curproc` pass to init; a zombie among them wakes init. -/
def reparent (kern : Kern Sub) (curproc : Slot) : Kern Sub :=
  if ∃ slot, (kern.proc slot).parent = some curproc ∧ (kern.proc slot).state = .zombie then
    (kern.adopt curproc).wakeup1 (some (.proc kern.initproc))
  else kern.adopt curproc

/-- The body of `exit` under `ptable.lock`. -/
def exit (kern : Kern Sub) (curproc : Slot) : Kern Sub :=
  let woken := kern.wakeup1 ((kern.proc curproc).parent.map .proc)
  (woken.reparent curproc).setState curproc .zombie

def reap (kern : Kern Sub) (child : Slot) : Kern Sub :=
  let freed := { kern with freePages := (kern.proc child).kstack.toList ++ kern.freePages }
  freed.modify child fun proc =>
    { proc with kstack := none, pid := 0, parent := none, killed := false, state := .unused }

def sleepOn (kern : Kern Sub) (curproc : Slot) (chan : Chan) : Kern Sub :=
  kern.modify curproc fun proc => { proc with chan := some chan, state := .sleeping }

/-- The loop of `kill`: the first entry with this pid. -/
def kill (kern : Kern Sub) (pid : ℤ) : Kern Sub :=
  match kern.find fun _ proc => proc.pid = pid with
  | none => kern
  | some slot =>
      kern.modify slot fun proc =>
        { proc with
          killed := true
          state := if proc.state = .sleeping then .runnable else proc.state }

end Kern

/-- The acts of the clock and of processes that give up or get the processor. The slot is
the process that runs. -/
def execProc (act : Act SubAct) (cpu : Fin ncpu) (curproc : Slot) (choice : ℕ)
    (kern : Kern Sub) : Option (Effect Sub SubAct ncpu) :=
  match act with
  | .allocproc =>
      match kern.find fun _ proc => proc.state = .unused with
      | none => some { shared := kern, push := [.release .ptable] }
      | some np => some
          { shared := { kern.modify np fun proc =>
              { proc with state := .embryo, pid := kern.nextpid } with
              nextpid := kern.nextpid + 1 }
            push := [.release .ptable, .act (.kstack np)] }
  | .kstack np =>
      match kern.freePages with
      | [] => some { shared := kern.setState np .unused }
      | page :: pages => some
          { shared := { kern.modify np fun proc =>
              { proc with kstack := some page, scheduleStatus := .fresh } with
              freePages := pages }
            push := [.act (.copyuvm np)]
            spawn := some (.proc np, forkret) }
  | .copyuvm np =>
      if choice = 0 then some
        { shared := kern.modify np fun proc => { proc with parent := some curproc }
          push := [.acquire .ptable, .act (.forkRunnable np), .acquire .tickslock,
            .act (.forkTicks np), .release .tickslock, .release .ptable,
            .act (.forkQueue np)] }
      else some
        { shared := { kern.modify np fun proc =>
            { proc with kstack := none, state := .unused } with
            freePages := (kern.proc np).kstack.toList ++ kern.freePages } }
  | .forkRunnable np => some { shared := kern.setState np .runnable }
  | .forkTicks np => some
      { shared := kern.modify np fun proc =>
          { proc with scheduleStatus :=
            { proc.scheduleStatus with
              lastRun := toInt kern.ticks, arrivalTime := toInt kern.ticks } } }
  | .forkQueue np => some
      { shared := kern, push := changeQueue (kern.proc np).pid UNSET }
  | .exitSched =>
      if curproc = kern.initproc then none
      else some { shared := kern.exit curproc, switch := some (.scheduler cpu) }
  | .waitScan =>
      match kern.find fun _ proc => proc.parent = some curproc ∧ proc.state = .zombie with
      | some child => some { shared := kern.reap child, push := [.release .ptable] }
      | none =>
          if (kern.find fun _ proc => proc.parent = some curproc) = none ∨
              (kern.proc curproc).killed then
            some { shared := kern, push := [.release .ptable] }
          else some
            { shared := kern, push := sleep (.proc curproc) .ptable ++ [.act .waitScan] }
  | .sleepSched chan => some
      { shared := kern.sleepOn curproc chan, switch := some (.scheduler cpu) }
  | .clearChan => some
      { shared := kern.modify curproc fun proc => { proc with chan := none } }
  | .yieldSched => some
      { shared := kern.setState curproc .runnable, switch := some (.scheduler cpu) }
  | .sysSleepLoop ticks0 n =>
      if (kern.ticks + 2 ^ 32 - ticks0) % 2 ^ 32 < n then
        if (kern.proc curproc).killed then
          some { shared := kern, push := [.release .tickslock] }
        else some
          { shared := kern
            push := sleep .ticks .tickslock ++ [.act (.sysSleepLoop ticks0 n)] }
      else some { shared := kern, push := [.release .tickslock] }
  | _ => none

/-- The acts that need no running process. -/
def execAny (act : Act SubAct) (choice : ℕ) (kern : Kern Sub) :
    Option (Effect Sub SubAct ncpu) :=
  match act with
  | .setQueue pid queue =>
      match kern.find fun _ proc => proc.pid = pid with
      | none => some { shared := kern }
      | some slot => some
          { shared := kern.modify slot fun proc =>
              { proc with scheduleStatus := { proc.scheduleStatus with queueId := queue } } }
  | .kill pid => some { shared := kern.kill pid }
  | .wakeup1 chan => some { shared := kern.wakeup1 (some chan) }
  | .setBjfParamsProcess pid ratios =>
      match kern.find fun _ proc => proc.pid = pid with
      | none => some { shared := kern }
      | some slot => some
          { shared := kern.modify slot fun proc =>
              { proc with scheduleStatus := proc.scheduleStatus.setRatios ratios } }
  | .setBjfParamsSystem ratios => some
      { shared :=
          { kern with
            proc := fun slot =>
              { kern.proc slot with
                scheduleStatus := (kern.proc slot).scheduleStatus.setRatios ratios } } }
  | .setBjfPriority pid priority =>
      match kern.find fun _ proc => proc.pid = pid with
      | none => some { shared := kern }
      | some slot => some
          { shared := kern.modify slot fun proc =>
              { proc with scheduleStatus := { proc.scheduleStatus with priority } } }
  | .sysSleep n => some { shared := kern, push := [.act (.sysSleepLoop kern.ticks n)] }
  | .tick =>
      let ticks := (kern.ticks + 1) % 2 ^ 32
      some
        { shared := { kern with ticks }
          push := wakeup .ticks ++ [.release .tickslock] ++ ageprocs (toInt ticks) }
  | .ageScan osTicks index =>
      if bound : index < NPROC then
        let proc := kern.proc ⟨index, bound⟩
        if proc.state = .runnable ∧ proc.scheduleStatus.queueId ≠ ROUND_ROBIN ∧
            Int.bmod (osTicks - proc.scheduleStatus.lastRun) (2 ^ 32) > AGING_THRESHOLD then
          some
            { shared := kern
              push := [.release .ptable, .act (.ageQueue ⟨index, bound⟩), .acquire .ptable,
                .act (.ageScan osTicks (index + 1))] }
        else some { shared := kern, push := [.act (.ageScan osTicks (index + 1))] }
      else some { shared := kern, push := [.release .ptable] }
  | .ageQueue slot => some
      { shared := kern, push := changeQueue (kern.proc slot).pid ROUND_ROBIN }
  | .otherLoop object =>
      if choice = 0 then some { shared := kern, push := [.release (.other object)] }
      else some
        { shared := kern
          push := sleep (.other object) (.other object) ++ [.act (.otherLoop object)] }
  | .iret => some { shared := kern }
  | _ => none

/-- One turn of the loop of `scheduler`. The choice names the process that `roundrobin`,
`lcfs` or `bestjobfirst` returns; all the model asks of it is that it is runnable. -/
def execPick (choice : ℕ) (kern : Kern Sub) : Option (Effect Sub SubAct ncpu) :=
  if bound : choice < NPROC then
    let slot : Slot := ⟨choice, bound⟩
    if (kern.proc slot).state = .runnable then
      some
        { shared := kern.modify slot fun proc => proc.dispatch (toInt kern.ticks)
          push := .release .ptable :: scheduler
          switch := some (.proc slot) }
    else none
  else some { shared := kern, push := .release .ptable :: scheduler }

variable (sub : Subsystem Sub SubAct SubEntry SubIntr)

def exec (act : Act SubAct) (cpu : Fin ncpu) (thread : Thread ncpu) (choice : ℕ)
    (kern : Kern Sub) : Option (Effect Sub SubAct ncpu) :=
  match act, thread with
  | .sub act, thread =>
      (sub.exec act thread choice kern).map fun result =>
        { shared := result.1, push := result.2 }
  | .pick, .scheduler _ => execPick choice kern
  | .pick, .proc _ => none
  | act, .proc curproc =>
      (execProc act cpu curproc choice kern).or (execAny act choice kern)
  | act, .scheduler _ => execAny act choice kern

def entryCode : Entry SubEntry → Code Lock (Act SubAct)
  | .fork => fork
  | .exit => exit
  | .wait => wait
  | .kill pid => kill pid
  | .sysSleep n => sysSleep n
  | .changeQueue pid queue => changeQueue pid queue
  | .setBjfParamsProcess pid ratios => setBjfParamsProcess pid ratios
  | .setBjfParamsSystem ratios => setBjfParamsSystem ratios
  | .setBjfPriority pid priority => setBjfPriority pid priority
  | .sleepOther object => sleepOther object
  | .wakeupOther object => wakeup (.other object)
  | .sub entry => sub.entry entry

/-- The kernel: system calls start from user mode, the clock handler runs on the first
processor, and a processor that runs a process may have to yield. -/
def kernel (ncpu : ℕ) : Program (Fin ncpu) (Thread ncpu) Lock (Act SubAct) (Kern Sub)
    (Entry SubEntry) (Intr SubIntr) where
  exec := exec sub
  entry := fun entry thread =>
    match thread with
    | .proc _ => some (entryCode sub entry)
    | .scheduler _ => none
  intr := fun intr cpu thread =>
    match intr, thread with
    | .timer, _ => if cpu.val = 0 then some timer else none
    | .yield, .proc _ => some (yield ++ [.act .iret])
    | .yield, .scheduler _ => none
    | .sub intr, _ => some (sub.intr intr ++ [.act .iret])
  iret := .iret

/-- The process table after `userinit`: init is the only process. -/
def bootProc (slot : Slot) : Proc :=
  if slot = 0 then
    { Proc.empty with
      state := .runnable
      pid := 1
      kstack := some 0
      scheduleStatus := { SchedStat.fresh with queueId := ROUND_ROBIN } }
  else .empty

/-- The kernel after `userinit`, each processor about to enter `scheduler`. -/
def boot (ncpu : ℕ) (freePages : List ℕ) (start : Sub) :
    State (Fin ncpu) (Thread ncpu) Lock (Act SubAct) (Kern Sub) where
  shared :=
    { proc := bootProc
      initproc := 0
      nextpid := 2
      ticks := 0
      freePages
      sub := start }
  owner := fun _ => none
  ncli := fun _ => 0
  code := fun thread =>
    match thread with
    | .proc slot => if slot = 0 then forkret else [.act .zombieExit]
    | .scheduler _ => scheduler
  cur := .scheduler

section Schedules

variable {SubEntry SubIntr : Type}

/-- Steps of one processor, every open choice resolved by zero. -/
def go (cpu : Fin ncpu) (steps : ℕ) : List (Label (Fin ncpu) (Entry SubEntry) (Intr SubIntr)) :=
  List.replicate steps (.run cpu 0)

/-- A processor in its scheduler goes over to a process. -/
def dispatch (cpu : Fin ncpu) (slot : Slot) :
    List (Label (Fin ncpu) (Entry SubEntry) (Intr SubIntr)) :=
  [.run cpu 0, .run cpu slot]

/-- The process on a processor makes a system call. -/
def call (cpu : Fin ncpu) (entry : Entry SubEntry) (steps : ℕ) :
    List (Label (Fin ncpu) (Entry SubEntry) (Intr SubIntr)) :=
  .call cpu entry :: go cpu steps

/-- The process on a processor gives it up at a clock interrupt. -/
def preempt (cpu : Fin ncpu) : List (Label (Fin ncpu) (Entry SubEntry) (Intr SubIntr)) :=
  .intr cpu .yield :: go cpu 3

end Schedules

end Xv6
