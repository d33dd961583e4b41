import Xv6.Kernel.Code

/-!
# Semaphores and the console locks

`semaphore_acquire` and `semaphore_release` of `proc.c` with the console functions whose
locks they meet: `print_process_info` calls `cprintf` under `ptable.lock`, and the console
interrupt and `consoleread` call `wakeup` and `sleep` under `cons.lock`.

Of the console only the counters of the input ring are kept. What a key does to the edit
line is left open: any key may move `e`, and may commit the line.
-/

namespace Xv6

open Threads

/-- `struct semaphore`; the spin lock `lk` is `Lock.sem`. -/
@[ext]
structure Sem where
  value : ℤ
  waiting : ℕ → Option Slot
  wfirst : ℕ
  wlast : ℕ

def Sem.init (value : ℤ) : Sem where
  value
  waiting := fun _ => none
  wfirst := 0
  wlast := 0

/-- The counters of `input`: read, write and edit index. -/
structure Input where
  r : ℕ
  w : ℕ
  e : ℕ
  deriving DecidableEq

structure SemState where
  sems : SemId → Sem
  input : Input

/-- The acts between the lock operations. -/
inductive SemAct where
  | acquireBody (sem : SemId)
  | sortOuter (sem : SemId) (i : ℕ)
  | sortInner (sem : SemId) (i j : ℕ)
  | placeLoop (sem : SemId) (i : ℕ)
  | placeStore (sem : SemId) (i : ℕ)
  | printRow (index : ℕ)
  | releaseBody (sem : SemId)
  | wakeupproc (target : Option Slot)
  | dequeue (sem : SemId)
  | keys (doprocdump : Bool)
  | procdump
  | readLoop
  deriving DecidableEq

abbrev SemCode := Code Lock (Act SemAct)

/-- An act of this subsystem as an instruction. -/
abbrev semAct (act : SemAct) : Instr Lock (Act SemAct) := .act (.sub act)

/-- `cprintf` with `cons.locking` set, as it is until a panic. -/
def cprintf : SemCode := [.acquire .cons, .release .cons]

theorem mem_cprintfs {times : ℕ} {instr : Instr Lock (Act SemAct)}
    (mem : instr ∈ (List.replicate times cprintf).flatten) :
    instr = .acquire .cons ∨ instr = .release .cons := by
  rcases List.mem_flatten.mp mem with ⟨call, isCall, inCall⟩
  rw [List.eq_of_mem_replicate isCall] at inCall
  simpa [cprintf] using inCall

/-- `print_process_info`: the header, then the rows of the table. -/
def printProcessInfo : SemCode := cprintf ++ [semAct (.printRow 0)]

def semaphoreAcquire (sem : SemId) : SemCode :=
  [.acquire (.sem sem), semAct (.acquireBody sem), .release (.sem sem)]

def semaphoreRelease (sem : SemId) : SemCode :=
  [.acquire (.sem sem), semAct (.releaseBody sem), .release (.sem sem)]

/-- What `semaphore_acquire` does after it has queued the process. -/
def blockCode (sem : SemId) (wfirst : ℕ) : SemCode :=
  [semAct (.sortOuter sem wfirst), semAct (.placeLoop sem 0), .acquire .ptable] ++
    printProcessInfo ++ [.release .ptable] ++ sleep (.sem sem) (.sem sem)

def consoleintr : SemCode := [.acquire .cons, semAct (.keys false)]

def consoleread : SemCode := [.acquire .cons, semAct .readLoop]

def consolewrite : SemCode := [.acquire .cons, .release .cons]

namespace Sem

/-- Put the process at the tail of the ring. -/
def enqueue (sem : Sem) (curproc : Slot) : Sem :=
  { sem with
    waiting := Function.update sem.waiting sem.wlast (some curproc)
    wlast := (sem.wlast + 1) % NPROC }

def swap (sem : Sem) (i j : ℕ) : Sem :=
  { sem with
    waiting := Function.update (Function.update sem.waiting i (sem.waiting j)) j
      (sem.waiting i) }

/-- Clear the head of the ring and advance it. -/
def dequeue (sem : Sem) : Sem :=
  { sem with
    waiting := Function.update sem.waiting sem.wfirst none
    wfirst := (sem.wfirst + 1) % NPROC }

end Sem

def Kern.setSem (kern : Kern SemState) (sem : SemId) (updated : Sem) :
    Kern SemState :=
  { kern with sub := { kern.sub with sems := Function.update kern.sub.sems sem updated } }

def Kern.setInput (kern : Kern SemState) (input : Input) : Kern SemState :=
  { kern with sub := { kern.sub with input } }

def Kern.sem (kern : Kern SemState) (sem : SemId) : Sem := kern.sub.sems sem

def Kern.priority {Sub : Type} (kern : Kern Sub) (slot : Slot) : ℤ :=
  (kern.proc slot).scheduleStatus.priority

/-- What the acts do. A read through a null entry of `waiting` has no meaning, so the step
does not exist; a store through a null entry misses the process table. -/
def semExec {ncpu : ℕ} (act : SemAct) (thread : Thread ncpu) (choice : ℕ)
    (kern : Kern SemState) : Option (Kern SemState × SemCode) :=
  match act, thread with
  | .acquireBody id, .proc curproc =>
      let sem := { kern.sem id with value := (kern.sem id).value - 1 }
      if sem.value < 0 then
        some (kern.setSem id (sem.enqueue curproc), blockCode id sem.wfirst)
      else some (kern.setSem id sem, [])
  | .sortOuter id i, _ =>
      if i + 1 < (kern.sem id).wlast then
        some (kern, [semAct (.sortInner id i (i + 1)), semAct (.sortOuter id (i + 1))])
      else some (kern, [])
  | .sortInner id i j, _ =>
      let sem := kern.sem id
      if j < sem.wlast then
        match sem.waiting i, sem.waiting j with
        | some left, some right =>
            let sorted := if kern.priority left < kern.priority right then sem.swap i j else sem
            some (kern.setSem id sorted, [semAct (.sortInner id i (j + 1))])
        | _, _ => none
      else some (kern, [])
  | .placeLoop id i, _ =>
      if i < (kern.sem id).wlast then
        some (kern, [.acquire .ptable, semAct (.placeStore id i), .release .ptable,
          semAct (.placeLoop id (i + 1))])
      else some (kern, [])
  | .placeStore id i, _ =>
      match (kern.sem id).waiting i with
      | none => some (kern, [])
      | some slot => some
          (kern.modify slot fun proc =>
            { proc with scheduleStatus := { proc.scheduleStatus with place := i } }, [])
  | .printRow index, _ =>
      if bound : index < NPROC then
        if (kern.proc ⟨index, bound⟩).state = .unused then
          some (kern, [semAct (.printRow (index + 1))])
        else
          -- six calls of `cprintf` and those that `printspaces` makes
          some (kern, (List.replicate (6 + choice) cprintf).flatten ++
            [semAct (.printRow (index + 1))])
      else some (kern, [])
  | .releaseBody id, _ =>
      let sem := { kern.sem id with value := (kern.sem id).value + 1 }
      if sem.value ≤ 0 then
        some (kern.setSem id sem,
          [.acquire .ptable, semAct (.wakeupproc (sem.waiting sem.wfirst)), .release .ptable,
            semAct (.dequeue id)])
      else some (kern.setSem id sem, [])
  | .wakeupproc target, _ =>
      match target with
      | none => some (kern, [])
      | some slot => some (kern.setState slot .runnable, [])
  | .dequeue id, _ => some (kern.setSem id (kern.sem id).dequeue, [])
  | .keys doprocdump, _ =>
      let input := kern.sub.input
      match choice with
      | 0 => some (kern, .release .cons :: if doprocdump then [semAct .procdump] else [])
      | 1 => some (kern, [semAct (.keys true)])
      | key + 2 =>
          -- an odd key ends the line: newline, ^D, or the buffer is full
          if key % 2 = 0 then
            some (kern.setInput { input with e := key / 2 }, [semAct (.keys doprocdump)])
          else
            some (kern.setInput { input with e := key / 2, w := key / 2 },
              wakeup .input ++ [semAct (.keys doprocdump)])
  | .procdump, _ => some (kern, (List.replicate choice cprintf).flatten)
  | .readLoop, .proc curproc =>
      let input := kern.sub.input
      if choice = 0 then some (kern, [.release .cons])
      else if input.r = input.w then
        if (kern.proc curproc).killed then some (kern, [.release .cons])
        else some (kern, sleep .input .cons ++ [semAct .readLoop])
      else
        some (kern.setInput { input with r := input.r + 1 },
          if choice = 1 then [.release .cons] else [semAct .readLoop])
  | _, .scheduler _ => none

inductive SemCases {ncpu : ℕ} (choice : ℕ) (kern : Kern SemState) :
    SemAct → Thread ncpu → Kern SemState × SemCode → Prop
  | pass {id : SemId} {curproc : Slot} (positive : 0 ≤ (kern.sem id).value - 1) :
      SemCases choice kern (.acquireBody id) (.proc curproc)
        (kern.setSem id { kern.sem id with value := (kern.sem id).value - 1 }, [])
  | block {id : SemId} {curproc : Slot} (negative : (kern.sem id).value - 1 < 0) :
      SemCases choice kern (.acquireBody id) (.proc curproc)
        (kern.setSem id
          (Sem.enqueue { kern.sem id with value := (kern.sem id).value - 1 } curproc),
          blockCode id (kern.sem id).wfirst)
  | sortRow {id : SemId} {i : ℕ} {thread : Thread ncpu} (more : i + 1 < (kern.sem id).wlast) :
      SemCases choice kern (.sortOuter id i) thread
        (kern, [semAct (.sortInner id i (i + 1)), semAct (.sortOuter id (i + 1))])
  | sorted {id : SemId} {i : ℕ} {thread : Thread ncpu} (done : (kern.sem id).wlast ≤ i + 1) :
      SemCases choice kern (.sortOuter id i) thread (kern, [])
  | compare {id : SemId} {i j : ℕ} {left right : Slot} {thread : Thread ncpu}
      (inside : j < (kern.sem id).wlast) (leftIs : (kern.sem id).waiting i = some left)
      (rightIs : (kern.sem id).waiting j = some right) :
      SemCases choice kern (.sortInner id i j) thread
        (kern.setSem id
          (if kern.priority left < kern.priority right then (kern.sem id).swap i j
            else kern.sem id),
          [semAct (.sortInner id i (j + 1))])
  | rowDone {id : SemId} {i j : ℕ} {thread : Thread ncpu} (done : (kern.sem id).wlast ≤ j) :
      SemCases choice kern (.sortInner id i j) thread (kern, [])
  | placeNext {id : SemId} {i : ℕ} {thread : Thread ncpu} (more : i < (kern.sem id).wlast) :
      SemCases choice kern (.placeLoop id i) thread
        (kern, [.acquire .ptable, semAct (.placeStore id i), .release .ptable,
          semAct (.placeLoop id (i + 1))])
  | placed {id : SemId} {i : ℕ} {thread : Thread ncpu} (done : (kern.sem id).wlast ≤ i) :
      SemCases choice kern (.placeLoop id i) thread (kern, [])
  | placeNull {id : SemId} {i : ℕ} {thread : Thread ncpu}
      (null : (kern.sem id).waiting i = none) :
      SemCases choice kern (.placeStore id i) thread (kern, [])
  | placeStore {id : SemId} {i : ℕ} {slot : Slot} {thread : Thread ncpu}
      (entry : (kern.sem id).waiting i = some slot) :
      SemCases choice kern (.placeStore id i) thread
        (kern.modify slot fun proc =>
          { proc with scheduleStatus := { proc.scheduleStatus with place := i } }, [])
  | skipRow {index : ℕ} {thread : Thread ncpu} :
      SemCases choice kern (.printRow index) thread (kern, [semAct (.printRow (index + 1))])
  | printRow {index : ℕ} {thread : Thread ncpu} :
      SemCases choice kern (.printRow index) thread
        (kern, (List.replicate (6 + choice) cprintf).flatten ++ [semAct (.printRow (index + 1))])
  | printed {index : ℕ} {thread : Thread ncpu} :
      SemCases choice kern (.printRow index) thread (kern, [])
  | count {id : SemId} {thread : Thread ncpu} (positive : 0 < (kern.sem id).value + 1) :
      SemCases choice kern (.releaseBody id) thread
        (kern.setSem id { kern.sem id with value := (kern.sem id).value + 1 }, [])
  | grant {id : SemId} {thread : Thread ncpu} (waiters : (kern.sem id).value + 1 ≤ 0) :
      SemCases choice kern (.releaseBody id) thread
        (kern.setSem id { kern.sem id with value := (kern.sem id).value + 1 },
          [.acquire .ptable,
            semAct (.wakeupproc ((kern.sem id).waiting (kern.sem id).wfirst)),
            .release .ptable, semAct (.dequeue id)])
  | wakeNull {thread : Thread ncpu} : SemCases choice kern (.wakeupproc none) thread (kern, [])
  | wake {slot : Slot} {thread : Thread ncpu} :
      SemCases choice kern (.wakeupproc (some slot)) thread (kern.setState slot .runnable, [])
  | dequeue {id : SemId} {thread : Thread ncpu} :
      SemCases choice kern (.dequeue id) thread (kern.setSem id (kern.sem id).dequeue, [])
  | keysDone {doprocdump : Bool} {thread : Thread ncpu} :
      SemCases choice kern (.keys doprocdump) thread
        (kern, .release .cons :: if doprocdump then [semAct .procdump] else [])
  | keysDump {doprocdump : Bool} {thread : Thread ncpu} :
      SemCases choice kern (.keys doprocdump) thread (kern, [semAct (.keys true)])
  | key {doprocdump : Bool} {input : Input} {thread : Thread ncpu} :
      SemCases choice kern (.keys doprocdump) thread
        (kern.setInput input, [semAct (.keys doprocdump)])
  | line {doprocdump : Bool} {input : Input} {thread : Thread ncpu}
      (ends : ∃ key, choice = key + 2 ∧ key % 2 = 1) :
      SemCases choice kern (.keys doprocdump) thread
        (kern.setInput input, wakeup .input ++ [semAct (.keys doprocdump)])
  | procdump {thread : Thread ncpu} :
      SemCases choice kern .procdump thread (kern, (List.replicate choice cprintf).flatten)
  | readDone {curproc : Slot} {input : Input} :
      SemCases choice kern .readLoop (.proc curproc) (kern.setInput input, [.release .cons])
  | readMore {curproc : Slot} {input : Input} :
      SemCases choice kern .readLoop (.proc curproc) (kern.setInput input, [semAct .readLoop])
  | readSleep {curproc : Slot} (asked : choice ≠ 0)
      (empty : kern.sub.input.r = kern.sub.input.w)
      (alive : (kern.proc curproc).killed = false) :
      SemCases choice kern .readLoop (.proc curproc)
        (kern, sleep .input .cons ++ [semAct .readLoop])

theorem semExec_cases {ncpu : ℕ} {act : SemAct} {thread : Thread ncpu} {choice : ℕ}
    {kern : Kern SemState} {result : Kern SemState × SemCode}
    (executed : semExec act thread choice kern = some result) :
    SemCases choice kern act thread result := by
  cases act with
  | acquireBody id =>
      cases thread with
      | scheduler own => simp [semExec] at executed
      | proc curproc =>
          simp only [semExec] at executed
          split at executed <;> cases executed
          · rename_i negative
            exact .block negative
          · rename_i positive
            exact .pass (not_lt.mp positive)
  | sortOuter id i =>
      simp only [semExec] at executed
      split at executed <;> cases executed
      · rename_i more
        exact .sortRow more
      · rename_i done
        exact .sorted (not_lt.mp done)
  | sortInner id i j =>
      simp only [semExec] at executed
      split at executed
      · rename_i inside
        split at executed
        · rename_i left right leftIs rightIs
          cases executed
          exact .compare inside leftIs rightIs
        · contradiction
      · rename_i done
        cases executed
        exact .rowDone (not_lt.mp done)
  | placeLoop id i =>
      simp only [semExec] at executed
      split at executed <;> cases executed
      · rename_i more
        exact .placeNext more
      · rename_i done
        exact .placed (not_lt.mp done)
  | placeStore id i =>
      simp only [semExec] at executed
      split at executed <;> cases executed
      · rename_i null
        exact .placeNull null
      · rename_i entry
        exact .placeStore entry
  | printRow index =>
      simp only [semExec] at executed
      repeat' split at executed
      all_goals cases executed
      · exact .skipRow
      · exact .printRow
      · exact .printed
  | releaseBody id =>
      simp only [semExec] at executed
      split at executed <;> cases executed
      · rename_i waiters
        exact .grant waiters
      · rename_i positive
        exact .count (not_le.mp positive)
  | wakeupproc target =>
      cases target <;> cases executed
      · exact .wakeNull
      · exact .wake
  | dequeue id =>
      cases executed
      exact .dequeue
  | keys doprocdump =>
      simp only [semExec] at executed
      split at executed
      · cases executed
        exact .keysDone
      · cases executed
        exact .keysDump
      · rename_i key
        split at executed <;> cases executed
        · exact .key
        · rename_i odd
          exact .line ⟨key, rfl, by omega⟩
  | procdump =>
      cases executed
      exact .procdump
  | readLoop =>
      cases thread with
      | scheduler own => simp [semExec] at executed
      | proc curproc =>
          simp only [semExec] at executed
          repeat' split at executed
          all_goals cases executed
          · exact .readDone
          · exact .readDone
          · rename_i asked empty alive
            exact .readSleep asked empty (by simpa using alive)
          · exact .readDone
          · exact .readMore

inductive SemEntry where
  | semAcquire (sem : SemId)
  | semRelease (sem : SemId)
  | consoleread
  | consolewrite
  | cprintf
  deriving DecidableEq

/-- Semaphores and console as a subsystem of the kernel. The only interrupt is the keyboard. -/
def semaphores : Subsystem SemState SemAct SemEntry Unit where
  exec := semExec
  entry := fun entry =>
    match entry with
    | .semAcquire sem => semaphoreAcquire sem
    | .semRelease sem => semaphoreRelease sem
    | .consoleread => consoleread
    | .consolewrite => consolewrite
    | .cprintf => cprintf
  intr := fun _ => consoleintr

abbrev SemMachine (ncpu : ℕ) :=
  State (Fin ncpu) (Thread ncpu) Lock (Act SemAct) (Kern SemState)

abbrev SemLabel (ncpu : ℕ) := Label (Fin ncpu) (Entry SemEntry) (Intr Unit)

/-- One step of the kernel with semaphores and console. -/
def semStep {ncpu : ℕ} : SemMachine ncpu → SemLabel ncpu → Option (SemMachine ncpu) :=
  (kernel semaphores ncpu).step

/-- After boot; each semaphore has been initialised with its value. -/
def semBoot (ncpu : ℕ) (freePages : List ℕ) (values : SemId → ℤ) : SemMachine ncpu :=
  boot ncpu freePages { sems := fun sem => .init (values sem), input := ⟨0, 0, 0⟩ }

end Xv6
