import Xv6.Kernel.Waiting
import Xv6.Lib.Window

/-!
# Pipes

`pipe.c`, one pipe and any number of processes that call `pipewrite`, `piperead` and
`pipeclose`. What happens between two operations on `p->lock` is one act: the stores and loads
of `p->data` are all made under this lock.
-/

namespace Xv6

open Threads Discipline

abbrev PIPESIZE : ℕ := 512

/-- `struct pipe`. The lock and the channels `&p->nread` and `&p->nwrite` are `Lock.pipe`,
`Chan.nread` and `Chan.nwrite`. -/
structure Pipe where
  data : ℕ → UInt8
  nread : ℕ
  nwrite : ℕ
  readopen : Bool
  writeopen : Bool

namespace Pipe

/-- The stores of `pipealloc`; the page comes with any contents. -/
def alloc (page : ℕ → UInt8) : Pipe where
  data := page
  nread := 0
  nwrite := 0
  readopen := true
  writeopen := true

def Full (pipe : Pipe) : Prop := pipe.nwrite = (pipe.nread + PIPESIZE) % 2 ^ 32

def Empty (pipe : Pipe) : Prop := pipe.nread = pipe.nwrite

instance (pipe : Pipe) : Decidable pipe.Full := inferInstanceAs (Decidable (_ = _))

instance (pipe : Pipe) : Decidable pipe.Empty := inferInstanceAs (Decidable (_ = _))

/-- `p->data[p->nwrite++ % PIPESIZE] = byte`. -/
def put (pipe : Pipe) (byte : UInt8) : Pipe :=
  { pipe with
    data := Function.update pipe.data (pipe.nwrite % PIPESIZE) byte
    nwrite := (pipe.nwrite + 1) % 2 ^ 32 }

def drop (pipe : Pipe) : Pipe := { pipe with nread := (pipe.nread + 1) % 2 ^ 32 }

/-- The byte `p->data[p->nread % PIPESIZE]`. -/
def front (pipe : Pipe) : UInt8 := pipe.data (pipe.nread % PIPESIZE)

/-- The loop of `pipewrite` until the pipe is full, with the number of bytes stored. -/
def store : Pipe → List UInt8 → Pipe × ℕ
  | pipe, [] => (pipe, 0)
  | pipe, byte :: bytes =>
      if pipe.Full then (pipe, 0)
      else
        let result := (pipe.put byte).store bytes
        (result.1, result.2 + 1)

/-- The second loop of `piperead`, with the bytes that it copies. -/
def fetch : Pipe → ℕ → Pipe × List UInt8
  | pipe, 0 => (pipe, [])
  | pipe, n + 1 =>
      if pipe.Empty then (pipe, [])
      else
        let result := pipe.drop.fetch n
        (result.1, pipe.front :: result.2)

end Pipe

/-- The acts: the loop of `pipewrite` with the bytes not yet stored, the loops of `piperead`, and
`pipeclose`. -/
inductive PipeAct where
  | write (bytes : List UInt8)
  | read (n : ℕ)
  | close (writable : Bool)
  deriving DecidableEq

/-- The calls. A number of bytes below one is the same as zero. -/
inductive PipeEntry where
  | pipewrite (bytes : List UInt8)
  | piperead (n : ℕ)
  | pipeclose (writable : Bool)
  deriving DecidableEq

abbrev PipeCode := Code Lock (Act PipeAct)

def pipeExec (act : PipeAct) (curproc : Slot) (kern : Kern Pipe) : Kern Pipe × PipeCode :=
  match act with
  | .write bytes =>
      let result := kern.sub.store bytes
      if result.2 = bytes.length then
        ({ kern with sub := result.1 }, wakeup .nread ++ [.release .pipe])
      else if result.1.readopen = false ∨ (kern.proc curproc).killed then
        ({ kern with sub := result.1 }, [.release .pipe])
      else
        ({ kern with sub := result.1 }, wakeup .nread ++ (sleep .nwrite .pipe ++
          [.act (.sub (.write (bytes.drop result.2)))]))
  | .read n =>
      if kern.sub.Empty ∧ kern.sub.writeopen = true then
        if (kern.proc curproc).killed then (kern, [.release .pipe])
        else (kern, sleep .nread .pipe ++ [.act (.sub (.read n))])
      else ({ kern with sub := (kern.sub.fetch n).1 }, wakeup .nwrite ++ [.release .pipe])
  | .close writable =>
      if writable then
        ({ kern with sub := { kern.sub with writeopen := false } },
          wakeup .nread ++ [.release .pipe])
      else
        ({ kern with sub := { kern.sub with readopen := false } },
          wakeup .nwrite ++ [.release .pipe])

def pipes : Subsystem Pipe PipeAct PipeEntry Empty where
  exec := fun act thread _ kern =>
    match thread with
    | .proc curproc => some (pipeExec act curproc kern)
    | .scheduler _ => none
  entry := fun entry =>
    match entry with
    | .pipewrite bytes => [.acquire .pipe, .act (.sub (.write bytes))]
    | .piperead n => [.acquire .pipe, .act (.sub (.read n))]
    | .pipeclose writable => [.acquire .pipe, .act (.sub (.close writable))]
  intr := fun intr => intr.elim

abbrev PipeMachine (ncpu : ℕ) := Machine Pipe PipeAct ncpu

abbrev PipeLabel (ncpu : ℕ) := Label (Fin ncpu) (Entry PipeEntry) (Intr Empty)

def pipeStep {ncpu : ℕ} : PipeMachine ncpu → PipeLabel ncpu → Option (PipeMachine ncpu) :=
  (kernel pipes ncpu).step

inductive PipeExecs (kern : Kern Pipe) (curproc : Slot) : PipeAct → Pipe → PipeCode → Prop
  | written {bytes : List UInt8} (all : (kern.sub.store bytes).2 = bytes.length) :
      PipeExecs kern curproc (.write bytes) (kern.sub.store bytes).1
        (wakeup .nread ++ [.release .pipe])
  | broken {bytes : List UInt8} (some : (kern.sub.store bytes).2 ≠ bytes.length)
      (refused : (kern.sub.store bytes).1.readopen = false ∨ (kern.proc curproc).killed) :
      PipeExecs kern curproc (.write bytes) (kern.sub.store bytes).1 [.release .pipe]
  | filled {bytes : List UInt8} (some : (kern.sub.store bytes).2 ≠ bytes.length)
      (isOpen : (kern.sub.store bytes).1.readopen = true) :
      PipeExecs kern curproc (.write bytes) (kern.sub.store bytes).1
        (wakeup .nread ++ (sleep .nwrite .pipe ++
          [.act (.sub (.write (bytes.drop (kern.sub.store bytes).2)))]))
  | killed {n : ℕ} (blocked : kern.sub.Empty ∧ kern.sub.writeopen = true) :
      PipeExecs kern curproc (.read n) kern.sub [.release .pipe]
  | wait {n : ℕ} (blocked : kern.sub.Empty ∧ kern.sub.writeopen = true) :
      PipeExecs kern curproc (.read n) kern.sub (sleep .nread .pipe ++ [.act (.sub (.read n))])
  | read {n : ℕ} (ready : ¬(kern.sub.Empty ∧ kern.sub.writeopen = true)) :
      PipeExecs kern curproc (.read n) (kern.sub.fetch n).1 (wakeup .nwrite ++ [.release .pipe])
  | closeWrite : PipeExecs kern curproc (.close true) { kern.sub with writeopen := false }
      (wakeup .nread ++ [.release .pipe])
  | closeRead : PipeExecs kern curproc (.close false) { kern.sub with readopen := false }
      (wakeup .nwrite ++ [.release .pipe])

section Exec

variable {ncpu : ℕ} {act : PipeAct} {thread : Thread ncpu} {choice : ℕ} {kern : Kern Pipe}
  {curproc : Slot} {result : Kern Pipe × PipeCode}

theorem pipeExecs_pipeExec :
    ∃ pipe code, pipeExec act curproc kern = ({ kern with sub := pipe }, code) ∧
      PipeExecs kern curproc act pipe code := by
  cases act with
  | write bytes =>
      simp only [pipeExec]
      split
      · rename_i all
        exact ⟨_, _, rfl, .written all⟩
      · rename_i some
        split
        · rename_i refused
          exact ⟨_, _, rfl, .broken some refused⟩
        · rename_i accepted
          simp only [not_or, Bool.not_eq_false] at accepted
          exact ⟨_, _, rfl, .filled some accepted.1⟩
  | read n =>
      simp only [pipeExec]
      split
      · rename_i blocked
        split
        · exact ⟨_, _, rfl, .killed blocked⟩
        · exact ⟨_, _, rfl, .wait blocked⟩
      · rename_i ready
        exact ⟨_, _, rfl, .read ready⟩
  | close writable =>
      cases writable with
      | true => exact ⟨_, _, rfl, .closeWrite⟩
      | false => exact ⟨_, _, rfl, .closeRead⟩

theorem pipes_exec (ran : pipes.exec act thread choice kern = some result) :
    ∃ curproc pipe code, thread = .proc curproc ∧ result = ({ kern with sub := pipe }, code) ∧
      pipeExec act curproc kern = result ∧ PipeExecs kern curproc act pipe code := by
  cases thread with
  | scheduler own => simp [pipes] at ran
  | proc curproc =>
      simp only [pipes, Option.some.injEq] at ran
      rcases @pipeExecs_pipeExec act kern curproc with ⟨pipe, code, resultIs, execs⟩
      exact ⟨curproc, pipe, code, rfl, ran.symm.trans resultIs, ran, execs⟩

end Exec

/-! ## Lock discipline -/

def pipeLocking : SubLocking PipeAct where
  needs := fun _ held => held = {.pipe}
  leaves := fun _ _ => ∅
  leaves_subset := by simp

theorem pipeLaws : SubLaws pipes pipeLocking where
  entry_runs := by
    intro entry
    cases entry <;> simp [pipes, Runs, discipline, Act.needs, Act.leaves, pipeLocking]
  intr_runs := fun intr => intr.elim
  exec_runs := by
    intro ncpu act thread choice kern result held needs ran
    obtain rfl : held = {.pipe} := needs
    rcases pipes_exec ran with ⟨curproc, pipe, code, _, rfl, _, execs⟩
    have released : (discipline pipeLocking).Runs {.pipe} [.release .pipe] ∅ := by
      simp [Runs]
    have again : ∀ act, (discipline pipeLocking).Runs {.pipe} [.act (.sub act)] ∅ := by
      simp [Runs, discipline, Act.needs, Act.leaves, pipeLocking]
    cases execs with
    | broken | killed => exact released
    | wait => exact runs_sleep.append (again _)
    | filled => exact (runs_wakeup (by simp)).append (runs_sleep.append (again _))
    | written | read | closeWrite | closeRead => exact (runs_wakeup (by simp)).append released
  entry_forks := by
    intro entry
    cases entry <;> simp [pipes, forkSites, forkSite]
  intr_forks := fun intr => intr.elim
  exec_forks := by
    intro ncpu act thread choice kern result ran
    rcases pipes_exec ran with ⟨curproc, pipe, code, _, rfl, _, execs⟩
    cases execs <;> simp [forkSites, forkSite, wakeup]

theorem pipePlain : SubPlain pipes where
  entry := by
    intro entry
    cases entry <;> simp [pipes, Plain]
  intr := fun intr => intr.elim
  exec := by
    intro ncpu act thread choice kern result ran
    rcases pipes_exec ran with ⟨curproc, pipe, code, _, rfl, _, execs⟩
    refine ⟨rfl, rfl, rfl, ?_⟩
    cases execs with
    | filled =>
        simp only [List.forall_mem_append]
        exact ⟨by simp [Plain, wakeup], plain_sleep (by simp), by simp [Plain]⟩
    | wait =>
        simp only [List.forall_mem_append]
        exact ⟨plain_sleep (by simp), by simp [Plain]⟩
    | _ => simp [Plain, wakeup]

end Xv6
