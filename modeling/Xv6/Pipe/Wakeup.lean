import Xv6.Pipe.Fifo

/-!
# Nobody is stuck at a pipe

Readers wait for bytes or for the end of the writers, writers wait for room or for the end of
the readers. A `pipewrite` that fills an empty pipe and gives up then, because its process has
been killed or because there is no reader any more, leaves without waking the readers; as long
as that does not happen, no process sleeps at a pipe without a reason.
-/

namespace Xv6

open Threads Transition

/-- Readers wait while the pipe is empty and somebody can write. -/
def readRule : WaitRule Pipe where
  chan := .nread
  lk := .pipe
  blocked := fun pipe => pipe.Empty ∧ pipe.writeopen = true

/-- Writers wait while the pipe is full and somebody can read. -/
def writeRule : WaitRule Pipe where
  chan := .nwrite
  lk := .pipe
  blocked := fun pipe => pipe.Full ∧ pipe.readopen = true

theorem readKeeps : readRule.Keeps pipes where
  notCore := not_false
  entry := by
    intro entry
    cases entry <;> simp [pipes]
  intr := fun intr => intr.elim

theorem writeKeeps : writeRule.Keeps pipes where
  notCore := not_false
  entry := by
    intro entry
    cases entry <;> simp [pipes]
  intr := fun intr => intr.elim

theorem atWakeup_filled {act : PipeAct} : readRule.AtWakeup
    (wakeup .nread ++ (sleep .nwrite .pipe ++ [.act (.sub act)])) :=
  @WaitRule.AtWakeup.taking _ _ readRule [.release .ptable, .acquire .ptable]
    [.act (.sleepSched .nwrite), .act .clearChan, .release .ptable, .acquire .pipe,
      .act (.sub act)] (by simp [readRule]) (by simp [readRule])

theorem readWakes : readRule.WakesUnderLock pipes where
  different := by simp [readRule]
  notCore := not_false
  entry := by
    intro entry
    cases entry <;> simp [pipes]
  intr := fun intr => intr.elim
  exec := by
    intro ncpu act thread choice kern result ran mem
    rcases pipes_exec ran with ⟨curproc, pipe, code, _, rfl, _, execs⟩
    cases execs with
    | written | closeWrite => exact WaitRule.atWakeup_release
    | filled => exact atWakeup_filled
    | wait => simp [sleep, readRule] at mem
    | broken | killed | read | closeRead => simp [wakeup, readRule] at mem

theorem writeWakes : writeRule.WakesUnderLock pipes where
  different := by simp [writeRule]
  notCore := not_false
  entry := by
    intro entry
    cases entry <;> simp [pipes]
  intr := fun intr => intr.elim
  exec := by
    intro ncpu act thread choice kern result ran mem
    rcases pipes_exec ran with ⟨curproc, pipe, code, _, rfl, _, execs⟩
    cases execs with
    | read | closeRead => exact WaitRule.atWakeup_release
    | filled | wait => simp [sleep, wakeup, writeRule] at mem
    | written | broken | killed | closeWrite => simp [wakeup, writeRule] at mem

section Step

variable {ncpu : ℕ} {state next : PipeMachine ncpu} {cpu : Fin ncpu} {label : PipeLabel ncpu}
  {rest : PipeCode} {act : PipeAct} {choice : ℕ}
  {trace : Trace (PipeMachine ncpu) (PipeLabel ncpu)}

/-- The step is a `pipewrite` that fills the empty pipe and then gives up. -/
def fillsAndLeaves (state : PipeMachine ncpu) : PipeLabel ncpu → Bool
  | .run cpu _ =>
      match state.cur cpu, state.running cpu with
      | .proc slot, .act (.sub (.write bytes)) :: _ =>
          state.shared.sub.Empty ∧ PIPESIZE < bytes.length ∧
            (state.shared.sub.readopen = false ∨ (state.shared.proc slot).killed)
      | _, _ => false
  | _ => false

theorem owner_of_pipeAct {allowed : Lock → Lock → Prop} (core : CoreInv pipeLocking allowed state)
    (head : state.running cpu = .act (.sub act) :: rest) : state.owner .pipe = some cpu := by
  rcases core.tracked.current cpu with ⟨held, holds, obeys⟩
  rw [head] at obeys
  have heldIs : held = {.pipe} := obeys.runs.1
  apply (holds.mem _).mp
  simp [heldIs]

/-- A loop that starts at an empty pipe and does not store all bytes has had a bufferful of them,
and more. -/
theorem Pipe.Books.length_of_empty {pipe : Pipe} {stored bytes : List UInt8} {delivered : ℕ}
    (books : pipe.Books stored delivered) (empty : pipe.Empty)
    (some : (pipe.store bytes).2 ≠ bytes.length) : PIPESIZE < bytes.length := by
  rcases books.store bytes with ⟨after, full⟩
  have isFull := after.full_iff.mp (full some)
  have isEmpty := books.empty_iff.mp empty
  have atMost := pipe.store_le bytes
  simp only [List.length_append, List.length_take] at isFull
  omega

theorem Pipe.store_full {pipe : Pipe} {bytes : List UInt8} (full : pipe.Full) :
    (pipe.store bytes).1 = pipe := by
  cases bytes with
  | nil => rfl
  | cons byte bytes => simp [Pipe.store, full]

theorem readRule_step {result : Kern Pipe × PipeCode} (inv : FifoInv trace state)
    (good : fillsAndLeaves state (.run cpu choice) = false)
    (head : state.running cpu = .act (.sub act) :: rest)
    (ran : pipes.exec act (state.cur cpu) choice state.shared = some result) :
    readRule.Step state cpu rest result := by
  rcases pipes_exec ran with ⟨curproc, pipe, code, onCpu, rfl, _, execs⟩
  have owned := owner_of_pipeAct inv.life.core head
  refine ⟨?_, ?_⟩
  · intro mem
    cases execs with
    | wait blocked => exact ⟨WaitRule.atSleep_sleep (by simp), blocked⟩
    | filled => simp [readRule, wakeup, sleep] at mem
    | _ => simp [readRule, wakeup] at mem
  · intro blocked
    cases execs with
    | killed | wait => exact Or.inl blocked
    | closeRead => exact Or.inl blocked
    | read ready => exact absurd blocked ready
    | written | filled | closeWrite => exact Or.inr ⟨owned, by simp [wakeup, readRule]⟩
    | @broken bytes some refused =>
        exfalso
        rw [(state.shared.sub.store_readopen bytes).1] at refused
        have long := inv.books.length_of_empty blocked.1 some
        simp only [fillsAndLeaves, onCpu, head, decide_eq_false_iff_not] at good
        exact good ⟨blocked.1, long, refused⟩

theorem writeRule_step {result : Kern Pipe × PipeCode} (inv : FifoInv trace state)
    (head : state.running cpu = .act (.sub act) :: rest)
    (ran : pipes.exec act (state.cur cpu) choice state.shared = some result) :
    writeRule.Step state cpu rest result := by
  rcases pipes_exec ran with ⟨curproc, pipe, code, _, rfl, _, execs⟩
  have owned := owner_of_pipeAct inv.life.core head
  refine ⟨?_, ?_⟩
  · intro mem
    cases execs with
    | @filled bytes some isOpen =>
        have different : writeRule.lk ≠ .ptable := by simp [writeRule]
        refine ⟨⟨true, WaitRule.AtSleep.wakeup_append ?_⟩, ?_⟩
        · exact WaitRule.atSleep_sleep_of_ne different (by simp)
        · exact ⟨(inv.books.store bytes).2 some, isOpen⟩
    | wait => simp [writeRule, sleep] at mem
    | _ => simp [writeRule, wakeup] at mem
  · intro blocked
    cases execs with
    | written | broken | filled =>
        left
        dsimp only
        rw [Pipe.store_full blocked.1]
        exact blocked
    | killed | wait | closeWrite => exact Or.inl blocked
    | read | closeRead => exact Or.inr ⟨owned, by simp [wakeup, writeRule]⟩

/-- The invariants of a run without such writers. -/
structure PipeInv (trace : Trace (PipeMachine ncpu) (PipeLabel ncpu)) (state : PipeMachine ncpu) :
    Prop where
  fifo : FifoInv trace state
  readers : readRule.NoneLost state
  writers : writeRule.NoneLost state
  readersUnder : readRule.UnderLock state
  writersUnder : writeRule.UnderLock state

theorem PipeInv.step (inv : PipeInv trace state) (good : fillsAndLeaves state label = false)
    (stepped : pipeStep state label = some next) : PipeInv ((state, label) :: trace) next where
  fifo := inv.fifo.step stepped
  readers := by
    apply inv.readers.step readKeeps pipePlain inv.fifo.life stepped
    rintro cpu choice act rest result rfl head ran
    exact readRule_step inv.fifo good head ran
  writers := by
    apply inv.writers.step writeKeeps pipePlain inv.fifo.life stepped
    rintro cpu choice act rest result rfl head ran
    exact writeRule_step inv.fifo head ran
  readersUnder := inv.readersUnder.step readWakes pipePlain inv.fifo.life.core stepped
  writersUnder := inv.writersUnder.step writeWakes pipePlain inv.fifo.life.core stepped

theorem pipeInv_of_run {freePages : List ℕ} {page : ℕ → UInt8}
    (run : Run pipeStep (boot ncpu freePages (.alloc page)) trace state)
    (good : trace.All fun before label => fillsAndLeaves before label = false) :
    PipeInv trace state := by
  refine Run.invariant PipeInv ⟨fifoInv_of_run .refl, WaitRule.NoneLost.noneLost_boot,
    WaitRule.NoneLost.noneLost_boot, WaitRule.underLock_boot, WaitRule.underLock_boot⟩ ?_ run good
  intro trace state label next inv _ goodStep stepped
  exact inv.step goodStep stepped

end Step

/-- With `p->lock` free, readers sleep at an empty pipe with a writer, and writers at a full one
with a reader. -/
theorem sleeper_at_pipe_blocked {ncpu : ℕ} {freePages : List ℕ} {page : ℕ → UInt8}
    {trace : Trace (PipeMachine ncpu) (PipeLabel ncpu)} {state : PipeMachine ncpu}
    (run : Run pipeStep (boot ncpu freePages (.alloc page)) trace state)
    (good : trace.All fun before label => fillsAndLeaves before label = false)
    (free : state.owner .pipe = none) (slot : Slot) :
    (state.shared.AsleepOn slot .nread →
      state.shared.sub.Empty ∧ state.shared.sub.writeopen = true) ∧
    (state.shared.AsleepOn slot .nwrite →
      state.shared.sub.Full ∧ state.shared.sub.readopen = true) := by
  have inv := pipeInv_of_run run good
  have core := inv.fifo.life.core
  refine ⟨?_, ?_⟩
  · intro asleep
    apply (inv.readers.late slot (Or.inl asleep)).resolve_right
    exact inv.readersUnder.not_pending core readWakes.different free
  · intro asleep
    apply (inv.writers.late slot (Or.inl asleep)).resolve_right
    exact inv.writersUnder.not_pending core writeWakes.different free

/-- Init waits at the empty pipe; its child fills it and waits as well. -/
def waitingWriter : List (PipeLabel 1) :=
  [dispatch 0 0, go 0 1, call 0 .fork 15, call 0 (.sub (.piperead 1)) 5, go 0 1, dispatch 0 1,
    go 0 1, call 0 (.sub (.pipewrite (List.replicate 513 0))) 8, go 0 1].flatten

theorem writer_sleeps_at_full_pipe : ∃ trace state,
    Run pipeStep (boot 1 [1] (.alloc fun _ => 0)) trace state ∧ state.owner .pipe = none ∧
      state.shared.AsleepOn 1 .nwrite ∧ state.shared.sub.Full ∧
      state.shared.sub.readopen = true := by
  obtain ⟨trace, state, run, good, free, asleep⟩ :
      ∃ trace state, Run pipeStep (boot 1 [1] (.alloc fun _ => 0)) trace state ∧
      Trace.All (fun state label => fillsAndLeaves state label = false) trace ∧
      state.owner .pipe = none ∧ state.shared.AsleepOn 1 .nwrite :=
    exists_run waitingWriter (by decide +kernel)
  have full := (sleeper_at_pipe_blocked run good free 1).2 asleep
  exact ⟨trace, state, run, free, asleep, full.1, full.2⟩

/-- A child of init waits at the empty pipe; another one writes more than the pipe holds, and init kills it
when it has just begun to. -/
def killedWriter : List (PipeLabel 1) :=
  [dispatch 0 0, go 0 1, call 0 .fork 15, call 0 .fork 15, preempt 0, dispatch 0 1, go 0 1,
    call 0 (.sub (.piperead 1)) 5, go 0 1, dispatch 0 2, go 0 1,
    call 0 (.sub (.pipewrite (List.replicate 513 0))) 0, preempt 0, dispatch 0 0, go 0 2, call 0 (.kill 3) 3,
    preempt 0, dispatch 0 2, go 0 5].flatten

/-- The writer has returned, and the reader sleeps at a pipe with bytes in it. -/
theorem reader_stuck_at_full_pipe : ∃ trace state,
    Run pipeStep (boot 1 [1, 2] (.alloc fun _ => 0)) trace state ∧ state.owner .pipe = none ∧
      state.running 0 = [] ∧ state.shared.AsleepOn 1 .nread ∧ ¬state.shared.sub.Empty :=
  exists_run killedWriter (by decide +kernel)

end Xv6
