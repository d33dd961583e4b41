import Xv6.Kernel.Projection
import Xv6.Lib.Run
import Xv6.Pipe.Model

/-!
# A pipe is a queue

Readers get the bytes that writers have stored, in the order in which they were stored. The
counters of the pipe are those of the two sequences of bytes modulo `2 ^ 32`, and the buffer
holds what has been stored and not been read.
-/

namespace Xv6

open Threads Transition

/-- The pipe between the bytes stored and the bytes delivered so far. -/
structure Pipe.Books (pipe : Pipe) (stored : List UInt8) (delivered : ℕ) : Prop where
  window : Window.Holds PIPESIZE pipe.data delivered stored
  nread : pipe.nread = delivered % 2 ^ 32
  nwrite : pipe.nwrite = stored.length % 2 ^ 32

namespace Pipe.Books

variable {pipe : Pipe} {stored : List UInt8} {delivered : ℕ}

section

variable (books : pipe.Books stored delivered)

include books

theorem full_iff : pipe.Full ↔ stored.length = delivered + PIPESIZE := by
  have low := books.window.low_le
  have fits := books.window.fits
  rw [Pipe.Full, books.nread, books.nwrite]
  simp only [PIPESIZE] at fits ⊢
  omega

theorem empty_iff : pipe.Empty ↔ stored.length = delivered := by
  have low := books.window.low_le
  have fits := books.window.fits
  rw [Pipe.Empty, books.nread, books.nwrite]
  simp only [PIPESIZE] at fits
  omega

theorem put (room : ¬pipe.Full) (byte : UInt8) :
    (pipe.put byte).Books (stored ++ [byte]) delivered where
  window := by
    have fits := books.window.fits
    have notFull : stored.length ≠ delivered + PIPESIZE := fun full => room (books.full_iff.mpr full)
    have index : pipe.nwrite % PIPESIZE = stored.length % PIPESIZE := by
      rw [books.nwrite]
      simp only [PIPESIZE]
      omega
    rw [Pipe.put, index]
    exact books.window.push (lt_of_le_of_ne fits notFull)
  nread := books.nread
  nwrite := by
    simp only [Pipe.put, books.nwrite, List.length_append, List.length_singleton]
    omega

theorem drop (some : ¬pipe.Empty) : pipe.drop.Books stored (delivered + 1) ∧
      stored.take (delivered + 1) = stored.take delivered ++ [pipe.front] := by
  have inside : delivered < stored.length := by
    apply lt_of_le_of_ne books.window.low_le
    exact fun same => some (books.empty_iff.mpr same.symm)
  have index : pipe.nread % PIPESIZE = delivered % PIPESIZE := by
    rw [books.nread]
    simp only [PIPESIZE]
    omega
  refine ⟨⟨books.window.advance inside, ?_, books.nwrite⟩, ?_⟩
  · simp only [Pipe.drop, books.nread]
    omega
  · rw [Pipe.front, index]
    exact books.window.take_succ inside

/-- The loop of `pipewrite` stores a first part of its bytes; if it is not all of them, the pipe
is full. -/
theorem store (bytes : List UInt8) :
    (pipe.store bytes).1.Books (stored ++ bytes.take (pipe.store bytes).2) delivered ∧
      ((pipe.store bytes).2 ≠ bytes.length → (pipe.store bytes).1.Full) := by
  induction bytes generalizing pipe stored with
  | nil => simpa [Pipe.store] using books
  | cons byte bytes ih =>
      simp only [Pipe.store]
      split
      · rename_i full
        simpa [full] using books
      · rename_i room
        rcases ih (books.put room byte) with ⟨after, full⟩
        refine ⟨?_, ?_⟩
        · simpa using after
        · intro some
          apply full
          simpa using some

theorem fetch (n : ℕ) : (pipe.fetch n).1.Books stored (delivered + (pipe.fetch n).2.length) ∧
      stored.take (delivered + (pipe.fetch n).2.length) =
        stored.take delivered ++ (pipe.fetch n).2 := by
  induction n generalizing pipe delivered with
  | zero => simpa [Pipe.fetch] using books
  | succ n ih =>
      simp only [Pipe.fetch]
      split
      · simpa using books
      · rename_i some
        rcases books.drop some with ⟨dropped, moved⟩
        rcases ih dropped with ⟨after, copied⟩
        have length : delivered + (pipe.front :: (pipe.drop.fetch n).2).length =
            delivered + 1 + (pipe.drop.fetch n).2.length := by
          simp only [List.length_cons]
          omega
        refine ⟨?_, ?_⟩
        · rw [length]
          exact after
        · rw [length, copied, moved]
          simp

end

end Pipe.Books

theorem Pipe.store_le (pipe : Pipe) (bytes : List UInt8) :
    (pipe.store bytes).2 ≤ bytes.length := by
  induction bytes generalizing pipe with
  | nil => exact le_refl 0
  | cons byte bytes ih =>
      simp only [Pipe.store]
      split
      · exact Nat.zero_le _
      · exact Nat.succ_le_succ (ih (pipe.put byte))

theorem Pipe.store_readopen (pipe : Pipe) (bytes : List UInt8) :
    (pipe.store bytes).1.readopen = pipe.readopen ∧
      (pipe.store bytes).1.writeopen = pipe.writeopen ∧
      (pipe.store bytes).1.nread = pipe.nread := by
  induction bytes generalizing pipe with
  | nil => exact ⟨rfl, rfl, rfl⟩
  | cons byte bytes ih =>
      simp only [Pipe.store]
      split
      · exact ⟨rfl, rfl, rfl⟩
      · exact ih (pipe.put byte)

/-! ## Histories -/

section History

variable {ncpu : ℕ}

def PipeAct.stores (pipe : Pipe) : PipeAct → List UInt8
  | .write bytes => bytes.take (pipe.store bytes).2
  | .read _ | .close _ => []

/-- The bytes that an act hands to a reader. -/
def PipeAct.delivers (pipe : Pipe) : PipeAct → List UInt8
  | .read n => if pipe.Empty ∧ pipe.writeopen = true then [] else (pipe.fetch n).2
  | .write _ | .close _ => []

/-- What the act of a step does with bytes. -/
def ofStep (bytes : Pipe → PipeAct → List UInt8) (state : PipeMachine ncpu) :
    PipeLabel ncpu → List UInt8
  | .run cpu _ =>
      match state.running cpu with
      | .act (.sub act) :: _ => bytes state.shared.sub act
      | _ => []
  | _ => []

def stores : PipeMachine ncpu → PipeLabel ncpu → List UInt8 := ofStep PipeAct.stores

def delivers : PipeMachine ncpu → PipeLabel ncpu → List UInt8 := ofStep PipeAct.delivers

/-- All bytes stored in a run, in the order they were stored. -/
def storedBytes : Trace (PipeMachine ncpu) (PipeLabel ncpu) → List UInt8
  | [] => []
  | (state, label) :: trace => storedBytes trace ++ stores state label

/-- All bytes handed to readers, in the order they were removed. -/
def deliveredBytes : Trace (PipeMachine ncpu) (PipeLabel ncpu) → List UInt8
  | [] => []
  | (state, label) :: trace => deliveredBytes trace ++ delivers state label

/-- The last `pipewrite` that a process has called: its bytes, and those it has stored. -/
def written : Trace (PipeMachine ncpu) (PipeLabel ncpu) → Slot → Option (List UInt8 × List UInt8)
  | [], _ => none
  | (state, label) :: trace, slot =>
      match label with
      | .call cpu (.sub (.pipewrite bytes)) =>
          if state.cur cpu = .proc slot then some (bytes, []) else written trace slot
      | .run cpu choice =>
          if state.cur cpu = .proc slot then
            (written trace slot).map fun call => (call.1, call.2 ++ stores state (.run cpu choice))
          else written trace slot
      | _ => written trace slot

variable {state next : PipeMachine ncpu} {label : PipeLabel ncpu} {cpu : Fin ncpu} {choice : ℕ}
  {trace : Trace (PipeMachine ncpu) (PipeLabel ncpu)} {act : PipeAct} {rest : PipeCode}

theorem ofStep_noAct {bytes : Pipe → PipeAct → List UInt8} (noAct : NoSubAct state label) :
    ofStep bytes state label = [] := by
  cases label with
  | run cpu choice =>
      simp only [ofStep]
      split
      · rename_i head
        exact absurd head (noAct cpu choice _ _ rfl)
      · rfl
  | call | intr => rfl

theorem ofStep_act {bytes : Pipe → PipeAct → List UInt8}
    (head : state.running cpu = .act (.sub act) :: rest) :
    ofStep bytes state (.run cpu choice) = bytes state.shared.sub act := by
  simp [ofStep, head]

/-- What is in the pipe, and how far the call of each writer is. -/
structure FifoInv (trace : Trace (PipeMachine ncpu) (PipeLabel ncpu)) (state : PipeMachine ncpu) :
    Prop where
  life : LifeInv pipeLocking (fun _ _ => True) state
  books : state.shared.sub.Books (storedBytes trace) (deliveredBytes trace).length
  taken : deliveredBytes trace = (storedBytes trace).take (deliveredBytes trace).length
  single : ∀ thread, (subActs (state.code thread)).length ≤ 1
  calls : ∀ slot bytes, .write bytes ∈ subActs (state.code (.proc slot)) →
    ∃ done, written trace slot = some (done ++ bytes, done)

theorem FifoInv.books_exec {curproc : Slot} {pipe : Pipe} {code : PipeCode}
    (inv : FifoInv trace state) (head : state.running cpu = .act (.sub act) :: rest)
    (execs : PipeExecs state.shared curproc act pipe code) :
    pipe.Books (storedBytes ((state, .run cpu choice) :: trace))
        (deliveredBytes ((state, .run cpu choice) :: trace)).length ∧
      deliveredBytes ((state, .run cpu choice) :: trace) =
        (storedBytes ((state, .run cpu choice) :: trace)).take
          (deliveredBytes ((state, .run cpu choice) :: trace)).length := by
  have longer : ∀ {more : List UInt8}, deliveredBytes trace =
      (storedBytes trace ++ more).take (deliveredBytes trace).length := by
    intro more
    rw [List.take_append_of_le_length inv.books.window.low_le]
    exact inv.taken
  simp only [storedBytes, deliveredBytes, stores, delivers, ofStep_act head]
  cases execs with
  | written | broken | filled =>
      simp only [PipeAct.stores, PipeAct.delivers, List.append_nil]
      exact ⟨(inv.books.store _).1, longer⟩
  | killed blocked | wait blocked =>
      simp only [PipeAct.stores, PipeAct.delivers, if_pos blocked, List.append_nil]
      exact ⟨inv.books, inv.taken⟩
  | @read n ready =>
      rcases inv.books.fetch n with ⟨after, copied⟩
      simp only [PipeAct.stores, PipeAct.delivers, if_neg ready, List.append_nil,
        List.length_append]
      refine ⟨after, ?_⟩
      rw [copied, ← inv.taken]
  | closeWrite | closeRead =>
      simp only [PipeAct.stores, PipeAct.delivers, List.append_nil]
      exact ⟨⟨inv.books.window, inv.books.nread, inv.books.nwrite⟩, inv.taken⟩

theorem FifoInv.books_step (inv : FifoInv trace state)
    (moves : SubMoves pipes state next label) :
    next.shared.sub.Books (storedBytes ((state, label) :: trace))
        (deliveredBytes ((state, label) :: trace)).length ∧
      deliveredBytes ((state, label) :: trace) =
        (storedBytes ((state, label) :: trace)).take
          (deliveredBytes ((state, label) :: trace)).length := by
  cases moves with
  | still noAct shared keep =>
      simp only [storedBytes, deliveredBytes, stores, delivers, ofStep_noAct noAct, List.append_nil,
        shared]
      exact ⟨inv.books, inv.taken⟩
  | call _ shared | intr shared =>
      simp only [storedBytes, deliveredBytes, stores, delivers, ofStep, List.append_nil, shared]
      exact ⟨inv.books, inv.taken⟩
  | act head ran shared before after others =>
      rcases pipes_exec ran with ⟨curproc, pipe, code, _, rfl, _, execs⟩
      rw [shared]
      exact inv.books_exec head execs

/-- An act leaves its process at most one act, and only a full pipe leaves bytes to write. -/
theorem PipeExecs.subActs_le {kern : Kern Pipe} {curproc : Slot} {pipe : Pipe} {code : PipeCode}
    (execs : PipeExecs kern curproc act pipe code) :
    (subActs code).length ≤ 1 ∧ ∀ bytes, .write bytes ∈ subActs code →
      ∃ all, act = .write all ∧ bytes = all.drop (kern.sub.store all).2 := by
  cases execs <;> simp

theorem subActs_pipes_entry {entry : PipeEntry} :
    (subActs (pipes.entry entry)).length ≤ 1 ∧ ∀ bytes, .write bytes ∈ subActs (pipes.entry entry) →
      entry = .pipewrite bytes := by
  cases entry <;> simp [pipes]

theorem FifoInv.single_step (inv : FifoInv trace state) (moves : SubMoves pipes state next label)
    (thread : Thread ncpu) : (subActs (next.code thread)).length ≤ 1 := by
  cases moves with
  | still noAct shared keep =>
      rw [keep]
      exact inv.single thread
  | @call cpu slot entry onCpu shared idle started others =>
      by_cases same : thread = .proc slot
      · rw [same, started]
        exact subActs_pipes_entry.1
      · rw [others thread same]
        exact inv.single thread
  | @intr cpu intr shared started others => exact intr.elim
  | @act cpu choice act rest result head ran shared before after others =>
      by_cases same : thread = state.cur cpu
      · rcases pipes_exec ran with ⟨curproc, pipe, code, _, rfl, _, execs⟩
        have one := inv.single (state.cur cpu)
        have few := execs.subActs_le.1
        rw [before, List.length_cons] at one
        rw [same, after, List.length_append]
        dsimp only
        omega
      · rw [others thread same]
        exact inv.single thread

theorem written_cons {slot : Slot} (notCalled : ∀ cpu entry, label = .call cpu (.sub entry) →
      state.cur cpu ≠ .proc slot)
    (notRun : ∀ cpu choice, label = .run cpu choice → state.cur cpu = .proc slot →
      stores state label = []) :
    written ((state, label) :: trace) slot = written trace slot := by
  cases label with
  | run cpu choice =>
      simp only [written]
      split
      · rename_i current
        simp [notRun cpu choice rfl current]
      · rfl
  | call cpu entry =>
      cases entry with
      | sub entry =>
          cases entry with
          | pipewrite bytes =>
              simp only [written]
              exact if_neg (notCalled cpu _ rfl)
          | _ => rfl
      | _ => rfl
  | intr cpu intr => rfl

theorem FifoInv.calls_step {slot : Slot} {bytes : List UInt8} (inv : FifoInv trace state)
    (stepped : pipeStep state label = some next)
    (mem : .write bytes ∈ subActs (next.code (.proc slot))) :
    ∃ done, written ((state, label) :: trace) slot = some (done ++ bytes, done) := by
  cases inv.life.subMoves stepped with
  | still noAct shared keep =>
      rw [keep] at mem
      rw [written_cons]
      · exact inv.calls slot bytes mem
      · rintro cpu entry rfl onCpu
        -- who makes a call has no code, so nothing to write either
        have idle : state.running cpu = [] := by
          cases Program.step_cases stepped with
          | call idle entered => exact idle
        rw [State.running, onCpu] at idle
        simp [idle] at mem
      · exact fun _ _ _ _ => ofStep_noAct noAct
  | @call cpu caller entry onCpu shared idle started others =>
      by_cases same : slot = caller
      · subst same
        rw [started] at mem
        refine ⟨[], ?_⟩
        rw [subActs_pipes_entry.2 bytes mem]
        simp [written, onCpu]
      · rw [others (.proc slot) (by simpa using same)] at mem
        rw [written_cons]
        · exact inv.calls slot bytes mem
        · rintro other entry ⟨⟩
          rw [onCpu]
          simpa using Ne.symm same
        · rintro other choice ⟨⟩
  | @intr cpu intr shared started others => exact intr.elim
  | @act cpu choice act rest result head ran shared before after others =>
      by_cases same : state.cur cpu = .proc slot
      · rcases pipes_exec ran with ⟨curproc, pipe, code, _, rfl, _, execs⟩
        have one := inv.single (state.cur cpu)
        rw [before, List.length_cons] at one
        have noMore : subActs rest = [] := List.eq_nil_of_length_eq_zero (by omega)
        rw [← same, after, noMore, List.append_nil] at mem
        rcases execs.subActs_le.2 bytes mem with ⟨all, rfl, rfl⟩
        have had : .write all ∈ subActs (state.code (.proc slot)) := by
          rw [← same, before]
          exact List.mem_cons_self
        rcases inv.calls slot all had with ⟨done, call⟩
        refine ⟨done ++ all.take (state.shared.sub.store all).2, ?_⟩
        simp [written, same, call, stores, ofStep_act head, PipeAct.stores]
      · rw [others (.proc slot) (Ne.symm same)] at mem
        rw [written_cons]
        · exact inv.calls slot bytes mem
        · rintro other entry ⟨⟩
        · rintro other choice ⟨⟩ current
          exact absurd current same

theorem FifoInv.step (inv : FifoInv trace state) (stepped : pipeStep state label = some next) :
    FifoInv ((state, label) :: trace) next where
  life := inv.life.step pipeLaws pipePlain stepped nestsAllowed_of_all
  books := (inv.books_step (inv.life.subMoves stepped)).1
  taken := (inv.books_step (inv.life.subMoves stepped)).2
  single := inv.single_step (inv.life.subMoves stepped)
  calls := fun _ _ mem => inv.calls_step stepped mem

theorem fifoInv_of_run {freePages : List ℕ} {page : ℕ → UInt8}
    (run : Run pipeStep (boot ncpu freePages (.alloc page)) trace state) :
    FifoInv trace state := by
  refine Run.invariant FifoInv ⟨lifeInv_boot, ⟨.nil, rfl, rfl⟩, rfl, ?_, ?_⟩ ?_ run
    (Trace.all_true trace)
  · intro thread
    simp [subActs_boot]
  · intro slot bytes mem
    simp [subActs_boot] at mem
  · intro trace state label next inv _ _ stepped
    exact inv.step stepped

end History

/-- Readers get a first part of what has been stored, at most a buffer behind, and a `pipewrite`
that ends with all its bytes written has stored them all, in order. -/
theorem pipe_fifo {ncpu : ℕ} {freePages : List ℕ} {page : ℕ → UInt8}
    {trace : Trace (PipeMachine ncpu) (PipeLabel ncpu)} {state : PipeMachine ncpu}
    (run : Run pipeStep (boot ncpu freePages (.alloc page)) trace state) :
    deliveredBytes trace <+: storedBytes trace ∧
    (storedBytes trace).length ≤ (deliveredBytes trace).length + PIPESIZE ∧
    ∀ cpu choice slot bytes rest, state.cur cpu = .proc slot →
      state.running cpu = .act (.sub (.write bytes)) :: rest →
      (state.shared.sub.store bytes).2 = bytes.length →
      ∃ all, written ((state, .run cpu choice) :: trace) slot = some (all, all) := by
  have inv := fifoInv_of_run run
  refine ⟨?_, inv.books.window.fits, ?_⟩
  · rw [inv.taken]
    exact List.take_prefix _ _
  · intro cpu choice slot bytes rest onCpu head finished
    have mem : .write bytes ∈ subActs (state.code (.proc slot)) := by
      rw [← onCpu, ← State.running, head]
      exact List.mem_cons_self
    rcases inv.calls slot bytes mem with ⟨done, call⟩
    refine ⟨done ++ bytes, ?_⟩
    simp [written, onCpu, call, stores, ofStep_act head, PipeAct.stores, finished]

/-- Init writes three bytes, reads two of them, and is about to store two more. -/
def threeWrittenTwoRead : List (PipeLabel 1) :=
  [dispatch 0 0, go 0 1, call 0 (.sub (.pipewrite [1, 2, 3])) 6, call 0 (.sub (.piperead 2)) 6,
    call 0 (.sub (.pipewrite [4, 5])) 1].flatten

theorem two_bytes_read_in_order : ∃ trace state,
    Run pipeStep (boot 1 [1] (.alloc fun _ => 0)) trace state ∧ storedBytes trace = [1, 2, 3] ∧
      deliveredBytes trace = [1, 2] ∧ deliveredBytes trace <+: storedBytes trace ∧
      ∃ all, written ((state, .run 0 0) :: trace) 0 = some (all, all) := by
  obtain ⟨trace, state, run, onCpu, head, finished, stored, delivered⟩ :
      ∃ trace state, Run pipeStep (boot 1 [1] (.alloc fun _ => 0)) trace state ∧
      state.cur 0 = .proc 0 ∧ state.running 0 = [.act (.sub (.write [4, 5]))] ∧
      (state.shared.sub.store [4, 5]).2 = 2 ∧ storedBytes trace = [1, 2, 3] ∧
      deliveredBytes trace = [1, 2] :=
    exists_run threeWrittenTwoRead (by decide +kernel)
  rcases pipe_fifo run with ⟨isPrefix, _, complete⟩
  exact ⟨trace, state, run, stored, delivered, isPrefix, complete 0 0 0 _ [] onCpu head finished⟩

end Xv6
