import Mathlib

/-!
# Threads, processors and spin locks

Threads run straight-line code whose instructions acquire a lock, release a lock or do
an act on the shared state. An act may put further code in front of what the thread
still has to do; this is how branches, loops and calls are written, so the code left
to a thread is its program counter and its call stack in one. An act may also hand the
processor to another thread (a context switch) and may give a thread its first code.

Locks belong to processors, as a spin lock records the processor that took it: across a
context switch the processor keeps what it holds. A processor counts the locks it
holds, and takes interrupts only while the count is zero and no handler is pending.
-/

namespace Threads

inductive Instr (Lock Act : Type) where
  | acquire (lock : Lock)
  | release (lock : Lock)
  | act (act : Act)
  deriving DecidableEq

abbrev Code (Lock Act : Type) := List (Instr Lock Act)

/-- The effect of an act: the new shared state, code to run before the rest, the thread
that gets the processor, and a thread that receives its first code. -/
structure Outcome (Thread Lock Act Shared : Type) where
  shared : Shared
  push : Code Lock Act := []
  switch : Option Thread := none
  spawn : Option (Thread × Code Lock Act) := none

/-- A program: what its acts do, the code a thread may start when it has none left, the
code of its interrupt handlers, and the act that ends a handler. The natural number given
to `exec` resolves what the act leaves open. -/
structure Program (Cpu Thread Lock Act Shared Entry Intr : Type) where
  exec : Act → Cpu → Thread → ℕ → Shared → Option (Outcome Thread Lock Act Shared)
  entry : Entry → Thread → Option (Code Lock Act)
  intr : Intr → Cpu → Thread → Option (Code Lock Act)
  iret : Act

structure State (Cpu Thread Lock Act Shared : Type) where
  shared : Shared
  owner : Lock → Option Cpu
  ncli : Cpu → ℕ
  code : Thread → Code Lock Act
  cur : Cpu → Thread

/-- A processor goes on with its thread, its idle thread starts new code, or it takes an
interrupt. -/
inductive Label (Cpu Entry Intr : Type) where
  | run (cpu : Cpu) (choice : ℕ)
  | call (cpu : Cpu) (entry : Entry)
  | intr (cpu : Cpu) (intr : Intr)
  deriving DecidableEq

variable {Cpu Thread Lock Act Shared Entry Intr : Type}

namespace State

def running (state : State Cpu Thread Lock Act Shared) (cpu : Cpu) : Code Lock Act :=
  state.code (state.cur cpu)

/-- The processor spins: its next instruction acquires a lock that is taken. -/
def SpinsFor (state : State Cpu Thread Lock Act Shared) (cpu : Cpu) (lock : Lock) : Prop :=
  (∃ rest, state.running cpu = .acquire lock :: rest) ∧ state.owner lock ≠ none

/-- Two processors wait for each other: each holds one lock and spins for the other. -/
def Deadlock (state : State Cpu Thread Lock Act Shared) (first second : Lock) : Prop :=
  ∃ left right, left ≠ right ∧
    state.owner first = some left ∧ state.SpinsFor left second ∧
    state.owner second = some right ∧ state.SpinsFor right first

theorem Deadlock.symm {state : State Cpu Thread Lock Act Shared} {first second : Lock}
    (deadlock : state.Deadlock first second) : state.Deadlock second first := by
  rcases deadlock with ⟨left, right, different, firstOwned, leftSpins, secondOwned, rightSpins⟩
  exact ⟨right, left, different.symm, secondOwned, rightSpins, firstOwned, leftSpins⟩

section Head

variable {state : State Cpu Thread Lock Act Shared} {cpu : Cpu} {instr : Instr Lock Act}
  {rest : Code Lock Act} (head : state.running cpu = instr :: rest)

include head

theorem mem_head : instr ∈ state.code (state.cur cpu) := by
  rw [← running, head]
  exact List.mem_cons_self

theorem mem_rest {later : Instr Lock Act} (mem : later ∈ rest) :
    later ∈ state.code (state.cur cpu) := by
  rw [← running, head]
  exact List.mem_cons_of_mem _ mem

end Head

variable [DecidableEq Thread]

/-- Carry out the outcome of an act of `thread` on `cpu`, which leaves `rest` to do. -/
def apply [DecidableEq Cpu] (state : State Cpu Thread Lock Act Shared) (cpu : Cpu)
    (thread : Thread) (rest : Code Lock Act) (outcome : Outcome Thread Lock Act Shared) :
    State Cpu Thread Lock Act Shared :=
  let code := Function.update state.code thread (outcome.push ++ rest)
  { state with
    shared := outcome.shared
    code := match outcome.spawn with
      | none => code
      | some (spawned, first) => Function.update code spawned first
    cur := match outcome.switch with
      | none => state.cur
      | some next => Function.update state.cur cpu next }

end State

/-- An instruction with what comes after it, in code that has been put in front of other code. -/
theorem suffix_append_cases {first second after : Code Lock Act} {instr : Instr Lock Act}
    (suffix : instr :: after <:+ first ++ second) :
    (∃ between, instr :: between <:+ first ∧ after = between ++ second) ∨
      instr :: after <:+ second := by
  induction first with
  | nil => exact Or.inr suffix
  | cons head first ih =>
      rcases List.suffix_cons_iff.mp suffix with same | shorter
      · cases same
        exact Or.inl ⟨first, List.suffix_refl _, rfl⟩
      · rcases ih shorter with ⟨between, inFirst, isAfter⟩ | inSecond
        · exact Or.inl ⟨between, inFirst.trans (List.suffix_cons _ _), isAfter⟩
        · exact Or.inr inSecond

section Step

variable [DecidableEq Cpu] [DecidableEq Thread] [DecidableEq Lock] [DecidableEq Act]

/-- Run the next instruction of the thread on `cpu`. -/
def Program.runOn (program : Program Cpu Thread Lock Act Shared Entry Intr)
    (state : State Cpu Thread Lock Act Shared) (cpu : Cpu) (choice : ℕ) :
    Option (State Cpu Thread Lock Act Shared) :=
  let thread := state.cur cpu
  match state.code thread with
  | [] => none
  | .acquire lock :: rest =>
      if state.owner lock = none then
        some { state with
          owner := Function.update state.owner lock (some cpu)
          ncli := Function.update state.ncli cpu (state.ncli cpu + 1)
          code := Function.update state.code thread rest }
      else none
  | .release lock :: rest =>
      if state.owner lock = some cpu then
        some { state with
          owner := Function.update state.owner lock none
          ncli := Function.update state.ncli cpu (state.ncli cpu - 1)
          code := Function.update state.code thread rest }
      else none
  | .act act :: rest =>
      (program.exec act cpu thread choice state.shared).map
        (state.apply cpu thread rest)

def Program.step (program : Program Cpu Thread Lock Act Shared Entry Intr)
    (state : State Cpu Thread Lock Act Shared) :
    Label Cpu Entry Intr → Option (State Cpu Thread Lock Act Shared)
  | .run cpu choice => program.runOn state cpu choice
  | .call cpu entry =>
      match state.running cpu with
      | [] => (program.entry entry (state.cur cpu)).map fun code =>
          { state with code := Function.update state.code (state.cur cpu) code }
      | _ :: _ => none
  | .intr cpu intr =>
      if state.ncli cpu = 0 ∧ .act program.iret ∉ state.running cpu then
        (program.intr intr cpu (state.cur cpu)).map fun code =>
          { state with
            code := Function.update state.code (state.cur cpu) (code ++ state.running cpu) }
      else none

end Step

inductive StepCases [DecidableEq Cpu] [DecidableEq Thread] [DecidableEq Lock]
    (program : Program Cpu Thread Lock Act Shared Entry Intr)
    (state : State Cpu Thread Lock Act Shared) :
    Label Cpu Entry Intr → State Cpu Thread Lock Act Shared → Prop
  | acquire {cpu : Cpu} {choice : ℕ} {lock : Lock} {rest : Code Lock Act}
      (head : state.running cpu = .acquire lock :: rest) (free : state.owner lock = none) :
      StepCases program state (.run cpu choice)
        { state with
          owner := Function.update state.owner lock (some cpu)
          ncli := Function.update state.ncli cpu (state.ncli cpu + 1)
          code := Function.update state.code (state.cur cpu) rest }
  | release {cpu : Cpu} {choice : ℕ} {lock : Lock} {rest : Code Lock Act}
      (head : state.running cpu = .release lock :: rest) (owned : state.owner lock = some cpu) :
      StepCases program state (.run cpu choice)
        { state with
          owner := Function.update state.owner lock none
          ncli := Function.update state.ncli cpu (state.ncli cpu - 1)
          code := Function.update state.code (state.cur cpu) rest }
  | act {cpu : Cpu} {choice : ℕ} {act : Act} {rest : Code Lock Act}
      {outcome : Outcome Thread Lock Act Shared}
      (head : state.running cpu = .act act :: rest)
      (executed : program.exec act cpu (state.cur cpu) choice state.shared = some outcome) :
      StepCases program state (.run cpu choice)
        (state.apply cpu (state.cur cpu) rest outcome)
  | call {cpu : Cpu} {entry : Entry} {code : Code Lock Act}
      (idle : state.running cpu = []) (entered : program.entry entry (state.cur cpu) = some code) :
      StepCases program state (.call cpu entry)
        { state with code := Function.update state.code (state.cur cpu) code }
  | intr {cpu : Cpu} {intr : Intr} {code : Code Lock Act}
      (unlocked : state.ncli cpu = 0) (unmasked : .act program.iret ∉ state.running cpu)
      (handled : program.intr intr cpu (state.cur cpu) = some code) :
      StepCases program state (.intr cpu intr)
        { state with
          code := Function.update state.code (state.cur cpu) (code ++ state.running cpu) }

variable [DecidableEq Cpu] [DecidableEq Thread] [DecidableEq Lock] [DecidableEq Act]
  {program : Program Cpu Thread Lock Act Shared Entry Intr}
  {state next : State Cpu Thread Lock Act Shared} {label : Label Cpu Entry Intr}

theorem Program.step_cases (stepped : program.step state label = some next) :
    StepCases program state label next := by
  cases label with
  | run cpu choice =>
      simp only [Program.step, Program.runOn] at stepped
      split at stepped
      · contradiction
      · rename_i lock rest head
        split at stepped
        · rename_i free
          cases stepped
          exact .acquire head free
        · contradiction
      · rename_i lock rest head
        split at stepped
        · rename_i owned
          cases stepped
          exact .release head owned
        · contradiction
      · rename_i act rest head
        rcases Option.map_eq_some_iff.mp stepped with ⟨outcome, executed, rfl⟩
        exact .act head executed
  | call cpu entry =>
      simp only [Program.step] at stepped
      split at stepped
      · rename_i idle
        rcases Option.map_eq_some_iff.mp stepped with ⟨code, entered, rfl⟩
        exact .call idle entered
      · contradiction
  | intr cpu intr =>
      simp only [Program.step] at stepped
      split at stepped
      · rename_i enabled
        rcases Option.map_eq_some_iff.mp stepped with ⟨code, handled, rfl⟩
        exact .intr enabled.1 enabled.2 handled
      · contradiction

/-- A property of the code of each thread is kept, if it survives lock operations and holds
of the code that system calls, handlers and acts leave, and of the code of new threads. -/
theorem Program.code_step (Good : Thread → Code Lock Act → Prop)
    (all : ∀ thread, Good thread (state.code thread))
    (stepped : program.step state label = some next)
    (locks : ∀ thread instr rest, (∀ act, instr ≠ .act act) → Good thread (instr :: rest) →
      Good thread rest)
    (entries : ∀ cpu entry thread code, label = .call cpu entry →
      program.entry entry thread = some code → Good thread code)
    (handlers : ∀ intr cpu code, state.ncli cpu = 0 →
      program.intr intr cpu (state.cur cpu) = some code →
      Good (state.cur cpu) (code ++ state.running cpu))
    (acts : ∀ cpu choice act rest outcome, label = .run cpu choice →
      state.running cpu = .act act :: rest →
      program.exec act cpu (state.cur cpu) choice state.shared = some outcome →
      Good (state.cur cpu) (outcome.push ++ rest) ∧
        ∀ thread code, outcome.spawn = some (thread, code) → Good thread code) :
    ∀ thread, Good thread (next.code thread) := by
  have updated : ∀ (cpu : Cpu) (code : Code Lock Act), Good (state.cur cpu) code →
      ∀ thread, Good thread (Function.update state.code (state.cur cpu) code thread) := by
    intro cpu code codeGood thread
    by_cases same : thread = state.cur cpu
    · rw [same, Function.update_self]
      exact codeGood
    · rw [Function.update_of_ne same]
      exact all thread
  have running : ∀ cpu, Good (state.cur cpu) (state.running cpu) := fun cpu => all _
  cases Program.step_cases stepped with
  | @acquire cpu _ _ rest head | @release cpu _ _ rest head =>
      exact updated cpu rest (locks _ _ rest (by simp) (head ▸ running cpu))
  | @call cpu entry code idle entered => exact updated cpu code (entries cpu entry _ code rfl entered)
  | @intr cpu intr code unlocked unmasked handled =>
      exact updated cpu _ (handlers intr cpu code unlocked handled)
  | @act cpu choice act rest outcome head executed =>
      rcases acts cpu choice act rest outcome rfl head executed with ⟨codeGood, spawnGood⟩
      cases spawned : outcome.spawn with
      | none =>
          simp only [State.apply, spawned]
          exact updated cpu _ codeGood
      | some new =>
          simp only [State.apply, spawned]
          intro thread
          by_cases isNew : thread = new.1
          · rw [isNew, Function.update_self]
            exact spawnGood new.1 new.2 spawned
          · rw [Function.update_of_ne isNew]
            exact updated cpu _ codeGood thread

/-- A property of all instructions is kept, if system calls, handlers and acts bring in no
other ones. -/
theorem Program.forall_code_step {Good : Instr Lock Act → Prop}
    (all : ∀ thread, ∀ instr ∈ state.code thread, Good instr)
    (stepped : program.step state label = some next)
    (entries : ∀ cpu entry thread code, label = .call cpu entry →
      program.entry entry thread = some code → ∀ instr ∈ code, Good instr)
    (handlers : ∀ intr cpu thread code, program.intr intr cpu thread = some code →
      ∀ instr ∈ code, Good instr)
    (acts : ∀ cpu choice act rest outcome, label = .run cpu choice →
      state.running cpu = .act act :: rest →
      program.exec act cpu (state.cur cpu) choice state.shared = some outcome →
      (∀ instr ∈ outcome.push, Good instr) ∧
        ∀ thread code, outcome.spawn = some (thread, code) → ∀ instr ∈ code, Good instr) :
    ∀ thread, ∀ instr ∈ next.code thread, Good instr := by
  apply Program.code_step (fun _ code => ∀ instr ∈ code, Good instr) all stepped
  · intro thread instr rest _ good other mem
    exact good other (List.mem_cons_of_mem _ mem)
  · exact entries
  · intro intr cpu code _ handled instr mem
    rcases List.mem_append.mp mem with fresh | old
    · exact handlers intr cpu _ code handled instr fresh
    · exact all _ instr old
  · intro cpu choice act rest outcome isRun head executed
    rcases acts cpu choice act rest outcome isRun head executed with ⟨pushGood, spawnGood⟩
    refine ⟨?_, spawnGood⟩
    intro instr mem
    rcases List.mem_append.mp mem with fresh | old
    · exact pushGood instr fresh
    · exact all _ _ (State.mem_rest head old)

/-- A property of all instructions and of what comes after them is kept, if it holds of the
code that system calls, handlers and acts bring in. -/
theorem Program.forall_suffix_step {Good : Instr Lock Act → Code Lock Act → Prop}
    (all : ∀ thread instr after, instr :: after <:+ state.code thread → Good instr after)
    (stepped : program.step state label = some next)
    (entries : ∀ cpu entry thread code, label = .call cpu entry →
      program.entry entry thread = some code →
      ∀ instr after, instr :: after <:+ code → Good instr after)
    (handlers : ∀ intr cpu code, program.intr intr cpu (state.cur cpu) = some code →
      ∀ instr after, instr :: after <:+ code → Good instr (after ++ state.running cpu))
    (acts : ∀ cpu choice act rest outcome, label = .run cpu choice →
      state.running cpu = .act act :: rest →
      program.exec act cpu (state.cur cpu) choice state.shared = some outcome →
      (∀ instr after, instr :: after <:+ outcome.push → Good instr (after ++ rest)) ∧
        ∀ thread code, outcome.spawn = some (thread, code) →
          ∀ instr after, instr :: after <:+ code → Good instr after) :
    ∀ thread instr after, instr :: after <:+ next.code thread → Good instr after := by
  apply Program.code_step
    (fun _ code => ∀ instr after, instr :: after <:+ code → Good instr after) all stepped
  · intro thread instr rest _ good other after suffix
    exact good other after (suffix.trans (List.suffix_cons _ _))
  · exact entries
  · intro intr cpu code _ handled instr after suffix
    rcases suffix_append_cases suffix with ⟨between, inHandler, rfl⟩ | old
    · exact handlers intr cpu code handled instr between inHandler
    · exact all _ instr after old
  · intro cpu choice act rest outcome isRun head executed
    rcases acts cpu choice act rest outcome isRun head executed with ⟨pushGood, spawnGood⟩
    refine ⟨?_, spawnGood⟩
    intro instr after suffix
    rcases suffix_append_cases suffix with ⟨between, inPush, rfl⟩ | old
    · exact pushGood instr between inPush
    · apply all (state.cur cpu)
      rw [← State.running, head]
      exact old.trans (List.suffix_cons _ _)

end Threads
