import Xv6.Semaphore.Refinement

/-!
# Console lock and process table

`consoleintr` and `consoleread` call `wakeup` and `sleep` under `cons.lock`, which take
`ptable.lock`. A blocking `semaphore_acquire` prints the process table under `ptable.lock`,
and `cprintf` takes `cons.lock`. Each of the two orders is safe without the other one.
-/

namespace Xv6

open Threads Transition Discipline

section Nesting

variable {ncpu : ℕ} {outer inner : Lock} {held : Finset Lock}

/-- The nestings of two locks that an act of this subsystem begins. -/
inductive SemNesting (kern : Kern SemState) (thread : Thread ncpu) (choice : ℕ) :
    SemAct → Lock → Lock → Prop
  | block {id : SemId} {outer inner : Lock} (negative : (kern.sem id).value - 1 < 0)
      (notCons : outer ≠ .cons) : SemNesting kern thread choice (.acquireBody id) outer inner
  | place {id : SemId} {i : ℕ} :
      SemNesting kern thread choice (.placeLoop id i) (.sem id) .ptable
  | print {index : ℕ} {outer : Lock} : SemNesting kern thread choice (.printRow index) outer .cons
  | grant {id : SemId} : SemNesting kern thread choice (.releaseBody id) (.sem id) .ptable
  | line {doprocdump : Bool} (ends : ∃ key, choice = key + 2 ∧ key % 2 = 1) :
      SemNesting kern thread choice (.keys doprocdump) .cons .ptable
  | readSleep {curproc : Slot} (own : thread = .proc curproc) (asked : choice ≠ 0)
      (empty : kern.sub.input.r = kern.sub.input.w) (alive : (kern.proc curproc).killed = false) :
      SemNesting kern thread choice .readLoop .cons .ptable

theorem nests_cprintfs {times : ℕ} (free : .cons ∉ held)
    (nests : semDiscipline.Nests outer inner held (List.replicate times cprintf).flatten) :
    outer ∈ held ∧ inner = .cons := by
  induction times with
  | zero => simp [Nests] at nests
  | succ times ih =>
      rw [List.replicate_succ, List.flatten_cons, nests_append (runs_cprintf free)] at nests
      rcases nests with here | later
      · simp only [cprintf, Nests, or_false] at here
        exact ⟨here.1, here.2.symm⟩
      · exact ih later

theorem nests_blockCode {id : SemId} {wfirst : ℕ}
    (nests : semDiscipline.Nests outer inner {.sem id} (blockCode id wfirst)) : outer ≠ .cons := by
  have runs : semDiscipline.Runs {.sem id}
      ([semAct (.sortOuter id wfirst), semAct (.placeLoop id 0), .acquire .ptable] ++
        printProcessInfo ++ [.release .ptable]) {.sem id} := by
    simp [printProcessInfo, cprintf, Runs, SemAct.needs, SemAct.leaves]
  rw [blockCode, nests_append runs] at nests
  rintro rfl
  rcases nests with printing | sleeping
  · simp [printProcessInfo, cprintf, Nests, SemAct.leaves] at printing
  · exact absurd (nests_sleep sleeping).1 (by simp)

theorem nests_semExec {act : SemAct} {thread : Thread ncpu} {choice : ℕ} {kern : Kern SemState}
    {result : Kern SemState × SemCode} (needs : act.needs held)
    (executed : semExec act thread choice kern = some result)
    (nests : semDiscipline.Nests outer inner held result.2) :
    SemNesting kern thread choice act outer inner := by
  cases semExec_cases executed with
  | @block id curproc negative =>
      obtain rfl : held = {.sem id} := needs
      exact .block negative (nests_blockCode nests)
  | @placeNext id =>
      obtain rfl : held = {.sem id} := needs
      simp [Nests] at nests
      rcases nests with ⟨rfl, rfl⟩
      exact .place
  | @grant id =>
      obtain rfl : held = {.sem id} := needs
      simp [Nests] at nests
      rcases nests with ⟨rfl, rfl⟩
      exact .grant
  | printRow =>
      rw [nests_append (runs_cprintfs needs.2 _)] at nests
      simp only [Nests, or_false] at nests
      rcases nests_cprintfs needs.2 nests with ⟨_, rfl⟩
      exact .print
  | line ends =>
      obtain rfl : held = {.cons} := needs
      simp [wakeup, Nests] at nests
      rcases nests with ⟨rfl, rfl⟩
      exact .line ends
  | procdump =>
      obtain rfl : held = ∅ := needs
      exact absurd (nests_cprintfs (by simp) nests).1 (by simp)
  | readSleep asked empty alive =>
      obtain rfl : held = {.cons} := needs
      rw [nests_append runs_sleep] at nests
      simp only [Nests, or_false] at nests
      rcases nests_sleep nests with ⟨rfl, rfl⟩
      exact .readSleep rfl asked empty (by simpa using alive)
  | @keysDone doprocdump => cases doprocdump <;> simp [Nests] at nests
  | _ => simp [Nests] at nests

end Nesting

variable {ncpu : ℕ} {allowed : Lock → Lock → Prop} {freePages : List ℕ} {values : SemId → ℤ}
  {state next : SemMachine ncpu} {label : SemLabel ncpu}
  {trace : Trace (SemMachine ncpu) (SemLabel ncpu)}

theorem nestsAllowed_of_nesting
    (core : ∀ cpu choice act rest outer inner, label = .run cpu choice →
      state.running cpu = .act act :: rest →
      CoreNesting state.shared (state.cur cpu) choice act outer inner → allowed outer inner)
    (subsystem : ∀ cpu choice act rest outer inner, label = .run cpu choice →
      state.running cpu = semAct act :: rest →
      SemNesting state.shared (state.cur cpu) choice act outer inner → allowed outer inner) :
    NestsAllowed semaphores semLocking allowed state label where
  entry := by
    intro entry outer inner nests
    refine absurd nests (not_nests_entry ?_)
    intro entry
    cases entry <;>
      simp [semaphores, semaphoreAcquire, semaphoreRelease, consoleread, consolewrite, cprintf, Nests]
  intr := by
    intro intr outer inner nests
    simp [semaphores, consoleintr, Nests] at nests
  act := by
    intro cpu choice act rest outcome held outer inner isRun head executed needs nests
    cases act with
    | sub act =>
        rcases exec_sub executed with ⟨result, ran, rfl⟩
        exact subsystem cpu choice act rest outer inner isRun head (nests_semExec needs ran nests)
    | _ =>
        exact core cpu choice _ rest outer inner isRun head
          (nests_exec executed (by simp) needs nests)

/-- A `semaphore_acquire` takes its blocking branch. -/
def blocks (state : SemMachine ncpu) (label : SemLabel ncpu) : Bool :=
  match label with
  | .run cpu _ =>
      match state.running cpu with
      | .act (.sub (.acquireBody id)) :: _ => (state.shared.sem id).value - 1 < 0
      | _ => false
  | _ => false

/-- `consoleintr` commits a line, or `consoleread` goes to sleep. -/
def consoleSwitches (state : SemMachine ncpu) (label : SemLabel ncpu) : Bool :=
  match label with
  | .run cpu choice =>
      match state.running cpu with
      | .act (.sub (.keys _)) :: _ => 2 ≤ choice && choice % 2 = 1
      | .act (.sub .readLoop) :: _ =>
          choice ≠ 0 && state.shared.sub.input.r = state.shared.sub.input.w &&
            match state.cur cpu with
            | .proc curproc => !(state.shared.proc curproc).killed
            | .scheduler _ => false
      | _ => false
  | _ => false

theorem nestsAllowed_of_console (quiet : consoleSwitches state label = false) :
    NestsAllowed semaphores semLocking (AllBut .cons .ptable) state label := by
  apply nestsAllowed_of_nesting
  · rintro cpu choice act rest outer inner _ _ nesting ⟨rfl, rfl⟩
    cases nesting
  · rintro cpu choice act rest outer inner rfl head nesting ⟨rfl, rfl⟩
    simp only [consoleSwitches, head] at quiet
    cases nesting with
    | block _ notCons => exact notCons rfl
    | line ends =>
        rcases ends with ⟨key, rfl, odd⟩
        simp only [Bool.and_eq_false_iff, decide_eq_false_iff_not] at quiet
        omega
    | readSleep own asked empty alive => simp [own, asked, empty, alive] at quiet

def NotPrint : Instr Lock (Act SemAct) → Prop
  | .act (.sub (.printRow _)) => False
  | _ => True

theorem notPrint_of_isCore {instr : Instr Lock (Act SemAct)} (core : IsCore instr) :
    NotPrint instr := by
  cases instr with
  | act act =>
      cases act with
      | sub act => exact absurd core id
      | _ => trivial
  | _ => trivial

theorem notPrint_entry {entry : Entry SemEntry} :
    ∀ instr ∈ entryCode semaphores entry, NotPrint instr := by
  cases entry with
  | sub entry =>
      cases entry <;> simp [entryCode, semaphores, semaphoreAcquire, semaphoreRelease, consoleread,
        consolewrite, cprintf, NotPrint]
  | _ => exact fun instr mem => notPrint_of_isCore (isCore_entry (by simp) instr mem)

theorem notPrint_intr {intr : Intr Unit} {cpu : Fin ncpu} {thread : Thread ncpu} {code : SemCode}
    (handled : (kernel semaphores ncpu).intr intr cpu thread = some code) :
    ∀ instr ∈ code, NotPrint instr := by
  rcases kernel_intr_cases handled with ⟨_, rfl⟩ | rfl | ⟨subIntr, rfl⟩
  · simp [timer, NotPrint]
  · simp [yield, NotPrint]
  · simp [semaphores, consoleintr, NotPrint]

theorem notPrint_cprintfs {times : ℕ} :
    ∀ instr ∈ (List.replicate times cprintf).flatten, NotPrint instr := by
  intro instr mem
  rcases mem_cprintfs mem with rfl | rfl <;> trivial

theorem notPrint_semExec {act : SemAct} {thread : Thread ncpu} {choice : ℕ} {kern : Kern SemState}
    {result : Kern SemState × SemCode} (executed : semExec act thread choice kern = some result)
    (notPrint : NotPrint (semAct act))
    (unblocked : ∀ id, act = .acquireBody id → 0 ≤ (kern.sem id).value - 1) :
    ∀ instr ∈ result.2, NotPrint instr := by
  cases semExec_cases executed with
  | @block id curproc negative => exact absurd (unblocked id rfl) (not_le.mpr negative)
  | skipRow | printRow | printed => exact absurd notPrint id
  | procdump => exact notPrint_cprintfs
  | @keysDone doprocdump => cases doprocdump <;> simp [NotPrint]
  | readSleep => simp [sleep, NotPrint]
  | line => simp [wakeup, NotPrint]
  | _ => simp [NotPrint]

theorem notPrint_step (all : ∀ thread, ∀ instr ∈ state.code thread, NotPrint instr)
    (stepped : semStep state label = some next) (unblocked : blocks state label = false) :
    ∀ thread, ∀ instr ∈ next.code thread, NotPrint instr := by
  refine Program.forall_code_step all stepped ?_ (fun _ _ _ _ => notPrint_intr) ?_
  · intro _ entry thread code _ entered
    rcases kernel_entry entered with ⟨curproc, rfl, rfl⟩
    exact notPrint_entry
  · rintro cpu choice act rest outcome rfl head executed
    have executed : exec semaphores act cpu (state.cur cpu) choice state.shared = some outcome :=
      executed
    cases act with
    | sub act =>
        rcases exec_sub executed with ⟨result, ran, rfl⟩
        refine ⟨notPrint_semExec ran ?_ ?_, by simp⟩
        · exact all _ _ (State.mem_head head)
        · rintro id rfl
          simp only [blocks, head, decide_eq_false_iff_not, not_lt] at unblocked
          exact unblocked
    | _ =>
        have stays := staysOut_exec executed (by simp)
        refine ⟨fun instr mem => notPrint_of_isCore (stays.push instr mem), ?_⟩
        intro thread code spawned
        rw [(stays.spawn thread code spawned).1]
        simp [forkret, NotPrint]

/-- While nobody prints the process table, nothing takes `cons.lock` under `ptable.lock`. -/
theorem nestsAllowed_of_notPrint (all : ∀ thread, ∀ instr ∈ state.code thread, NotPrint instr)
    (unblocked : blocks state label = false) :
    NestsAllowed semaphores semLocking (AllBut .ptable .cons) state label := by
  apply nestsAllowed_of_nesting
  · rintro cpu choice act rest outer inner _ _ nesting ⟨rfl, rfl⟩
    cases nesting
  · rintro cpu choice act rest outer inner rfl head nesting ⟨rfl, rfl⟩
    cases nesting with
    | block negative _ =>
        simp only [blocks, head, decide_eq_false_iff_not] at unblocked
        exact unblocked negative
    | @print index => exact all _ _ (State.mem_head head)

/-- Console and process table do not deadlock on one processor, nor if no semaphore operation
blocks, nor if the console wakes nobody and nobody sleeps on it. -/
theorem console_table_no_deadlock
    (run : Run semStep (semBoot ncpu freePages values) trace state)
    (safe : trace.All fun before label => killsWaiter before label = false)
    (oneOrder : ncpu ≤ 1 ∨ (trace.All fun before label => blocks before label = false) ∨
      trace.All fun before label => consoleSwitches before label = false) :
    ¬state.Deadlock .cons .ptable := by
  rcases oneOrder with single | unblocked | quiet
  · rintro ⟨left, right, different, _⟩
    apply different
    ext
    omega
  · have both : SemInv (AllBut .ptable .cons) state ∧
        ∀ thread, ∀ instr ∈ state.code thread, NotPrint instr := by
      refine Run.stateInvariant (fun state => SemInv (AllBut .ptable .cons) state ∧
        ∀ thread, ∀ instr ∈ state.code thread, NotPrint instr) ⟨semInv_boot, ?_⟩ ?_ run
        (safe.and unblocked)
      · intro thread
        cases thread with
        | scheduler own => simp [semBoot, boot, scheduler, NotPrint]
        | proc slot => by_cases isInit : slot = 0 <;> simp [semBoot, boot, isInit, forkret, NotPrint]
      · rintro before label after ⟨inv, all⟩ ⟨safeStep, unblockedStep⟩ stepped
        exact ⟨(inv.step stepped safeStep (nestsAllowed_of_notPrint all unblockedStep)).1,
          notPrint_step all stepped unblockedStep⟩
    exact both.1.core.tracked.not_deadlock_of_allBut.2
  · have inv : SemInv (AllBut .cons .ptable) state := by
      refine Run.stateInvariant (SemInv (AllBut .cons .ptable)) semInv_boot ?_ run (safe.and quiet)
      rintro before label after inv ⟨safeStep, quietStep⟩ stepped
      exact (inv.step stepped safeStep (nestsAllowed_of_console quietStep)).1
    exact inv.core.tracked.not_deadlock_of_allBut.1

/-- On the second processor a child of init waits and is about to print the process table; on
the first one the console interrupt has begun. -/
def printsDuringKey : List (SemLabel 2) :=
  [dispatch 0 0, go 0 1, call 0 .fork 15,
    dispatch 1 1, go 1 1, call 1 (.sub (.semAcquire 0)) 9, [.intr 0 (.sub ()), .run 0 0]].flatten

theorem key_during_print_no_deadlock : ∃ trace state,
    Run semStep (semBoot 2 [1] fun _ => 0) trace state ∧ state.owner .cons = some 0 ∧
      state.owner .ptable = some 1 ∧ state.SpinsFor 1 .cons ∧ ¬state.Deadlock .cons .ptable := by
  obtain ⟨trace, state, run, safe, quiet, consOwned, ptableOwned, prints⟩ :
      ∃ trace state, Run semStep (semBoot 2 [1] fun _ => 0) trace state ∧
      (trace.All fun before label => killsWaiter before label = false) ∧
      (trace.All fun before label => consoleSwitches before label = false) ∧
      state.owner .cons = some 0 ∧ state.owner .ptable = some 1 ∧
      ∃ rest, state.running 1 = .acquire .cons :: rest :=
    exists_run printsDuringKey (by decide +kernel)
  refine ⟨trace, state, run, consOwned, ptableOwned, ⟨prints, by simp [consOwned]⟩, ?_⟩
  exact console_table_no_deadlock run safe (Or.inr (Or.inr quiet))

-- The key ends a line.
theorem line_during_print_deadlock : ∃ trace state,
    Run semStep (semBoot 2 [1] fun _ => 0) trace state ∧
      (trace.All fun before label => killsWaiter before label = false) ∧
      state.Deadlock .cons .ptable := by
  obtain ⟨trace, state, run, safe, consOwned, wakes, ptableOwned, prints⟩ :
      ∃ trace state, Run semStep (semBoot 2 [1] fun _ => 0) trace state ∧
      (trace.All fun before label => killsWaiter before label = false) ∧
      state.owner .cons = some 0 ∧ (∃ rest, state.running 0 = .acquire .ptable :: rest) ∧
      state.owner .ptable = some 1 ∧ ∃ rest, state.running 1 = .acquire .cons :: rest :=
    exists_run (printsDuringKey ++ [.run 0 3]) (by decide +kernel)
  exact ⟨trace, state, run, safe, 0, 1, by decide, consOwned, ⟨wakes, by simp [ptableOwned]⟩,
    ptableOwned, ⟨prints, by simp [consOwned]⟩⟩

end Xv6
