import Xv6.Kernel.Safety
import Xv6.Lib.Run

/-!
# Clock lock and process table

`fork` stores the time of birth under `ptable.lock` and takes `tickslock` for it. The clock
handler wakes the sleepers under `tickslock`, and `sys_sleep` goes to sleep with it; both
take `ptable.lock` inside. Each of the two orders is safe without the other one.
-/

namespace Xv6

open Threads Transition Discipline

/-- The kernel by itself, without a subsystem. -/
def noSub : Subsystem Unit Empty Empty Empty where
  exec := fun act => act.elim
  entry := fun entry => entry.elim
  intr := fun intr => intr.elim

def noLocking : SubLocking Empty where
  needs := fun act => act.elim
  leaves := fun act => act.elim
  leaves_subset := fun act => act.elim

theorem noLaws : SubLaws noSub noLocking where
  entry_runs := fun entry => entry.elim
  intr_runs := fun intr => intr.elim
  exec_runs := fun act => act.elim
  entry_forks := fun entry => entry.elim
  intr_forks := fun intr => intr.elim
  exec_forks := fun act => act.elim

abbrev KernMachine (ncpu : ℕ) := Machine Unit Empty ncpu

abbrev KernLabel (ncpu : ℕ) := Label (Fin ncpu) (Entry Empty) (Intr Empty)

def kernStep {ncpu : ℕ} : KernMachine ncpu → KernLabel ncpu → Option (KernMachine ncpu) :=
  (kernel noSub ncpu).step

variable {ncpu : ℕ} {allowed : Lock → Lock → Prop} {freePages : List ℕ}
  {state next : KernMachine ncpu} {label : KernLabel ncpu}
  {trace : Trace (KernMachine ncpu) (KernLabel ncpu)}

/-- A `fork` has copied the memory of its process and goes on. -/
def forks (state : KernMachine ncpu) (label : KernLabel ncpu) : Bool :=
  match label with
  | .run cpu choice =>
      match state.running cpu with
      | .act (.copyuvm _) :: _ => choice = 0
      | _ => false
  | _ => false

/-- The clock ticks, or `sys_sleep` goes to sleep. -/
def clockSwitches (state : KernMachine ncpu) (label : KernLabel ncpu) : Bool :=
  match label with
  | .run cpu _ =>
      match state.running cpu with
      | .act .tick :: _ => true
      | .act (.sysSleepLoop ticks0 n) :: _ =>
          match state.cur cpu with
          | .proc curproc =>
              (state.shared.ticks + 2 ^ 32 - ticks0) % 2 ^ 32 < n &&
                !(state.shared.proc curproc).killed
          | .scheduler _ => false
      | _ => false
  | _ => false

theorem nestsAllowed_of_coreNesting
    (core : ∀ cpu choice act rest outer inner, label = .run cpu choice →
      state.running cpu = .act act :: rest →
      CoreNesting state.shared (state.cur cpu) choice act outer inner → allowed outer inner) :
    NestsAllowed noSub noLocking allowed state label where
  entry := fun _ _ _ nests => absurd nests (not_nests_entry fun entry => entry.elim)
  intr := fun intr => intr.elim
  act := by
    intro cpu choice act rest outcome held outer inner isRun head executed needs nests
    exact core cpu choice act rest outer inner isRun head
      (nests_exec executed (fun subAct => subAct.elim) needs nests)

theorem nestsAllowed_of_forks (none : forks state label = false) :
    NestsAllowed noSub noLocking (AllBut .ptable .tickslock) state label := by
  apply nestsAllowed_of_coreNesting
  rintro cpu choice act rest outer inner rfl head nesting ⟨rfl, rfl⟩
  cases nesting with
  | fork copied => simp [forks, head, copied] at none

theorem nestsAllowed_of_clock (still : clockSwitches state label = false) :
    NestsAllowed noSub noLocking (AllBut .tickslock .ptable) state label := by
  apply nestsAllowed_of_coreNesting
  rintro cpu choice act rest outer inner rfl head nesting ⟨rfl, rfl⟩
  cases nesting with
  | timer => simp [clockSwitches, head] at still
  | sysSleep sleeps =>
      rcases sleeps with ⟨curproc, own, early, alive⟩
      simp only [clockSwitches, head, own, early, alive] at still
      simp at still

theorem CoreInv.kernStep (inv : CoreInv noLocking allowed state)
    (stepped : kernStep state label = some next)
    (nests : NestsAllowed noSub noLocking allowed state label) : CoreInv noLocking allowed next :=
  inv.step noLaws stepped (fun _ _ _ subAct => subAct.elim) nests

/-- Clock and process table do not deadlock on one processor, nor if no `fork` copies its
process, nor if the clock does not tick and nobody sleeps on it. -/
theorem clock_table_no_deadlock (run : Run kernStep (boot ncpu freePages ()) trace state)
    (oneOrder : ncpu ≤ 1 ∨ (trace.All fun before label => forks before label = false) ∨
      trace.All fun before label => clockSwitches before label = false) :
    ¬state.Deadlock .ptable .tickslock := by
  rcases oneOrder with single | none | still
  · rintro ⟨left, right, different, _⟩
    apply different
    ext
    omega
  · have inv : CoreInv noLocking (AllBut .ptable .tickslock) state := by
      refine Run.stateInvariant (CoreInv noLocking (AllBut .ptable .tickslock)) coreInv_boot ?_ run
        none
      intro before label after inv noneStep stepped
      exact inv.kernStep stepped (nestsAllowed_of_forks noneStep)
    exact inv.tracked.not_deadlock_of_allBut.1
  · have inv : CoreInv noLocking (AllBut .tickslock .ptable) state := by
      refine Run.stateInvariant (CoreInv noLocking (AllBut .tickslock .ptable)) coreInv_boot ?_ run
        still
      intro before label after inv stillStep stepped
      exact inv.kernStep stepped (nestsAllowed_of_clock stillStep)
    exact inv.tracked.not_deadlock_of_allBut.2

/-- On the second processor init forks and is about to read the clock; on the first one the
clock interrupt has begun. -/
def forkDuringTick : List (KernLabel 2) :=
  [dispatch 1 0, go 1 1, call 1 .fork 7, [.intr 0 .timer, .run 0 0]].flatten

theorem fork_before_tick_no_deadlock : ∃ trace state,
    Run kernStep (boot 2 [1] ()) trace state ∧ state.owner .tickslock = some 0 ∧
      state.owner .ptable = some 1 ∧ state.SpinsFor 1 .tickslock ∧
      ¬state.Deadlock .ptable .tickslock := by
  obtain ⟨trace, state, run, still, ticksOwned, ptableOwned, forking⟩ :
      ∃ trace state, Run kernStep (boot 2 [1] ()) trace state ∧
      Trace.All (fun state label => clockSwitches state label = false) trace ∧
      state.owner .tickslock = some 0 ∧ state.owner .ptable = some 1 ∧
      ∃ rest, state.running 1 = .acquire .tickslock :: rest :=
    exists_run forkDuringTick (by decide +kernel)
  refine ⟨trace, state, run, ticksOwned, ptableOwned, ⟨forking, by simp [ticksOwned]⟩, ?_⟩
  exact clock_table_no_deadlock run (Or.inr (Or.inr still))

-- The clock ticks.
theorem tick_during_fork_deadlock : ∃ trace state,
    Run kernStep (boot 2 [1] ()) trace state ∧ state.Deadlock .ptable .tickslock := by
  obtain ⟨trace, state, run, ptableOwned, forking, ticksOwned, waking⟩ :
      ∃ trace state, Run kernStep (boot 2 [1] ()) trace state ∧
      state.owner .ptable = some 1 ∧ (∃ rest, state.running 1 = .acquire .tickslock :: rest) ∧
      state.owner .tickslock = some 0 ∧ ∃ rest, state.running 0 = .acquire .ptable :: rest :=
    exists_run (forkDuringTick ++ [.run 0 0]) (by decide +kernel)
  exact ⟨trace, state, run, 1, 0, by decide, ptableOwned, ⟨forking, by simp [ticksOwned]⟩,
    ticksOwned, ⟨waking, by simp [ptableOwned]⟩⟩

end Xv6
