import Xv6.Kernel.Idle
import Xv6.Semaphore.Refinement

/-!
# Whom a release wakes up

`wakeupproc` stores `RUNNABLE` without looking at the process. That is harmless as long as
the process it is given sleeps in `semaphore_acquire`, which is so if `kill` never takes a
process out of this sleep: `kill` leaves the process in the ring, and when it has exited,
the next release makes its slot runnable, whatever has become of it.
-/

namespace Xv6

open Threads Transition

variable {ncpu : ℕ} {freePages : List ℕ} {values : SemId → ℤ} {state : SemMachine ncpu}
  {trace : Trace (SemMachine ncpu) (SemLabel ncpu)}

/-- The process sleeps in `semaphore_acquire` on this semaphore: when it wakes up, it leaves
`sleep` and the function. -/
structure SleepsInAcquire (state : SemMachine ncpu) (sem : SemId) (slot : Slot) : Prop where
  sleeping : (state.shared.proc slot).state = .sleeping
  chan : (state.shared.proc slot).chan = some (.sem sem)
  code : state.code (.proc slot) = wakeTail sem

theorem exists_target {cpu : Fin ncpu} {sem : SemId} {target : Option Slot}
    (positive : 0 ≤ values sem) (run : Run semStep (semBoot ncpu freePages values) trace state)
    (safe : trace.All fun before label => killsWaiter before label = false)
    (isAt : At sem (state.running cpu) (.called target)) : ∃ slot, target = some slot := by
  have inv := semInv_of_run run safe
  rcases exact_of_run positive run safe with ⟨queue, exact⟩
  have stage := (inv.stage_of_at isAt).2
  have length := exact.length
  simp only [stage, Stage.pending] at length
  have headIs := ((inv.sound sem).called target stage).trans exact.ring.head
  cases queue with
  | nil =>
      simp only [List.length_nil] at length
      omega
  | cons head rest => exact ⟨head, headIs⟩

theorem wakeupproc_wakes_waiter (positive : ∀ sem, 0 ≤ values sem)
    (run : Run semStep (semBoot ncpu freePages values) trace state)
    (safe : trace.All fun before label => killsWaiter before label = false)
    {cpu : Fin ncpu} {target : Option Slot} {rest : SemCode}
    (head : state.running cpu = semAct (.wakeupproc target) :: rest) :
    ∃ slot sem, target = some slot ∧ SleepsInAcquire state sem slot ∧
      rest = [.release .ptable, semAct (.dequeue sem), .release (.sem sem)] ∧
      ∀ choice next other, semStep state (.run cpu choice) = some next →
        (next.shared.proc other).state = .runnable →
        (state.shared.proc other).state = .runnable ∨
          other = slot ∧ (state.shared.proc other).state = .sleeping := by
  have inv := semInv_of_run run safe
  cases inv.actPlace head with
  | foreign never | print never => exact absurd never id
  | @wakeupproc sem =>
      have isAt : At sem (state.running cpu) (.called target) := head ▸ .called
      rcases exists_target (positive sem) run safe isAt with ⟨slot, rfl⟩
      have asleep := inv.asleep_of_wake head
      refine ⟨slot, sem, rfl, ⟨asleep.1, asleep.2, inv.asleep slot sem asleep⟩, rfl, ?_⟩
      intro choice next other stepped isRunnable
      have nextIs : next.shared = state.shared.setState slot .runnable := by
        have stepIs : semStep state (.run cpu choice) = some (after state cpu
            (.release .ptable :: afterWake sem) (state.shared.setState slot .runnable, [])) := by
          simp only [semStep, Program.step, Program.runOn]
          rw [← State.running, head]
          rfl
        rw [stepIs, Option.some.injEq] at stepped
        rw [← stepped]
        rfl
      by_cases same : other = slot
      · subst other
        exact Or.inr ⟨rfl, asleep.1⟩
      · left
        rw [nextIs, Kern.setState_proc_of_ne same] at isRunnable
        exact isRunnable

theorem wakeupproc_wakes_child : ∃ trace state,
    Run semStep (semBoot 1 [1] fun _ => 0) trace state ∧
      ∃ sem, SleepsInAcquire state sem 1 := by
  obtain ⟨trace, state, run, safe, head⟩ :
      ∃ trace state, Run semStep (semBoot 1 [1] fun _ => 0) trace state ∧
      (trace.All fun before label => killsWaiter before label = false) ∧
      state.running 0 = [semAct (.wakeupproc (some 1)), .release .ptable, semAct (.dequeue 0),
        .release (.sem 0)] :=
    exists_run (childWaits ++ call 0 (.sub (.semRelease 0)) 3) (by decide +kernel)
  rcases wakeupproc_wakes_waiter (fun _ => le_refl 0) run safe head with
    ⟨slot, sem, isSlot, sleeps, _⟩
  cases isSlot
  exact ⟨trace, state, run, sem, sleeps⟩

/-- The child is killed while it waits, exits, and is reaped; then init releases. -/
def killedWaiter : List (SemLabel 1) :=
  [childWaits, call 0 (.kill 2) 3, preempt 0,
    dispatch 0 1, go 0 4, call 0 .exit 3,
    dispatch 0 0, go 0 2, call 0 .wait 3, call 0 (.sub (.semRelease 0)) 3].flatten

theorem wakeupproc_revives_unused : ∃ trace state next,
    Run semStep (semBoot 1 [1] fun _ => 0) trace state ∧
      state.running 0 = [semAct (.wakeupproc (some 1)), .release .ptable, semAct (.dequeue 0),
        .release (.sem 0)] ∧
      (state.shared.proc 1).state = .unused ∧ semStep state (.run 0 0) = some next ∧
      (next.shared.proc 1).state = .runnable := by
  obtain ⟨trace, state, run, head, unused, runs⟩ :
      ∃ trace state, Run semStep (semBoot 1 [1] fun _ => 0) trace state ∧
      state.running 0 = [semAct (.wakeupproc (some 1)), .release .ptable, semAct (.dequeue 0),
        .release (.sem 0)] ∧ (state.shared.proc 1).state = .unused ∧
      ((semStep state (.run 0 0)).any fun next => (next.shared.proc 1).state = .runnable) = true :=
    exists_run killedWaiter (by decide +kernel)
  rcases (Option.any_eq_true _ _).mp runs with ⟨next, stepped, runnable⟩
  exact ⟨trace, state, next, run, head, unused, stepped, of_decide_eq_true runnable⟩

/-- Two children exit and are reaped, the second one killed while it waits; then init releases. -/
def killedSecond : List (SemLabel 1) :=
  [dispatch 0 0, go 0 1, call 0 .fork 15, call 0 .fork 15, preempt 0,
    dispatch 0 1, go 0 1, call 0 .exit 3,
    dispatch 0 2, go 0 1, call 0 (.sub (.semAcquire 0)) 63,
    dispatch 0 0, go 0 2, call 0 (.kill 3) 3, preempt 0,
    dispatch 0 2, go 0 4, call 0 .exit 3,
    dispatch 0 0, go 0 2, call 0 .wait 3, call 0 .wait 3, call 0 (.sub (.semRelease 0)) 7].flatten

/-- The slot that has been revived has pid 0, and so has the unused one before it, which `change_queue`
moves in its place. -/
theorem ageprocs_misses_revived : ∃ trace state after,
    Run semStep (semBoot 1 [1, 2] fun _ => 0) trace state ∧ state.owner .ptable = none ∧
      state.shared.Starved 9000 2 ∧
      Leads (aloneStep semaphores 0) (inHandler state 0 (ageprocs 9000 ++ []) [] state.shared)
        (inHandler state 0 [] [] after) ∧
      after.Starved 9000 2 := by
  obtain ⟨trace, state, run, free, starved, found⟩ :
      ∃ trace state, Run semStep (semBoot 1 [1, 2] fun _ => 0) trace state ∧ state.owner .ptable = none ∧
        state.shared.Starved 9000 2 ∧
        (state.shared.find fun _ proc => proc.pid = (state.shared.proc 2).pid) = some 1 :=
    exists_run killedSecond (by decide +kernel)
  rcases @leads_ageprocs 1 _ _ _ _ _ semaphores state state.shared [] 9000 0 [] free List.not_mem_nil with
    ⟨after, leads, _, otherwise⟩
  refine ⟨trace, state, after, run, free, starved, leads, otherwise 2 starved ?_⟩
  intro first
  exact absurd (found.symm.trans first) (by decide)

end Xv6
