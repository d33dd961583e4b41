import Xv6.Semaphore.Order
import Xv6.Semaphore.Wakeup

/-!
# Priorities

A release wakes a waiter of the highest priority, as long as the sort has put every
newcomer into its place. It does so unless the queue with the newcomer wraps round the
ring. To see it go wrong takes a queue that has moved to the end of the array: a process
that waits and is released nine times.
-/

namespace Xv6

open ExchangeSort Threads Transition

variable {ncpu : ℕ} {freePages : List ℕ} {values : SemId → ℤ} {state before after : SemMachine ncpu}
  {label : SemLabel ncpu} {trace : Trace (SemMachine ncpu) (SemLabel ncpu)} {sem : SemId}

instance (code : SemCode) : Decidable (Sleeps sem code) :=
  inferInstanceAs (Decidable (_ ∈ code))

instance (slot : Slot) : Decidable (Waits state sem slot) :=
  inferInstanceAs (Decidable (Sleeps sem (state.code (.proc slot)) ∨
    ((state.shared.proc slot).state = .sleeping ∧ (state.shared.proc slot).chan = some (.sem sem))))

/-- The step leaves the priorities of the waiters as they are. -/
def fixesPriorities (sem : SemId) (state : SemMachine ncpu) (label : SemLabel ncpu) : Bool :=
  (semStep state label).all fun next =>
    decide (∀ slot, Waits state sem slot → next.shared.priority slot = state.shared.priority slot)

/-- If the step queues a process, the queue with it does not wrap round the ring, or no waiter
has a lower priority. -/
def sortsIn (sem : SemId) (state : SemMachine ncpu) (label : SemLabel ncpu) : Bool :=
  match semOp state label sem with
  | some (.acquire curproc) =>
      0 ≤ (state.shared.sem sem).value - 1 ||
        (state.shared.sem sem).wfirst < ((state.shared.sem sem).wlast + 1) % NPROC ||
        decide (∀ slot, Waits state sem slot →
          state.shared.priority curproc ≤ state.shared.priority slot)
  | _ => true

theorem head_of_acquire {thread : Thread ncpu} {code : SemCode} {curproc : Slot}
    (isOp : opOf sem thread code = some (.acquire curproc)) :
    ∃ rest, code = semAct (.acquireBody sem) :: rest := by
  unfold opOf at isOp
  split at isOp
  case h_1 rest =>
    split at isOp
    · simp only [Option.ite_none_right_eq_some] at isOp
      rcases isOp with ⟨rfl, _⟩
      exact ⟨rest, rfl⟩
    · contradiction
  all_goals simp at isOp

theorem priority_of_acquire {curproc : Slot} (isOp : semOp before label sem = some (.acquire curproc))
    (stepped : semStep before label = some after) :
    after.shared.priority = before.shared.priority := by
  cases Program.step_cases stepped with
  | @act cpu choice act rest outcome head executed =>
      have executed : exec semaphores act cpu (before.cur cpu) choice before.shared = some outcome :=
        executed
      simp only [semOp, head] at isOp
      rcases head_of_acquire isOp with ⟨tail, isBody⟩
      cases isBody
      rcases exec_sub executed with ⟨result, ran, rfl⟩
      generalize before.cur cpu = thread at ran
      cases semExec_cases ran with
      | pass | block => rfl
  | acquire | release | call | intr => rfl

theorem priority_of_waits (fixes : fixesPriorities sem before label = true)
    (stepped : semStep before label = some after)
    (does : (view before sem).Does before.shared.priority (semOp before label sem) (view after sem))
    {slot : Slot} (waits : slot ∈ (view after sem).waits) :
    after.shared.priority slot = before.shared.priority slot := by
  simp only [fixesPriorities, stepped, Option.all_some, decide_eq_true_eq] at fixes
  rcases does.cases with ⟨_, same⟩ | ⟨op, isOp, does⟩
  · rw [same] at waits
    exact fixes slot waits
  · rcases does.waits_subset waits with waited | rfl
    · exact fixes slot waited
    · rw [priority_of_acquire isOp stepped]

theorem in_order_of_sortsIn {curproc : Slot} (sorts : sortsIn sem before label = true)
    (isOp : semOp before label sem = some (.acquire curproc))
    (negative : (view before sem).sem.value - 1 < 0) :
    (view before sem).sem.wfirst < ((view before sem).sem.wlast + 1) % NPROC ∨
      ∀ other ∈ (view before sem).waits,
        before.shared.priority curproc ≤ before.shared.priority other := by
  have blocks : ¬0 ≤ (before.shared.sem sem).value - 1 := not_le.mpr negative
  simp only [sortsIn, isOp, blocks, decide_false, Bool.false_or, Bool.or_eq_true,
    decide_eq_true_eq] at sorts
  exact sorts

theorem ordered_of_run (positive : 0 ≤ values sem)
    (run : Run semStep (semBoot ncpu freePages values) trace state)
    (safe : trace.All fun before label => killsWaiter before label = false)
    (fixes : trace.All fun before label => fixesPriorities sem before label = true)
    (sorts : trace.All fun before label => sortsIn sem before label = true) :
    ∃ queue, (view state sem).Exact queue ∧
      (view state sem).Ordered state.shared.priority queue := by
  refine view_invariant sem (fun _ state => ∃ queue, (view state sem).Exact queue ∧
    (view state sem).Ordered state.shared.priority queue) ⟨[], ?_, ?_⟩ ?_ run safe (fixes.and sorts)
  · rw [view_boot]
    exact SemView.exact_init positive
  · rw [view_boot]
    exact .of_descending List.Pairwise.nil (by simp) (by simp)
  · rintro trace before label after ⟨queue, exact, ordered⟩ sound ⟨fixesStep, sortsStep⟩ stepped does
    rcases ordered.does sound exact does fun curproc isOp =>
      in_order_of_sortsIn sortsStep isOp with ⟨queueAfter, exactAfter, orderedAfter⟩
    refine ⟨queueAfter, exactAfter, orderedAfter.congr exactAfter ?_⟩
    intro slot waits
    exact priority_of_waits fixesStep stepped does waits

/-- A release wakes a waiter of the highest priority. -/
theorem release_wakes_highest (positive : 0 ≤ values sem)
    (run : Run semStep (semBoot ncpu freePages values) trace state)
    (safe : trace.All fun before label => killsWaiter before label = false)
    (fixes : trace.All fun before label => fixesPriorities sem before label = true)
    (sorts : trace.All fun before label => sortsIn sem before label = true)
    {cpu : Fin ncpu} {target : Option Slot}
    (head : state.running cpu = semAct (.wakeupproc target) :: .release .ptable :: afterWake sem) :
    ∃ slot, target = some slot ∧ ∀ other, Waits state sem other →
      state.shared.priority other ≤ state.shared.priority slot := by
  have inv := semInv_of_run run safe
  have isAt : At sem (state.running cpu) (.called target) := head ▸ .called
  rcases exists_target positive run safe isAt with ⟨slot, rfl⟩
  rcases ordered_of_run positive run safe fixes sorts with ⟨queue, exact, ordered⟩
  refine ⟨slot, rfl, ?_⟩
  intro other waits
  exact ordered.called (inv.sound sem) exact (inv.stage_of_at isAt).2 waits

/-- No waiter is killed, and none changes its priority. -/
def undisturbed (trace : Trace (SemMachine 1) (SemLabel 1)) : Bool :=
  trace.all fun entry => !killsWaiter entry.1 entry.2 && fixesPriorities 0 entry.1 entry.2

theorem safe_of_undisturbed {trace : Trace (SemMachine 1) (SemLabel 1)}
    (quiet : undisturbed trace = true) :
    trace.All fun before label => killsWaiter before label = false := by
  intro entry entry_mem
  have ok := List.all_eq_true.mp quiet entry entry_mem
  simp only [Bool.and_eq_true, Bool.not_eq_true'] at ok
  exact ok.1

theorem fixes_of_undisturbed {trace : Trace (SemMachine 1) (SemLabel 1)}
    (quiet : undisturbed trace = true) :
    trace.All fun before label => fixesPriorities 0 before label = true := by
  intro entry entry_mem
  have ok := List.all_eq_true.mp quiet entry entry_mem
  simp only [Bool.and_eq_true] at ok
  exact ok.2

/-- Two children of init wait, the second with the higher priority, and init releases. -/
def higherWaits : List (SemLabel 1) :=
  [dispatch 0 0, go 0 1, call 0 .fork 15, call 0 .fork 15, call 0 (.setBjfPriority 3 5) 3,
    preempt 0,
    dispatch 0 1, go 0 1, call 0 (.sub (.semAcquire 0)) 63,
    dispatch 0 2, go 0 1, call 0 (.sub (.semAcquire 0)) 70,
    dispatch 0 0, go 0 2, call 0 (.sub (.semRelease 0)) 3].flatten

theorem higher_child_woken : ∃ trace state,
    Run semStep (semBoot 1 [1, 2] fun _ => 0) trace state ∧
      state.running 0 = semAct (.wakeupproc (some 2)) :: .release .ptable :: afterWake 0 ∧
      Waits state 0 1 ∧ state.shared.priority 1 ≤ state.shared.priority 2 := by
  obtain ⟨trace, state, run, quiet, sorts, head, waits⟩ :
      ∃ trace state, Run semStep (semBoot 1 [1, 2] fun _ => 0) trace state ∧
      undisturbed trace = true ∧ (trace.All fun before label => sortsIn 0 before label = true) ∧
      state.running 0 = semAct (.wakeupproc (some 2)) :: .release .ptable :: afterWake 0 ∧
      Waits state 0 1 :=
    exists_run higherWaits (by decide +kernel)
  rcases release_wakes_highest (le_refl 0) run (safe_of_undisturbed quiet)
    (fixes_of_undisturbed quiet) sorts head with ⟨slot, isSlot, highest⟩
  cases isSlot
  exact ⟨trace, state, run, head, waits, highest 1 waits⟩

section Wrap

theorem waiting_outside (run : Run semStep (semBoot ncpu freePages values) trace state)
    (safe : trace.All fun before label => killsWaiter before label = false)
    {index : ℕ} (outside : NPROC ≤ index) : (state.shared.sem sem).waiting index = none := by
  refine view_invariant sem (fun _ state => (state.shared.sem sem).waiting index = none) rfl ?_ run
    safe (Trace.all_true trace)
  intro trace before label after empty sound _ _ does
  rcases does.cases with ⟨_, same⟩ | ⟨op, _, does⟩
  · show (view after sem).sem.waiting index = none
    rw [same]
    exact empty
  · exact (does.waiting_outside sound outside).trans empty

theorem owner_of_enabled {state : SemMachine 1} {trace : Trace (SemMachine 1) (SemLabel 1)}
    (run : Run semStep (semBoot 1 freePages values) trace state)
    (safe : trace.All fun before label => killsWaiter before label = false)
    (enabled : state.ncli 0 = 0) (lock : Lock) : state.owner lock = none := by
  rcases (semInv_of_run run safe).core.tracked.current 0 with ⟨held, holds, _⟩
  cases owned : state.owner lock with
  | none => rfl
  | some cpu =>
      rw [Fin.fin_one_eq_zero cpu, ← holds.mem, holds.eq_empty enabled] at owned
      simp at owned

/-- Two machines agree in the entries of their tables and in their variables. -/
def Agree (left right : SemMachine 1) : Prop :=
  ((∀ slot, left.shared.proc slot = right.shared.proc slot) ∧
    left.shared.initproc = right.shared.initproc ∧ left.shared.nextpid = right.shared.nextpid ∧
    left.shared.ticks = right.shared.ticks ∧ left.shared.freePages = right.shared.freePages) ∧
  (left.shared.sub.input = right.shared.sub.input ∧
    ∀ sem, (left.shared.sem sem).value = (right.shared.sem sem).value ∧
      (left.shared.sem sem).wfirst = (right.shared.sem sem).wfirst ∧
      (left.shared.sem sem).wlast = (right.shared.sem sem).wlast ∧
      ∀ index < NPROC, (left.shared.sem sem).waiting index = (right.shared.sem sem).waiting index) ∧
  ((∀ slot, left.code (.proc slot) = right.code (.proc slot)) ∧
    left.code (.scheduler 0) = right.code (.scheduler 0) ∧
    left.ncli 0 = right.ncli 0 ∧ left.cur 0 = right.cur 0)

instance (left right : SemMachine 1) : Decidable (Agree left right) := by
  unfold Agree
  infer_instance

theorem eq_of_agree {state other : SemMachine 1} {trace : Trace (SemMachine 1) (SemLabel 1)}
    (run : Run semStep (semBoot 1 freePages values) trace state)
    (safe : trace.All fun before label => killsWaiter before label = false)
    (agree : Agree state other) (enabled : other.ncli 0 = 0) (free : ∀ lock, other.owner lock = none)
    (outside : ∀ sem index, NPROC ≤ index → (other.shared.sem sem).waiting index = none) :
    state = other := by
  rcases agree with ⟨⟨procs, globals⟩, ⟨input, semsAgree⟩, codes, scheduler, ncliAgree, curAgree⟩
  have owner : state.owner = other.owner := by
    funext lock
    rw [owner_of_enabled run safe (ncliAgree.trans enabled), free]
  have ncli : state.ncli = other.ncli := by
    funext cpu
    rw [Fin.fin_one_eq_zero cpu, ncliAgree]
  have cur : state.cur = other.cur := by
    funext cpu
    rw [Fin.fin_one_eq_zero cpu, curAgree]
  have code : state.code = other.code := by
    funext thread
    cases thread with
    | proc slot => exact codes slot
    | scheduler cpu =>
        rw [Fin.fin_one_eq_zero cpu]
        exact scheduler
  have sems : state.shared.sub.sems = other.shared.sub.sems := by
    funext sem
    rcases semsAgree sem with ⟨value, wfirst, wlast, inArray⟩
    have waiting : (state.shared.sem sem).waiting = (other.shared.sem sem).waiting := by
      funext index
      by_cases inside : index < NPROC
      · exact inArray index inside
      · rw [waiting_outside run safe (not_lt.mp inside), outside sem index (not_lt.mp inside)]
    exact Sem.ext value waiting wfirst wlast
  have proc : state.shared.proc = other.shared.proc := funext procs
  rcases state with ⟨⟨_, _, _, _, _, ⟨_, _⟩⟩, _, _, _, _⟩
  rcases other with ⟨⟨_, _, _, _, _, ⟨_, _⟩⟩, _, _, _, _⟩
  simp_all

/-- A child of init waits, and init releases it. -/
def waitRound (resume steps : ℕ) : List (SemLabel 1) :=
  [dispatch 0 1, go 0 resume, call 0 (.sub (.semAcquire 0)) steps,
    dispatch 0 0, go 0 2, call 0 (.sub (.semRelease 0)) 7, preempt 0].flatten

/-- The child has waited and has been released, the last time with index `place`. -/
def roundsDone (place : ℕ) : SemMachine 1 where
  shared :=
    { proc := fun slot =>
        if slot = 0 then
          { bootProc 0 with
            scheduleStatus := { (bootProc 0).scheduleStatus with executedCycle := place + 2 } }
        else if slot = 1 then
          { Proc.empty with
            state := .runnable
            pid := 2
            parent := some 0
            chan := some (.sem 0)
            kstack := some 1
            scheduleStatus :=
              { SchedStat.fresh with queueId := LCFS, place, executedCycle := place + 1 } }
        else .empty
      initproc := 0
      nextpid := 3
      ticks := 0
      freePages := [2]
      sub :=
        { sems := fun sem =>
            if sem = 0 then
              { value := 0, waiting := fun _ => none, wfirst := place + 1, wlast := place + 1 }
            else .init 0
          input := ⟨0, 0, 0⟩ } }
  owner := fun _ => none
  ncli := fun _ => 0
  code := fun thread =>
    match thread with
    | .proc slot =>
        if slot = 0 then [.release .ptable, .act .iret]
        else if slot = 1 then wakeTail 0
        else [.act .zombieExit]
    | .scheduler _ => scheduler
  cur := .scheduler

theorem round_moves : ∀ place < 8,
    (follow semStep [] (roundsDone place) (waitRound 4 (55 + 4 * place))).any (fun result =>
      undisturbed result.1 && decide (Agree result.2 (roundsDone (place + 1)))) = true := by
  decide +kernel

theorem exists_rounds {place : ℕ} (few : place < 9) : ∃ trace,
    Run semStep (semBoot 1 [1, 2] fun _ => 0) trace (roundsDone place) ∧
      undisturbed trace = true := by
  have outside : ∀ place sem index, NPROC ≤ index →
      ((roundsDone place).shared.sem sem).waiting index = none := by
    intro place sem index _
    simp only [roundsDone, Kern.sem]
    split <;> rfl
  induction place with
  | zero =>
      obtain ⟨trace, state, run, quiet, agree⟩ :
          ∃ trace state, Run semStep (semBoot 1 [1, 2] fun _ => 0) trace state ∧
          undisturbed trace = true ∧ Agree state (roundsDone 0) :=
        exists_run [dispatch 0 0, go 0 1, call 0 .fork 15, preempt 0, waitRound 1 51].flatten
          (by decide +kernel)
      have same := eq_of_agree run (safe_of_undisturbed quiet) agree rfl (fun _ => rfl) (outside 0)
      exact ⟨trace, same ▸ run, quiet⟩
  | succ place ih =>
      rcases ih (by omega) with ⟨trace, run, quiet⟩
      rcases run.exists_later (round_moves place (by omega)) with ⟨later, state, runLater, checked⟩
      simp only [Bool.and_eq_true, decide_eq_true_eq] at checked
      have quietLater : undisturbed (later ++ trace) = true := by
        rw [undisturbed, List.all_append, Bool.and_eq_true]
        exact ⟨checked.1, quiet⟩
      have same := eq_of_agree runLater (safe_of_undisturbed quietLater) checked.2 rfl (fun _ => rfl)
        (outside (place + 1))
      exact ⟨later ++ trace, same ▸ runLater, quietLater⟩

/-- With the queue at the end of the array, init forks a second child and gives it a higher
priority. The first child waits, then the second, then init releases. -/
def tailWraps : List (SemLabel 1) :=
  [dispatch 0 0, go 0 2, call 0 .fork 15, call 0 (.setBjfPriority 3 5) 3, preempt 0,
    dispatch 0 1, go 0 4, call 0 (.sub (.semAcquire 0)) 59,
    dispatch 0 2, go 0 1, call 0 (.sub (.semAcquire 0)) 63,
    dispatch 0 0, go 0 2, call 0 (.sub (.semRelease 0)) 3].flatten

theorem tailWraps_wakeupproc : (follow semStep [] (roundsDone 8) tailWraps).any (fun result =>
    undisturbed result.1 &&
      (result.2.running 0 = semAct (.wakeupproc (some 1)) :: .release .ptable :: afterWake 0 ∧
        Waits result.2 0 2 ∧ result.2.shared.priority 1 < result.2.shared.priority 2 : Bool)) =
      true := by
  decide +kernel

theorem lower_child_woken : ∃ trace state,
    Run semStep (semBoot 1 [1, 2] fun _ => 0) trace state ∧
      (trace.All fun before label => killsWaiter before label = false) ∧
      (trace.All fun before label => fixesPriorities 0 before label = true) ∧
      state.running 0 = semAct (.wakeupproc (some 1)) :: .release .ptable :: afterWake 0 ∧
      Waits state 0 2 ∧ state.shared.priority 1 < state.shared.priority 2 := by
  rcases exists_rounds (by decide : 8 < 9) with ⟨trace, run, quiet⟩
  rcases run.exists_later tailWraps_wakeupproc with ⟨later, state, runLater, checked⟩
  simp only [Bool.and_eq_true, decide_eq_true_eq] at checked
  rcases checked with ⟨quietLater, head, waits, lower⟩
  have quietAll : undisturbed (later ++ trace) = true := by
    rw [undisturbed, List.all_append, Bool.and_eq_true]
    exact ⟨quietLater, quiet⟩
  exact ⟨later ++ trace, state, runLater, safe_of_undisturbed quietAll,
    fixes_of_undisturbed quietAll, head, waits, lower⟩

end Wrap

end Xv6
