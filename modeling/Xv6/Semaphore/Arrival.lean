import Xv6.Semaphore.Priority

/-!
# Order of arrival among equals

Among waiters of one priority the queue keeps the order of arrival only until somebody of
a higher priority arrives. The exchange that lets the newcomer in moves the first of the
others to the end, and its equals pass it.
-/

namespace Xv6

open ExchangeSort Threads Transition

variable {ncpu : ℕ} {freePages : List ℕ} {values : SemId → ℤ} {state before after : SemMachine ncpu}
  {label : SemLabel ncpu} {trace : Trace (SemMachine ncpu) (SemLabel ncpu)} {sem : SemId}
  {first second : Slot} {meanwhile : SemMachine ncpu → Slot → Bool}

/-- `first` was queued before `second`, both have waited since then, and everybody who was
queued after them satisfies `meanwhile`. -/
def queuedBefore (sem : SemId) (meanwhile : SemMachine ncpu → Slot → Bool) (first second : Slot) :
    Trace (SemMachine ncpu) (SemLabel ncpu) → Bool
  | [] => false
  | (state, label) :: trace =>
      match semOp state label sem with
      | some (.acquire curproc) =>
          if (state.shared.sem sem).value - 1 < 0 then
            curproc = second && Waits state sem first ||
              queuedBefore sem meanwhile first second trace && meanwhile state curproc
          else queuedBefore sem meanwhile first second trace
      | some (.wake target) =>
          queuedBefore sem meanwhile first second trace && target ≠ some first &&
            target ≠ some second
      | _ => queuedBefore sem meanwhile first second trace

theorem queuedBefore_cons
    (queued : queuedBefore sem meanwhile first second ((before, label) :: trace) = true) :
    (semOp before label sem = some (.acquire second) ∧ (before.shared.sem sem).value - 1 < 0 ∧
        Waits before sem first) ∨
      (queuedBefore sem meanwhile first second trace = true ∧
        (∀ curproc, semOp before label sem = some (.acquire curproc) →
          (before.shared.sem sem).value - 1 < 0 → meanwhile before curproc = true) ∧
        semOp before label sem ≠ some (.wake (some first)) ∧
        semOp before label sem ≠ some (.wake (some second))) := by
  rw [queuedBefore] at queued
  cases isOp : semOp before label sem with
  | none =>
      rw [isOp] at queued
      exact Or.inr ⟨queued, by simp, by simp, by simp⟩
  | some op =>
      rw [isOp] at queued
      cases op with
      | acquire curproc =>
          by_cases negative : (before.shared.sem sem).value - 1 < 0
          · simp only [if_pos negative, Bool.or_eq_true, Bool.and_eq_true,
              decide_eq_true_eq] at queued
            rcases queued with ⟨rfl, waits⟩ | ⟨older, ok⟩
            · exact Or.inl ⟨rfl, negative, waits⟩
            · refine Or.inr ⟨older, ?_, by simp, by simp⟩
              rintro other same _
              cases same
              exact ok
          · simp only [if_neg negative] at queued
            exact Or.inr ⟨queued, fun _ _ absurdly => absurd absurdly negative, by simp, by simp⟩
      | wake target =>
          simp only [Bool.and_eq_true, decide_eq_true_eq] at queued
          refine Or.inr ⟨queued.1.1, by simp, ?_, ?_⟩
          · simpa using queued.1.2
          · simpa using queued.2
      | sort | place | release | dequeue => exact Or.inr ⟨queued, by simp, by simp, by simp⟩

/-- If the step queues a process, the index behind it is not 0. -/
def staysInArray (sem : SemId) (state : SemMachine ncpu) (label : SemLabel ncpu) : Bool :=
  match semOp state label sem with
  | some (.acquire _) =>
      0 ≤ (state.shared.sem sem).value - 1 || ((state.shared.sem sem).wlast + 1) % NPROC ≠ 0
  | _ => true

theorem not_zero_of_staysInArray {curproc : Slot} (stays : staysInArray sem before label = true)
    (isOp : semOp before label sem = some (.acquire curproc))
    (negative : (view before sem).sem.value - 1 < 0) :
    ((view before sem).sem.wlast + 1) % NPROC ≠ 0 := by
  have blocks : ¬0 ≤ (before.shared.sem sem).value - 1 := not_le.mpr negative
  simp only [staysInArray, isOp, blocks, decide_false, Bool.false_or, decide_eq_true_eq] at stays
  exact stays

/-- The newcomer has no higher priority than `first`. -/
def notHigher (first : Slot) (state : SemMachine ncpu) (newcomer : Slot) : Bool :=
  state.shared.priority newcomer ≤ state.shared.priority first

/-- What holds of the queue with respect to two processes. -/
structure Arranged (sem : SemId) (first second : Slot)
    (trace : Trace (SemMachine ncpu) (SemLabel ncpu)) (state : SemMachine ncpu)
    (queue : List Slot) : Prop where
  exact : (view state sem).Exact queue
  ordered : (view state sem).Ordered state.shared.priority queue
  unwrapped : (view state sem).Unwrapped
  waits : queuedBefore sem (notHigher first) first second trace = true →
    first ∈ (view state sem).waits ∧ second ∈ (view state sem).waits
  ahead : queuedBefore sem (notHigher first) first second trace = true →
    state.shared.priority second ≤ state.shared.priority first →
    Ahead state.shared.priority ((view state sem).line queue) first second

theorem waits_step
    (waited : queuedBefore sem meanwhile first second trace = true →
      first ∈ (view before sem).waits ∧ second ∈ (view before sem).waits)
    (does : (view before sem).Does before.shared.priority (semOp before label sem) (view after sem))
    (queued : queuedBefore sem meanwhile first second ((before, label) :: trace) = true) :
    first ∈ (view after sem).waits ∧ second ∈ (view after sem).waits := by
  rcases queuedBefore_cons queued with ⟨isOp, negative, waits⟩ | ⟨older, _, notFirst, notSecond⟩
  · rw [isOp] at does
    exact ⟨does.waits_keep waits (by simp), does.waits_acquire negative⟩
  · rcases waited older with ⟨firstWaits, secondWaits⟩
    rcases does.cases with ⟨_, same⟩ | ⟨op, isOp, does⟩
    · rw [same]
      exact ⟨firstWaits, secondWaits⟩
    · rw [isOp] at notFirst notSecond
      refine ⟨does.waits_keep firstWaits ?_, does.waits_keep secondWaits ?_⟩
      · rintro rfl
        exact notFirst rfl
      · rintro rfl
        exact notSecond rfl

theorem Arranged.step {queue : List Slot} (arranged : Arranged sem first second trace before queue)
    (sound : (view before sem).Sound) (fixes : fixesPriorities sem before label = true)
    (stays : staysInArray sem before label = true) (stepped : semStep before label = some after)
    (does : (view before sem).Does before.shared.priority (semOp before label sem)
      (view after sem)) :
    ∃ queueAfter, Arranged sem first second ((before, label) :: trace) after queueAfter := by
  rcases arranged with ⟨exact, ordered, unwrapped, waits, ahead⟩
  have same : ∀ slot ∈ (view after sem).waits,
      after.shared.priority slot = before.shared.priority slot :=
    fun slot => priority_of_waits fixes stepped does
  have unwrappedAfter : (view after sem).Unwrapped := by
    rcases does.cases with ⟨_, unchanged⟩ | ⟨op, isOp, does⟩
    · rw [unchanged]
      exact unwrapped
    · refine unwrapped.step sound does ?_
      rintro curproc rfl
      exact not_zero_of_staysInArray stays isOp
  have inOrder : ∀ curproc, semOp before label sem = some (.acquire curproc) →
      (view before sem).sem.value - 1 < 0 →
      (view before sem).sem.wfirst < ((view before sem).sem.wlast + 1) % NPROC := by
    intro curproc isOp negative
    rw [isOp] at does
    exact unwrapped.inOrder does.free_of_acquire (not_zero_of_staysInArray stays isOp negative) sound
  rcases ordered.does sound exact does fun curproc isOp negative =>
    Or.inl (inOrder curproc isOp negative) with ⟨queueAfter, exactAfter, orderedAfter⟩
  refine ⟨queueAfter, exactAfter, orderedAfter.congr exactAfter same, unwrappedAfter,
    waits_step waits does, ?_⟩
  intro queued notHigherAfter
  rcases waits_step waits does queued with ⟨firstWaits, secondWaits⟩
  rw [same first firstWaits, same second secondWaits] at notHigherAfter
  have aheadBefore : Ahead before.shared.priority ((view after sem).line queueAfter) first second := by
    rcases queuedBefore_cons queued with ⟨isOp, negative, waitsBefore⟩ | ⟨older, ok, notFirst, _⟩
    · rw [isOp] at does
      exact ordered.ahead_join sound exact exactAfter does negative waitsBefore notHigherAfter
    · refine ordered.ahead_does sound exact exactAfter does (ahead older notHigherAfter) ?_ notFirst
      intro curproc isOp negative
      exact of_decide_eq_true (ok curproc isOp negative)
  apply aheadBefore.congr
  intro slot inLine
  exact same slot (exactAfter.mem_line.mp inLine)

/-- Of two waiters with one priority, the one queued first is woken first, provided that nobody
of a higher priority is queued while both wait. -/
theorem equals_woken_in_order (positive : 0 ≤ values sem)
    (run : Run semStep (semBoot ncpu freePages values) trace state)
    (safe : trace.All fun before label => killsWaiter before label = false)
    (fixes : trace.All fun before label => fixesPriorities sem before label = true)
    (stays : trace.All fun before label => staysInArray sem before label = true)
    (queued : queuedBefore sem (notHigher first) first second trace = true)
    (equal : state.shared.priority first = state.shared.priority second)
    {cpu : Fin ncpu} {target : Option Slot}
    (head : state.running cpu = semAct (.wakeupproc target) :: .release .ptable :: afterWake sem) :
    target ≠ some second := by
  have inv := semInv_of_run run safe
  have arranged : ∃ queue, Arranged sem first second trace state queue := by
    refine view_invariant sem
      (fun trace state => ∃ queue, Arranged sem first second trace state queue)
      ⟨[], ?_, ?_, ?_, by simp [queuedBefore], by simp [queuedBefore]⟩ ?_ run safe (fixes.and stays)
    · rw [view_boot]
      exact SemView.exact_init positive
    · rw [view_boot]
      exact .of_descending List.Pairwise.nil (by simp) (by simp)
    · rw [view_boot]
      simp [SemView.Unwrapped, Sem.init, Stage.pending, positive]
    · rintro trace before label after ⟨queue, arranged⟩ sound ⟨fixesStep, staysStep⟩ stepped does
      exact arranged.step sound fixesStep staysStep stepped does
  rcases arranged with ⟨queue, arranged⟩
  have isAt : At sem (state.running cpu) (.called target) := head ▸ .called
  have called := (inv.stage_of_at isAt).2
  have ahead := arranged.ahead queued equal.symm.le
  rw [SemView.line_of_ne (by simp [called])] at ahead
  rw [(inv.sound sem).called target called, arranged.exact.ring.head]
  exact ahead.not_head arranged.exact.nodup

/-- Two children of init wait, and init releases. -/
def equalsWait : List (SemLabel 1) :=
  [dispatch 0 0, go 0 1, call 0 .fork 15, call 0 .fork 15, preempt 0,
    dispatch 0 1, go 0 1, call 0 (.sub (.semAcquire 0)) 63,
    dispatch 0 2, go 0 1, call 0 (.sub (.semAcquire 0)) 70,
    dispatch 0 0, go 0 2, call 0 (.sub (.semRelease 0)) 3].flatten

/-- The run meets the assumptions on the semaphore. -/
def regular (trace : Trace (SemMachine 1) (SemLabel 1)) : Bool :=
  undisturbed trace && trace.all fun entry => staysInArray 0 entry.1 entry.2

theorem second_child_not_woken : ∃ trace state target,
    Run semStep (semBoot 1 [1, 2] fun _ => 0) trace state ∧
      queuedBefore 0 (notHigher 1) 1 2 trace = true ∧
      state.running 0 = semAct (.wakeupproc target) :: .release .ptable :: afterWake 0 ∧
      target ≠ some 2 := by
  obtain ⟨trace, state, run, quiet, stays, queued, equal, head⟩ :
      ∃ trace state, Run semStep (semBoot 1 [1, 2] fun _ => 0) trace state ∧
      undisturbed trace = true ∧ (trace.All fun before label => staysInArray 0 before label = true) ∧
      queuedBefore 0 (notHigher 1) 1 2 trace = true ∧
      state.shared.priority 1 = state.shared.priority 2 ∧
      state.running 0 = semAct (.wakeupproc (some 1)) :: .release .ptable :: afterWake 0 :=
    exists_run equalsWait (by decide +kernel)
  refine ⟨trace, state, some 1, run, queued, head, ?_⟩
  exact equals_woken_in_order (le_refl 0) run (safe_of_undisturbed quiet)
    (fixes_of_undisturbed quiet) stays queued equal head

/-- Two children of init wait, then a third one of a higher priority. The second release does
not wake the first child. -/
def higherArrives : List (SemLabel 1) :=
  [dispatch 0 0, go 0 1, call 0 .fork 15, call 0 .fork 15, call 0 .fork 15,
    call 0 (.setBjfPriority 4 5) 3, preempt 0,
    dispatch 0 1, go 0 1, call 0 (.sub (.semAcquire 0)) 75,
    dispatch 0 2, go 0 1, call 0 (.sub (.semAcquire 0)) 82,
    dispatch 0 3, go 0 1, call 0 (.sub (.semAcquire 0)) 90,
    dispatch 0 0, go 0 2, call 0 (.sub (.semRelease 0)) 7, call 0 (.sub (.semRelease 0)) 3].flatten

/-- A release that has nobody to wake moves the head of the queue past its tail; then two
children wait. -/
def headPassesTail : List (SemLabel 1) :=
  [dispatch 0 0, go 0 1, call 0 .fork 15, call 0 .fork 15, call 0 (.sub (.semRelease 0)) 7,
    preempt 0,
    dispatch 0 1, go 0 1, call 0 (.sub (.semAcquire 0)) 63,
    dispatch 0 2, go 0 1, call 0 (.sub (.semAcquire 0)) 67,
    dispatch 0 0, go 0 2, call 0 (.sub (.semRelease 0)) 3].flatten

/-- Without the provision, and for a semaphore that starts with a negative value, the one
queued second may be woken first. -/
theorem second_child_woken :
    (∃ trace state, Run semStep (semBoot 1 [1, 2, 3] fun _ => 0) trace state ∧
      regular trace = true ∧ queuedBefore 0 (fun _ _ => true) 1 2 trace = true ∧
      state.shared.priority 1 = state.shared.priority 2 ∧
      state.running 0 = semAct (.wakeupproc (some 2)) :: .release .ptable :: afterWake 0) ∧
    (∃ trace state, Run semStep (semBoot 1 [1, 2] fun _ => -1) trace state ∧
      regular trace = true ∧ queuedBefore 0 (notHigher 1) 1 2 trace = true ∧
      state.shared.priority 1 = state.shared.priority 2 ∧
      state.running 0 = semAct (.wakeupproc (some 2)) :: .release .ptable :: afterWake 0) :=
  ⟨exists_run higherArrives (by decide +kernel), exists_run headPassesTail (by decide +kernel)⟩

end Xv6
