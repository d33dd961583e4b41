import Xv6.Semaphore.Refinement

/-!
# The entries that `semaphore_acquire` dereferences

The sort compares entries from `wfirst` on, which are occupied. The loop that stores the
places starts at 0 instead. The entries below `wfirst` have been cleared by earlier
releases, so the loop meets null pointers as soon as the queue has moved away from 0 and
has not wrapped round.
-/

namespace Xv6

open Threads Transition

variable {ncpu : ℕ} {freePages : List ℕ} {values : SemId → ℤ} {state : SemMachine ncpu}
  {trace : Trace (SemMachine ncpu) (SemLabel ncpu)} {sem : SemId}

namespace SemView

variable {view next : SemView} {priority : Slot → ℤ} {op : SemOp} {queue : List Slot}

/-- The loop over the places covers occupied entries only. -/
def Covers (view : SemView) : Prop := view.sem.wfirst = 0 ∨ view.sem.wlast ≤ view.sem.wfirst

/-- What holds of the ring while `semaphore_acquire` works on it. -/
structure Live (view : SemView) : Prop where
  waiting : ∀ i, view.stage = .sorting i ∨ view.stage = .placing i ∨ view.stage = .storing i →
    view.sem.value < 0 ∧ view.Covers
  sorting : ∀ i, view.stage = .sorting i → view.sem.wfirst ≤ i
  comparing : ∀ i j, view.stage = .comparing i j →
    view.sem.value < 0 ∧ view.Covers ∧ view.sem.wfirst ≤ i
  storing : ∀ i, view.stage = .storing i → i < view.sem.wlast

theorem Live.step (live : Live view) (stepped : Step priority view op next)
    (covers : ∀ curproc, op = .acquire curproc → view.sem.value - 1 < 0 →
      view.sem.wfirst = 0 ∨ (view.sem.wlast + 1) % NPROC ≤ view.sem.wfirst) : Live next := by
  cases stepped with
  | pass free | count free => constructor <;> simp [free]
  | @block curproc free negative fresh =>
      refine ⟨?_, ?_, by simp, by simp⟩
      · exact fun _ _ => ⟨negative, covers curproc rfl negative⟩
      · intro i same
        cases same
        exact le_refl _
  | @row i sorting more =>
      refine ⟨by simp, by simp, ?_, by simp⟩
      intro left right same
      cases same
      rcases live.waiting i (Or.inl sorting) with ⟨negative, covered⟩
      exact ⟨negative, covered, live.sorting i sorting⟩
  | @sorted i sorting done =>
      refine ⟨fun _ _ => live.waiting i (Or.inl sorting), by simp, by simp, by simp⟩
  | @compare i j left right comparing inside leftIs rightIs =>
      have before := live.comparing i j comparing
      refine ⟨by simp, by simp, ?_, by simp⟩
      intro left' right' same
      cases same
      simp only [Covers]
      split <;> exact before
  | @rowDone i j comparing done =>
      rcases live.comparing i j comparing with ⟨negative, covered, behind⟩
      refine ⟨fun _ _ => ⟨negative, covered⟩, ?_, by simp, by simp⟩
      intro left same
      cases same
      exact Nat.le_succ_of_le behind
  | @placeNext i placing more =>
      refine ⟨fun _ _ => live.waiting i (Or.inr (Or.inl placing)), by simp, by simp, ?_⟩
      intro left same
      cases same
      exact more
  | placed | grant | wake | dequeue => constructor <;> simp
  | @store i storing =>
      refine ⟨fun _ _ => live.waiting i (Or.inr (Or.inr storing)), by simp, by simp, by simp⟩

theorem Sound.waiter {index : ℕ} {slot : Slot} (sound : Sound view) (indexLt : index < NPROC)
    (entry : view.sem.waiting index = some slot) (notGranted : view.stage ≠ .granted) :
    slot ∈ view.waits := by
  rcases sound.cell index slot indexLt entry with waits | ⟨_, granted⟩
  · exact waits
  · exact absurd granted notGranted

theorem Live.compared {i j : ℕ} (live : Live view) (sound : Sound view) (exact : Exact view queue)
    (comparing : view.stage = .comparing i j) (inside : j < view.sem.wlast) :
    ∃ left right, view.sem.waiting i = some left ∧ view.sem.waiting j = some right ∧
      left ∈ view.waits ∧ right ∈ view.waits := by
  have before := sound.comparing i j comparing
  have behind := (live.comparing i j comparing).2.2
  have lastLt := sound.last_lt
  rcases exact.ring.cell_between behind (before.trans inside) with ⟨left, leftIs⟩
  rcases exact.ring.cell_between (behind.trans before.le) inside with ⟨right, rightIs⟩
  refine ⟨left, right, leftIs, rightIs, ?_, ?_⟩
  · exact sound.waiter (by omega) leftIs (by simp [comparing])
  · exact sound.waiter (by omega) rightIs (by simp [comparing])

theorem Live.stored {i : ℕ} (live : Live view) (sound : Sound view) (exact : Exact view queue)
    (storing : view.stage = .storing i) :
    ∃ slot, view.sem.waiting i = some slot ∧ slot ∈ view.waits := by
  rcases live.waiting i (Or.inr (Or.inr storing)) with ⟨negative, covered⟩
  have beforeLast := live.storing i storing
  have lastLt := sound.last_lt
  have nonempty : queue ≠ [] := by
    rintro rfl
    have length := exact.length
    simp only [List.length_nil, storing, Stage.pending] at length
    omega
  have occupied : ∃ slot, view.sem.waiting i = some slot := by
    rcases covered with atZero | wrapped
    · exact exact.ring.cell_between (by omega) beforeLast
    · exact exact.ring.cell_wrapped nonempty wrapped beforeLast
  rcases occupied with ⟨slot, entry⟩
  exact ⟨slot, entry, sound.waiter (by omega) entry (by simp [storing])⟩

end SemView

/-- If the step queues a process, the queue starts at index 0 or wraps round the ring. -/
def placesQueue (sem : SemId) (state : SemMachine ncpu) (label : SemLabel ncpu) : Bool :=
  match semOp state label sem with
  | some (.acquire _) =>
      0 ≤ (state.shared.sem sem).value - 1 || (state.shared.sem sem).wfirst = 0 ||
        ((state.shared.sem sem).wlast + 1) % NPROC ≤ (state.shared.sem sem).wfirst
  | _ => true

theorem live_of_run (run : Run semStep (semBoot ncpu freePages values) trace state)
    (safe : trace.All fun before label => killsWaiter before label = false)
    (places : trace.All fun before label => placesQueue sem before label = true) :
    (view state sem).Live := by
  refine view_invariant sem (fun _ state => (view state sem).Live) ?_ ?_ run safe places
  · rw [view_boot]
    constructor <;> simp
  · intro trace before label after live _ placesStep _ does
    rcases does.cases with ⟨_, same⟩ | ⟨op, isOp, does⟩
    · rw [same]
      exact live
    · refine live.step does ?_
      rintro curproc rfl negative
      have blocks : ¬0 ≤ (before.shared.sem sem).value - 1 := not_le.mpr negative
      simp only [placesQueue, isOp, blocks, decide_false, Bool.false_or, Bool.or_eq_true,
        decide_eq_true_eq] at placesStep
      exact placesStep

/-- The entries compared by the sort and those that get a place belong to waiters. -/
theorem dereferenced_are_waiters (positive : 0 ≤ values sem)
    (run : Run semStep (semBoot ncpu freePages values) trace state)
    (safe : trace.All fun before label => killsWaiter before label = false)
    (places : trace.All fun before label => placesQueue sem before label = true) :
    (∀ cpu i j rest, state.running cpu = semAct (.sortInner sem i j) :: rest →
      j < (state.shared.sem sem).wlast →
      ∃ left right, (state.shared.sem sem).waiting i = some left ∧
        (state.shared.sem sem).waiting j = some right ∧
        Waits state sem left ∧ Waits state sem right) ∧
    (∀ cpu i rest, state.running cpu = semAct (.placeStore sem i) :: rest →
      ∃ slot, (state.shared.sem sem).waiting i = some slot ∧ Waits state sem slot) := by
  have inv := semInv_of_run run safe
  have live := live_of_run run safe places
  rcases exact_of_run positive run safe with ⟨queue, exact⟩
  refine ⟨?_, ?_⟩
  · intro cpu i j rest head inside
    cases inv.actPlace head with
    | foreign never | print never => exact absurd never id
    | sortInner =>
        have isAt : At sem (state.running cpu) (.comparing i j) := head ▸ .comparing
        exact live.compared (inv.sound sem) exact (inv.stage_of_at isAt).2 inside
  · intro cpu i rest head
    cases inv.actPlace head with
    | foreign never | print never => exact absurd never id
    | placeStore =>
        have isAt : At sem (state.running cpu) (.storing i) := head ▸ .locked
        exact live.stored (inv.sound sem) exact (inv.stage_of_at isAt).2

/-- A child of init waits, and is about to store the place of the entry at index 0. -/
def childStores : List (SemLabel 1) :=
  [dispatch 0 0, go 0 1, call 0 .fork 15, preempt 0,
    dispatch 0 1, go 0 1, call 0 (.sub (.semAcquire 0)) 5].flatten

theorem child_stores_own_place : ∃ trace state rest slot,
    Run semStep (semBoot 1 [1] fun _ => 0) trace state ∧
      state.running 0 = semAct (.placeStore 0 0) :: rest ∧
      (state.shared.sem 0).waiting 0 = some slot ∧ Waits state 0 slot := by
  obtain ⟨trace, state, run, safe, places, rest, head⟩ :
      ∃ trace state, Run semStep (semBoot 1 [1] fun _ => 0) trace state ∧
      (trace.All fun before label => killsWaiter before label = false) ∧
      (trace.All fun before label => placesQueue 0 before label = true) ∧
      ∃ rest, state.running 0 = semAct (.placeStore 0 0) :: rest :=
    exists_run childStores (by decide +kernel)
  rcases (dereferenced_are_waiters (le_refl 0) run safe places).2 0 0 rest head with
    ⟨slot, entry, waits⟩
  exact ⟨trace, state, rest, slot, run, head, entry, waits⟩

/-- A child of init waits until init releases, and acquires once more. -/
def childWaitsAgain : List (SemLabel 1) :=
  [childWaits, call 0 (.sub (.semRelease 0)) 7, preempt 0,
    dispatch 0 1, go 0 4, call 0 (.sub (.semAcquire 0)) 5].flatten

-- The first wait left `wfirst = 1`, so the loop over the places meets the entry that the
-- release has cleared.
theorem placeStore_through_null : ∃ trace state rest,
    Run semStep (semBoot 1 [1] fun _ => 0) trace state ∧
      (trace.All fun before label => killsWaiter before label = false) ∧
      state.running 0 = semAct (.placeStore 0 0) :: rest ∧
      (state.shared.sem 0).waiting 0 = none := by
  obtain ⟨trace, state, run, safe, ⟨rest, head⟩, null⟩ :
      ∃ trace state, Run semStep (semBoot 1 [1] fun _ => 0) trace state ∧
      (trace.All fun before label => killsWaiter before label = false) ∧
      (∃ rest, state.running 0 = semAct (.placeStore 0 0) :: rest) ∧
      (state.shared.sem 0).waiting 0 = none :=
    exists_run childWaitsAgain (by decide +kernel)
  exact ⟨trace, state, rest, run, safe, head, null⟩

end Xv6
