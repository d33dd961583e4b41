import Xv6.Semaphore.Refinement

/-!
# Counting acquires and releases

The history of a run tells how many acquires have begun, how many releases are done, which
processes are blocked and how many acquires have been granted. Whenever the locks are free,
the counter of the semaphore and its ring agree with the history. Semaphore operations are
counted when they change the counter; an acquire that blocks is granted when a release
wakes its process.
-/

namespace Xv6

open Threads Transition

variable {ncpu : ℕ} {freePages : List ℕ} {values : SemId → ℤ} {state next : SemMachine ncpu}
  {trace : Trace (SemMachine ncpu) (SemLabel ncpu)} {label : SemLabel ncpu} {sem : SemId}

/-- What has happened on a semaphore. `holding` lists the processes between a granted acquire
and their next release. -/
structure History where
  begun : ℕ
  released : ℕ
  granted : ℕ
  blocked : Finset Slot
  holding : List Slot

/-- An operation, started by `caller` when the counter was `value`. -/
def History.record (history : History) (value : ℤ) (caller : Option Slot) : Option SemOp → History
  | some (.acquire curproc) =>
      if value - 1 < 0 then
        { history with begun := history.begun + 1, blocked := insert curproc history.blocked }
      else
        { history with
          begun := history.begun + 1
          granted := history.granted + 1
          holding := curproc :: history.holding }
  | some .release =>
      { history with
        released := history.released + 1
        holding := caller.elim history.holding history.holding.erase }
  | some (.wake (some slot)) =>
      { history with
        granted := history.granted + 1
        blocked := history.blocked.erase slot
        holding := slot :: history.holding }
  | some (.wake none) | some .sort | some .place | some .dequeue | none => history

def caller (state : SemMachine ncpu) (label : SemLabel ncpu) : Option Slot :=
  match label with
  | .run cpu _ =>
      match state.cur cpu with
      | .proc slot => some slot
      | .scheduler _ => none
  | _ => none

def history (sem : SemId) : Trace (SemMachine ncpu) (SemLabel ncpu) → History
  | [] => { begun := 0, released := 0, granted := 0, blocked := ∅, holding := [] }
  | (state, label) :: trace =>
      (history sem trace).record (state.shared.sem sem).value (caller state label)
        (semOp state label sem)

/-- Only processes that hold the semaphore release it. -/
def MatchedUse (sem : SemId) : Trace (SemMachine ncpu) (SemLabel ncpu) → Prop
  | [] => True
  | (state, label) :: trace =>
      MatchedUse sem trace ∧ (semOp state label sem = some .release →
        ∃ slot, caller state label = some slot ∧ slot ∈ (history sem trace).holding)

/-- The history agrees with what a state shows of the semaphore. -/
structure Counted (initial : ℤ) (history : History) (view : SemView) : Prop where
  value : view.sem.value = initial + history.released - history.begun
  blocked : ∀ slot, slot ∈ history.blocked ↔ slot ∈ view.waits
  granted : history.granted + history.blocked.card = history.begun

theorem Counted.step {initial : ℤ} {history : History} {view after : SemView}
    {priority : Slot → ℤ} {op : SemOp} {caller : Option Slot} (counted : Counted initial history view)
    (sound : view.Sound) (stepped : SemView.Step priority view op after) :
    Counted initial (history.record view.sem.value caller (some op)) after := by
  rcases counted with ⟨value, blocked, granted⟩
  cases stepped with
  | pass free positive =>
      have passes : ¬view.sem.value - 1 < 0 := by omega
      simp only [History.record, if_neg passes]
      refine ⟨?_, blocked, ?_⟩
      · push_cast
        omega
      · show history.granted + 1 + history.blocked.card = history.begun + 1
        omega
  | @block curproc free negative fresh =>
      have unblocked : curproc ∉ history.blocked := by
        rw [blocked]
        exact fresh
      simp only [History.record, if_pos negative]
      refine ⟨?_, ?_, ?_⟩
      · show view.sem.value - 1 = initial + history.released - (history.begun + 1 : ℕ)
        push_cast
        omega
      · intro slot
        rw [Finset.mem_insert, blocked]
        rfl
      · show history.granted + (insert curproc history.blocked).card = history.begun + 1
        rw [Finset.card_insert_of_notMem unblocked]
        omega
  | row | sorted | rowDone | placeNext | placed | store | dequeue => exact ⟨value, blocked, granted⟩
  | compare comparing inside leftIs rightIs =>
      refine ⟨?_, blocked, granted⟩
      split <;> exact value
  | count | grant =>
      refine ⟨?_, blocked, granted⟩
      simp only [History.record]
      push_cast
      omega
  | @wake target called =>
      cases target with
      | none =>
          refine ⟨value, ?_, granted⟩
          intro slot
          simpa [History.record] using blocked slot
      | some target =>
          -- the process that is woken was waiting, hence blocked
          have headIs := sound.called _ called
          have waits : target ∈ view.waits := by
            rcases sound.cell _ target sound.first_lt headIs.symm with waits | ⟨_, isGranted⟩
            · exact waits
            · simp [called] at isGranted
          have isBlocked := (blocked target).mpr waits
          refine ⟨value, ?_, ?_⟩
          · intro slot
            simp only [History.record, Finset.mem_erase, blocked]
            constructor
            · rintro ⟨different, waiting⟩
              exact ⟨waiting, fun same => different (Option.some.inj same).symm⟩
            · rintro ⟨waiting, different⟩
              exact ⟨fun same => different (by rw [same]), waiting⟩
          · have positive := Finset.card_pos.mpr ⟨target, isBlocked⟩
            simp only [History.record, Finset.card_erase_of_mem isBlocked]
            omega

theorem holding_record {history : History} {value : ℤ} {caller : Option Slot} {op : Option SemOp}
    (holding : history.granted = history.released + history.holding.length)
    (matched : op = some .release → ∃ slot, caller = some slot ∧ slot ∈ history.holding) :
    (history.record value caller op).granted =
      (history.record value caller op).released +
        (history.record value caller op).holding.length := by
  cases op with
  | none => exact holding
  | some op =>
      cases op with
      | acquire curproc =>
          simp only [History.record]
          split
          · exact holding
          · simp only [List.length_cons]
            omega
      | release =>
          rcases matched rfl with ⟨slot, rfl, isHolding⟩
          have positive := List.length_pos_of_mem isHolding
          simp only [History.record, Option.elim_some, List.length_erase_of_mem isHolding]
          omega
      | wake target =>
          cases target with
          | none => exact holding
          | some slot =>
              simp only [History.record, List.length_cons]
              omega
      | sort | place | dequeue => exact holding

theorem holding_of_matched (matched : MatchedUse sem trace) :
    (history sem trace).granted =
      (history sem trace).released + (history sem trace).holding.length := by
  induction trace with
  | nil => rfl
  | cons entry trace ih => exact holding_record (ih matched.1) matched.2

theorem counted_of_run (run : Run semStep (semBoot ncpu freePages values) trace state)
    (safe : trace.All fun before label => killsWaiter before label = false) :
    Counted (values sem) (history sem trace) (view state sem) := by
  refine view_invariant sem
    (fun trace state => Counted (values sem) (history sem trace) (view state sem)) ?_ ?_ run safe
    (Trace.all_true trace)
  · rw [view_boot]
    exact ⟨by simp [history, Sem.init], by simp [history], rfl⟩
  · intro trace before label after counted sound _ _ does
    rcases does.cases with ⟨isOp, same⟩ | ⟨op, isOp, does⟩
    · rw [same]
      simpa only [history, isOp, History.record] using counted
    · simp only [history, isOp]
      exact counted.step sound does

theorem view_free_of_unlocked {allowed : Lock → Lock → Prop} (inv : SemInv allowed state)
    (free : state.owner (.sem sem) = none) : (view state sem).stage = .free := by
  refine dif_neg ?_
  rintro ⟨stage, thread, isAt⟩
  rcases inv.core.owner_of_at isAt with ⟨cpu, _, owned⟩
  simp [free] at owned

theorem asleep_of_unlocked {allowed : Lock → Lock → Prop} {slot : Slot}
    (inv : SemInv allowed state) (free : state.owner (.sem sem) = none)
    (ptableFree : state.owner .ptable = none) (waits : Waits state sem slot) :
    state.shared.AsleepOn slot (.sem sem) := by
  rcases waits with sleeps | asleep
  · rcases inv.owner_of_sleeps sleeps with ⟨cpu, _, owned | ⟨owned, _⟩⟩
    · simp [free] at owned
    · simp [ptableFree] at owned
  · exact asleep

/-- The counter, the ring, the blocked processes and the granted acquires, whenever the locks
are free. -/
theorem semaphore_counting (positive : 0 ≤ values sem)
    (run : Run semStep (semBoot ncpu freePages values) trace state)
    (safe : trace.All fun before label => killsWaiter before label = false)
    (free : state.owner (.sem sem) = none) (ptableFree : state.owner .ptable = none) :
    (state.shared.sem sem).value =
        values sem + (history sem trace).released - (history sem trace).begun ∧
      (∃ queue : List Slot,
        Ring.Holds NPROC (state.shared.sem sem).waiting (state.shared.sem sem).wfirst
          (state.shared.sem sem).wlast queue ∧
        queue.Nodup ∧ (queue.length : ℤ) = max 0 (-(state.shared.sem sem).value) ∧
        (∀ slot, slot ∈ queue ↔ slot ∈ (history sem trace).blocked) ∧
        ∀ slot ∈ queue, state.shared.AsleepOn slot (.sem sem)) ∧
      ((history sem trace).granted : ℤ) =
        min ((history sem trace).begun : ℤ) (values sem + (history sem trace).released) ∧
      (values sem = 1 → MatchedUse sem trace → (history sem trace).holding.length ≤ 1) := by
  have inv := semInv_of_run run safe
  have counted : Counted (values sem) (history sem trace) (view state sem) :=
    counted_of_run run safe
  rcases exact_of_run positive run safe with ⟨queue, exact⟩
  have isFree := view_free_of_unlocked inv free
  have length : (queue.length : ℤ) = max 0 (-(state.shared.sem sem).value) := by
    have lengthIs : (queue.length : ℤ) =
        max 0 (-(state.shared.sem sem).value) + (view state sem).stage.pending := exact.length
    simpa [isFree, Stage.pending] using lengthIs
  have members : ∀ slot, slot ∈ queue ↔ slot ∈ (view state sem).waits := by
    intro slot
    have memIs := exact.mem slot
    simpa [isFree] using memIs
  have blocked : (history sem trace).blocked = queue.toFinset := by
    ext slot
    rw [counted.blocked, List.mem_toFinset, members]
  have card : (history sem trace).blocked.card = queue.length := by
    rw [blocked, List.toFinset_card_of_nodup exact.nodup]
  have value : (state.shared.sem sem).value =
      values sem + (history sem trace).released - (history sem trace).begun := counted.value
  have granted : ((history sem trace).granted : ℤ) =
      min ((history sem trace).begun : ℤ) (values sem + (history sem trace).released) := by
    have grantedIs := counted.granted
    omega
  refine ⟨value, ⟨queue, exact.ring, exact.nodup, length, ?_, ?_⟩, granted, ?_⟩
  · intro slot
    rw [members, counted.blocked]
  · intro slot queued
    exact asleep_of_unlocked inv free ptableFree ((members slot).mp queued)
  · intro isOne matched
    have holding := holding_of_matched matched
    omega

theorem semaphore_counting_child : ∃ trace state,
    Run semStep (semBoot 1 [1] fun _ => 0) trace state ∧ (state.shared.sem 0).value = -1 ∧
      (history 0 trace).begun = 1 ∧ (history 0 trace).granted = 0 ∧
      ∃ slot, state.shared.AsleepOn slot (.sem 0) := by
  obtain ⟨trace, state, run, safe, free, ptableFree, begun, released⟩ :
      ∃ trace state, Run semStep (semBoot 1 [1] fun _ => 0) trace state ∧
      (trace.All fun before label => killsWaiter before label = false) ∧
      state.owner (.sem 0) = none ∧ state.owner .ptable = none ∧
      (history 0 trace).begun = 1 ∧ (history 0 trace).released = 0 :=
    exists_run childWaits (by decide +kernel)
  rcases semaphore_counting (le_refl 0) run safe free ptableFree with
    ⟨value, ⟨queue, _, _, length, _, asleep⟩, granted, _⟩
  rw [begun, released] at value granted
  refine ⟨trace, state, run, by simpa using value, begun, by simpa using granted, ?_⟩
  cases queue with
  | nil =>
      rw [value] at length
      simp at length
  | cons slot rest => exact ⟨slot, asleep slot List.mem_cons_self⟩

end Xv6
