import Xv6.Lib.Ring
import Xv6.Semaphore.Model

/-!
# One semaphore by itself

What happens to a semaphore when the rest of the kernel is left out: the counter and the
ring, the set of processes that wait, and how far the holder of its lock has come. Every
operation on a semaphore is atomic up to the stages listed here, because only the holder
of `lk` touches the ring.

Two facts are kept along all runs. The entries of the ring are waiters (`Sound`), whatever
value the semaphore started with. If it started with a value that is not negative, the
ring holds exactly the waiters, and their number is what the counter says (`Exact`).
-/

namespace Xv6

open Function

/-- How far the holder of `lk` has come. Printing does not change the semaphore and counts
as `free`. -/
inductive Stage where
  | free
  | sorting (i : ℕ)
  | comparing (i j : ℕ)
  | placing (i : ℕ)
  | storing (i : ℕ)
  | called (target : Option Slot)
  | granted

/-- A release is under way and has not dequeued yet. -/
def Stage.pending : Stage → ℤ
  | .called _ | .granted => 1
  | .free | .sorting _ | .comparing _ _ | .placing _ | .storing _ => 0

inductive SemOp where
  | acquire (curproc : Slot)
  | sort
  | place
  | release
  | wake (target : Option Slot)
  | dequeue
  deriving DecidableEq

@[ext]
structure SemView where
  sem : Sem
  waits : Set Slot
  stage : Stage

namespace SemView

/-- The operations, with the priorities that the sort reads. -/
inductive Step (priority : Slot → ℤ) (view : SemView) : SemOp → SemView → Prop
  | pass {curproc : Slot} (free : view.stage = .free) (positive : 0 ≤ view.sem.value - 1) :
      Step priority view (.acquire curproc)
        { view with sem := { view.sem with value := view.sem.value - 1 } }
  | block {curproc : Slot} (free : view.stage = .free) (negative : view.sem.value - 1 < 0)
      (fresh : curproc ∉ view.waits) :
      Step priority view (.acquire curproc)
        { sem := Sem.enqueue { view.sem with value := view.sem.value - 1 } curproc
          waits := insert curproc view.waits
          stage := .sorting view.sem.wfirst }
  | row {i : ℕ} (sorting : view.stage = .sorting i) (more : i + 1 < view.sem.wlast) :
      Step priority view .sort { view with stage := .comparing i (i + 1) }
  | sorted {i : ℕ} (sorting : view.stage = .sorting i) (done : view.sem.wlast ≤ i + 1) :
      Step priority view .sort { view with stage := .placing 0 }
  | compare {i j : ℕ} {left right : Slot} (comparing : view.stage = .comparing i j)
      (inside : j < view.sem.wlast) (leftIs : view.sem.waiting i = some left)
      (rightIs : view.sem.waiting j = some right) :
      Step priority view .sort
        { view with
          sem := if priority left < priority right then view.sem.swap i j else view.sem
          stage := .comparing i (j + 1) }
  | rowDone {i j : ℕ} (comparing : view.stage = .comparing i j) (done : view.sem.wlast ≤ j) :
      Step priority view .sort { view with stage := .sorting (i + 1) }
  | placeNext {i : ℕ} (placing : view.stage = .placing i) (more : i < view.sem.wlast) :
      Step priority view .place { view with stage := .storing i }
  | placed {i : ℕ} (placing : view.stage = .placing i) (done : view.sem.wlast ≤ i) :
      Step priority view .place { view with stage := .free }
  | store {i : ℕ} (storing : view.stage = .storing i) :
      Step priority view .place { view with stage := .placing (i + 1) }
  | count (free : view.stage = .free) (positive : 0 < view.sem.value + 1) :
      Step priority view .release
        { view with sem := { view.sem with value := view.sem.value + 1 } }
  | grant (free : view.stage = .free) (waiters : view.sem.value + 1 ≤ 0) :
      Step priority view .release
        { view with
          sem := { view.sem with value := view.sem.value + 1 }
          stage := .called (view.sem.waiting view.sem.wfirst) }
  | wake {target : Option Slot} (called : view.stage = .called target) :
      Step priority view (.wake target)
        { view with
          waits := { slot ∈ view.waits | target ≠ some slot }
          stage := .granted }
  | dequeue (granted : view.stage = .granted) :
      Step priority view .dequeue { view with sem := view.sem.dequeue, stage := .free }

/-- The entries of the ring are waiters, each entered once; while a release is under way,
its head may already be awake. -/
structure Sound (view : SemView) : Prop where
  first_lt : view.sem.wfirst < NPROC
  last_lt : view.sem.wlast < NPROC
  cell : ∀ index slot, index < NPROC → view.sem.waiting index = some slot →
    slot ∈ view.waits ∨ (index = view.sem.wfirst ∧ view.stage = .granted)
  injective : ∀ left right slot, left < NPROC → right < NPROC →
    view.sem.waiting left = some slot → view.sem.waiting right = some slot → left = right
  called : ∀ target, view.stage = .called target → target = view.sem.waiting view.sem.wfirst
  comparing : ∀ i j, view.stage = .comparing i j → i < j

variable {priority : Slot → ℤ} {view next : SemView} {op : SemOp}

theorem sound_init (value : ℤ) :
    Sound { sem := .init value, waits := ∅, stage := .free } where
  first_lt := by simp [Sem.init]
  last_lt := by simp [Sem.init]
  cell := by simp [Sem.init]
  injective := by simp [Sem.init]
  called := by simp
  comparing := by simp

/-- Changing counter and stage keeps the entries sound, if the new stage is no later than the
old one. -/
theorem Sound.restage (sound : Sound view) {value : ℤ} {stage : Stage}
    (granted : view.stage = .granted → stage = .granted)
    (called : ∀ target, stage = .called target → target = view.sem.waiting view.sem.wfirst)
    (comparing : ∀ i j, stage = .comparing i j → i < j) :
    Sound { view with sem := { view.sem with value }, stage } where
  first_lt := sound.first_lt
  last_lt := sound.last_lt
  cell := by
    intro index slot indexLt entry
    rcases sound.cell index slot indexLt entry with waits | ⟨atHead, isGranted⟩
    · exact Or.inl waits
    · exact Or.inr ⟨atHead, granted isGranted⟩
  injective := sound.injective
  called := called
  comparing := comparing

theorem Sound.enqueue {curproc : Slot} {value : ℤ} (sound : Sound view)
    (free : view.stage = .free) (fresh : curproc ∉ view.waits) :
    Sound
      { sem := Sem.enqueue { view.sem with value } curproc
        waits := insert curproc view.waits
        stage := .sorting view.sem.wfirst } := by
  -- no entry of the ring is the new process
  have unqueued : ∀ index, index < NPROC → view.sem.waiting index ≠ some curproc := by
    intro index indexLt entry
    rcases sound.cell index curproc indexLt entry with waits | ⟨_, granted⟩
    · exact fresh waits
    · simp [free] at granted
  refine ⟨sound.first_lt, Nat.mod_lt _ (by decide), ?_, ?_, by simp, by simp⟩
  · intro index slot indexLt entry
    by_cases atTail : index = view.sem.wlast
    · subst atTail
      simp only [Sem.enqueue, update_self, Option.some.injEq] at entry
      subst entry
      exact Or.inl (Set.mem_insert _ _)
    · simp only [Sem.enqueue, update_of_ne atTail] at entry
      rcases sound.cell index slot indexLt entry with waits | ⟨_, granted⟩
      · exact Or.inl (Set.mem_insert_of_mem _ waits)
      · simp [free] at granted
  · intro left right slot leftLt rightLt leftIs rightIs
    by_cases leftTail : left = view.sem.wlast <;> by_cases rightTail : right = view.sem.wlast
    · rw [leftTail, rightTail]
    · simp only [Sem.enqueue, leftTail, update_self, Option.some.injEq] at leftIs
      simp only [Sem.enqueue, update_of_ne rightTail] at rightIs
      subst leftIs
      exact absurd rightIs (unqueued right rightLt)
    · simp only [Sem.enqueue, rightTail, update_self, Option.some.injEq] at rightIs
      simp only [Sem.enqueue, update_of_ne leftTail] at leftIs
      subst rightIs
      exact absurd leftIs (unqueued left leftLt)
    · simp only [Sem.enqueue, update_of_ne leftTail] at leftIs
      simp only [Sem.enqueue, update_of_ne rightTail] at rightIs
      exact sound.injective left right slot leftLt rightLt leftIs rightIs

theorem waiting_swap (sem : Sem) (i j index : ℕ) :
    (sem.swap i j).waiting index = sem.waiting (Equiv.swap i j index) := by
  simp only [Sem.swap, Equiv.swap_apply_def, update_apply]
  by_cases atRight : index = j <;> by_cases atLeft : index = i <;> simp_all

theorem swap_lt {i j index bound : ℕ} (iLt : i < bound) (jLt : j < bound)
    (indexLt : index < bound) : Equiv.swap i j index < bound := by
  rw [Equiv.swap_apply_def]
  split
  · exact jLt
  · split
    · exact iLt
    · exact indexLt

theorem Sound.exchange {i j : ℕ} {stage : Stage} (sound : Sound view)
    (comparing : view.stage = .comparing i j) (inside : j < view.sem.wlast)
    (comparingNext : stage = .comparing i (j + 1)) :
    Sound { view with sem := view.sem.swap i j, stage } := by
  have before := sound.comparing i j comparing
  have jLt : j < NPROC := inside.trans sound.last_lt
  have iLt : i < NPROC := before.trans jLt
  subst comparingNext
  refine ⟨sound.first_lt, sound.last_lt, ?_, ?_, by simp, ?_⟩
  · intro index slot indexLt entry
    rw [waiting_swap] at entry
    rcases sound.cell _ slot (swap_lt iLt jLt indexLt) entry with waits | ⟨_, granted⟩
    · exact Or.inl waits
    · simp [comparing] at granted
  · intro left right slot leftLt rightLt leftIs rightIs
    rw [waiting_swap] at leftIs rightIs
    apply (Equiv.swap i j).injective
    exact sound.injective _ _ slot (swap_lt iLt jLt leftLt)
      (swap_lt iLt jLt rightLt) leftIs rightIs
  · intro left right equal
    cases equal
    omega

theorem Sound.wake {target : Option Slot} (sound : Sound view)
    (called : view.stage = .called target) :
    Sound
      { view with
        waits := { slot ∈ view.waits | target ≠ some slot }
        stage := .granted } where
  first_lt := sound.first_lt
  last_lt := sound.last_lt
  cell := by
    intro index slot indexLt entry
    rcases sound.cell index slot indexLt entry with waits | ⟨_, granted⟩
    · by_cases isTarget : target = some slot
      · have headIs := sound.called target called
        right
        refine ⟨?_, rfl⟩
        exact sound.injective index _ slot indexLt sound.first_lt entry (headIs.symm.trans isTarget)
      · exact Or.inl ⟨waits, isTarget⟩
    · simp [called] at granted
  injective := sound.injective
  called := by simp
  comparing := by simp

theorem Sound.dequeue (sound : Sound view) :
    Sound { view with sem := view.sem.dequeue, stage := .free } where
  first_lt := Nat.mod_lt _ (by decide)
  last_lt := sound.last_lt
  cell := by
    intro index slot indexLt entry
    by_cases atHead : index = view.sem.wfirst
    · simp [Sem.dequeue, atHead] at entry
    · simp only [Sem.dequeue, update_of_ne atHead] at entry
      rcases sound.cell index slot indexLt entry with waits | ⟨isHead, _⟩
      · exact Or.inl waits
      · exact absurd isHead atHead
  injective := by
    intro left right slot leftLt rightLt leftIs rightIs
    by_cases leftHead : left = view.sem.wfirst
    · simp [Sem.dequeue, leftHead] at leftIs
    · by_cases rightHead : right = view.sem.wfirst
      · simp [Sem.dequeue, rightHead] at rightIs
      · simp only [Sem.dequeue, update_of_ne leftHead] at leftIs
        simp only [Sem.dequeue, update_of_ne rightHead] at rightIs
        exact sound.injective left right slot leftLt rightLt leftIs rightIs
  called := by simp
  comparing := by simp

theorem Sound.step (sound : Sound view) (stepped : Step priority view op next) : Sound next := by
  cases stepped with
  | pass free positive =>
      exact sound.restage id sound.called sound.comparing
  | block free negative fresh => exact sound.enqueue free fresh
  | row sorting more =>
      refine sound.restage (by simp [sorting]) (by simp) ?_
      intro i j equal
      cases equal
      omega
  | sorted staged | rowDone staged | placeNext staged | placed staged | store staged =>
      exact sound.restage (by simp [staged]) (by simp) (by simp)
  | compare comparing inside leftIs rightIs =>
      split
      · exact sound.exchange comparing inside rfl
      · refine sound.restage (by simp [comparing]) (by simp) ?_
        intro left right equal
        cases equal
        have before := sound.comparing _ _ comparing
        omega
  | count free positive => exact sound.restage id sound.called sound.comparing
  | grant free waiters =>
      refine sound.restage (by simp [free]) ?_ (by simp)
      intro target equal
      cases equal
      rfl
  | wake called => exact sound.wake called
  | dequeue granted => exact sound.dequeue

/-- The ring holds the queue; its members are the waiters, and the process that a release
has woken but not dequeued. -/
structure Exact (view : SemView) (queue : List Slot) : Prop where
  ring : Ring.Holds NPROC view.sem.waiting view.sem.wfirst view.sem.wlast queue
  nodup : queue.Nodup
  mem : ∀ slot, slot ∈ queue ↔
    slot ∈ view.waits ∨ (view.stage = .granted ∧ queue.head? = some slot)
  woken : view.stage = .granted → ∀ slot, queue.head? = some slot → slot ∉ view.waits
  length : (queue.length : ℤ) = max 0 (-view.sem.value) + view.stage.pending

theorem exact_init {value : ℤ} (positive : 0 ≤ value) :
    Exact { sem := .init value, waits := ∅, stage := .free } [] where
  ring := Ring.Holds.empty (by decide)
  nodup := List.nodup_nil
  mem := by simp
  woken := by simp
  length := by
    simp only [Sem.init, Stage.pending, List.length_nil]
    omega

variable {queue : List Slot}

section

variable (exact : Exact view queue)

include exact

theorem Exact.restage {value : ℤ} {stage : Stage} (before : view.stage ≠ .granted)
    (after : stage ≠ .granted) (length : (queue.length : ℤ) = max 0 (-value) + stage.pending) :
    Exact { view with sem := { view.sem with value }, stage } queue where
  ring := exact.ring
  nodup := exact.nodup
  mem := by
    intro slot
    have members := exact.mem slot
    simp only [before, false_and, or_false] at members
    simp only [after, false_and, or_false, members]
  woken := fun granted => absurd granted after
  length := length

theorem Exact.room {curproc : Slot} (free : view.stage = .free) (fresh : curproc ∉ view.waits) :
    (queue ++ [curproc]).Nodup ∧ queue.length < NPROC := by
  have unqueued : curproc ∉ queue := by
    intro queued
    rcases (exact.mem curproc).mp queued with waits | ⟨granted, _⟩
    · exact fresh waits
    · simp [free] at granted
  have nodup : (queue ++ [curproc]).Nodup := by
    refine exact.nodup.append (List.nodup_singleton _) ?_
    simpa using unqueued
  refine ⟨nodup, ?_⟩
  have bound := nodup.length_le_card
  simp only [List.length_append, List.length_singleton, Fintype.card_fin] at bound
  omega

theorem Exact.enqueue {curproc : Slot} (free : view.stage = .free)
    (negative : view.sem.value - 1 < 0) (fresh : curproc ∉ view.waits) : Exact
      { sem := Sem.enqueue { view.sem with value := view.sem.value - 1 } curproc
        waits := insert curproc view.waits
        stage := .sorting view.sem.wfirst } (queue ++ [curproc]) := by
  rcases exact.room free fresh with ⟨nodup, room⟩
  have length := exact.length
  have members := exact.mem
  simp only [free, Stage.pending, reduceCtorEq, false_and, or_false] at length members
  refine ⟨exact.ring.enqueue room, nodup, ?_, by simp, ?_⟩
  · intro slot
    simp [members, or_comm]
  · simp only [List.length_append, List.length_singleton, Sem.enqueue, Stage.pending]
    push_cast
    omega

theorem Exact.exchange {left right i j : ℕ} (comparing : view.stage = .comparing i j)
    (leftLt : left < queue.length) (rightLt : right < queue.length)
    (leftAt : (view.sem.wfirst + left) % NPROC = i)
    (rightAt : (view.sem.wfirst + right) % NPROC = j) :
    Exact { view with sem := view.sem.swap i j, stage := .comparing i (j + 1) }
      (ExchangeSort.exchange queue left right) := by
  have permuted := ExchangeSort.exchange_perm queue left right
  have length := exact.length
  have members := exact.mem
  simp only [comparing, Stage.pending, reduceCtorEq, false_and, or_false] at length members
  subst leftAt rightAt
  refine ⟨exact.ring.exchange leftLt rightLt, permuted.nodup_iff.mpr exact.nodup, ?_, by simp, ?_⟩
  · intro slot
    simp [permuted.mem_iff, members]
  · simpa [Sem.swap, Stage.pending] using length

theorem Exact.wake {target : Option Slot} (called : view.stage = .called target)
    (headIs : target = view.sem.waiting view.sem.wfirst) : Exact
      { view with
        waits := { slot ∈ view.waits | target ≠ some slot }
        stage := .granted } queue := by
  have length := exact.length
  have members := exact.mem
  have targetIs : target = queue.head? := headIs.trans exact.ring.head
  simp only [called, Stage.pending, reduceCtorEq, false_and, or_false] at length members
  refine ⟨exact.ring, exact.nodup, ?_, ?_, by simpa [Stage.pending] using length⟩
  · intro slot
    simp only [Set.mem_ofPred_eq, true_and, targetIs, ← members]
    constructor
    · intro queued
      by_cases isHead : queue.head? = some slot
      · exact Or.inr isHead
      · exact Or.inl ⟨queued, isHead⟩
    · rintro (⟨queued, _⟩ | isHead)
      · exact queued
      · exact List.mem_of_mem_head? isHead
  · rintro _ slot isHead ⟨_, notTarget⟩
    exact notTarget (targetIs.trans isHead)

theorem Exact.dequeue (granted : view.stage = .granted) :
    Exact { view with sem := view.sem.dequeue, stage := .free } queue.tail := by
  have length := exact.length
  simp only [granted, Stage.pending] at length
  cases queue with
  | nil =>
      simp only [List.length_nil] at length
      omega
  | cons head rest =>
      have distinct := List.nodup_cons.mp exact.nodup
      refine ⟨exact.ring.dequeue, distinct.2, ?_, by simp, ?_⟩
      · intro slot
        have members := exact.mem slot
        simp only [List.mem_cons, granted, true_and, List.head?_cons, Option.some.injEq] at members
        simp only [List.tail_cons, reduceCtorEq, false_and, or_false]
        have wokenHead := exact.woken granted head rfl
        constructor
        · intro queued
          rcases members.mp (Or.inr queued) with waits | isHead
          · exact waits
          · subst isHead
            exact absurd queued distinct.1
        · intro waits
          rcases members.mpr (Or.inl waits) with isHead | queued
          · subst isHead
            exact absurd waits wokenHead
          · exact queued
      · simp only [List.tail_cons, Sem.dequeue, Stage.pending]
        simp only [List.length_cons] at length
        push_cast at length
        omega

theorem Exact.offset {index : ℕ} {slot : Slot} (indexLt : index < NPROC)
    (entry : view.sem.waiting index = some slot) :
    ∃ offset, (view.sem.wfirst + offset) % NPROC = index ∧ queue[offset]? = some slot := by
  rcases Ring.exists_offset exact.ring.first_lt indexLt with ⟨offset, offsetLt, rfl⟩
  refine ⟨offset, rfl, ?_⟩
  rw [← exact.ring.cell offset offsetLt, entry]

end

theorem Exact.step (sound : Sound view) (exact : Exact view queue)
    (stepped : Step priority view op next) : ∃ after, Exact next after := by
  have length := exact.length
  cases stepped with
  | pass free | count free =>
      refine ⟨queue, exact.restage (by simp [free]) (by simp [free]) ?_⟩
      simp only [free, Stage.pending] at length ⊢
      omega
  | block free negative fresh => exact ⟨_, exact.enqueue free negative fresh⟩
  | row staged | sorted staged | rowDone staged | placeNext staged | placed staged | store staged =>
      refine ⟨queue, exact.restage (by simp [staged]) (by simp) ?_⟩
      simpa [staged, Stage.pending] using length
  | @compare i j left right comparing inside leftIs rightIs =>
      split
      · have jLt := inside.trans sound.last_lt
        have iLt := (sound.comparing i j comparing).trans jLt
        rcases exact.offset iLt leftIs with ⟨leftOffset, leftAt, leftEntry⟩
        rcases exact.offset jLt rightIs with ⟨rightOffset, rightAt, rightEntry⟩
        have leftLt := (List.getElem?_eq_some_iff.mp leftEntry).1
        have rightLt := (List.getElem?_eq_some_iff.mp rightEntry).1
        exact ⟨_, exact.exchange comparing leftLt rightLt leftAt rightAt⟩
      · refine ⟨queue, exact.restage (by simp [comparing]) (by simp) ?_⟩
        simpa [comparing, Stage.pending] using length
  | grant free waiters =>
      refine ⟨queue, exact.restage (by simp [free]) (by simp) ?_⟩
      simp only [free, Stage.pending] at length ⊢
      omega
  | wake called => exact ⟨queue, exact.wake called (sound.called _ called)⟩
  | dequeue granted => exact ⟨_, exact.dequeue granted⟩

end SemView

end Xv6
