import Xv6.Semaphore.Refinement

/-!
# The order of the waiters

The sort in `semaphore_acquire` goes by plain indices. As long as the queue does not wrap
round the ring, it puts the waiters into descending order of priority, and a release
wakes a waiter of the highest priority. When the tail has wrapped, the loops of the sort
do not run, and the newcomer stays last whatever its priority is.

Everything here is about one semaphore by itself. `Ordered` says how far the sort has
come, `LineStep` what the operations do to the line of waiters, and `Unwrapped` that the
queue lies in the array from `wfirst` to `wlast`.
-/

namespace Xv6

open ExchangeSort Threads Transition

namespace SemView

variable {view next : SemView} {priority : Slot → ℤ} {op : SemOp} {queue after : List Slot}

/-- The queue without a process that a release has woken and not dequeued. -/
def line (view : SemView) (queue : List Slot) : List Slot :=
  match view.stage with
  | .granted => queue.tail
  | _ => queue

theorem line_of_ne (notGranted : view.stage ≠ .granted) : view.line queue = queue := by
  unfold line
  split
  · contradiction
  · rfl

theorem line_of_granted (granted : view.stage = .granted) : view.line queue = queue.tail := by
  simp [line, granted]

theorem Exact.mem_line (exact : Exact view queue) {slot : Slot} :
    slot ∈ view.line queue ↔ slot ∈ view.waits := by
  by_cases granted : view.stage = .granted
  · have members := exact.mem slot
    have woken := exact.woken granted
    have nodup := exact.nodup
    rw [line_of_granted granted]
    cases queue with
    | nil => simpa using members
    | cons head rest =>
        simp only [List.mem_cons, granted, true_and, List.head?_cons, Option.some.injEq] at members
        simp only [List.tail_cons]
        constructor
        · intro inRest
          rcases members.mp (Or.inr inRest) with waits | rfl
          · exact waits
          · exact absurd inRest (List.nodup_cons.mp nodup).1
        · intro waits
          rcases members.mpr (Or.inl waits) with rfl | inRest
          · exact absurd waits (woken slot rfl)
          · exact inRest
  · rw [line_of_ne granted, exact.mem slot]
    simp [granted]

structure Ordered (priority : Slot → ℤ) (view : SemView) (queue : List Slot) : Prop where
  sorting : ∀ i, view.stage = .sorting i →
    view.sem.wfirst ≤ i ∧ SortedTo (queue.map priority) (i - view.sem.wfirst) ∧
      (view.sem.wlast ≤ view.sem.wfirst → Descending (queue.map priority))
  comparing : ∀ i j, view.stage = .comparing i j →
    view.sem.wfirst ≤ i ∧ i + 1 < view.sem.wlast ∧
      Selecting (queue.map priority) (i - view.sem.wfirst) (j - view.sem.wfirst)
  settled : (∀ i, view.stage ≠ .sorting i) → (∀ i j, view.stage ≠ .comparing i j) →
    Descending ((view.line queue).map priority)

theorem Ordered.of_descending (descending : Descending ((view.line queue).map priority))
    (notSorting : ∀ i, view.stage ≠ .sorting i) (notComparing : ∀ i j, view.stage ≠ .comparing i j) :
    Ordered priority view queue where
  sorting := fun i sorting => absurd sorting (notSorting i)
  comparing := fun i j comparing => absurd comparing (notComparing i j)
  settled := fun _ _ => descending

section

variable (ordered : Ordered priority view queue)

include ordered

theorem Ordered.descending (notSorting : ∀ i, view.stage ≠ .sorting i)
    (notComparing : ∀ i j, view.stage ≠ .comparing i j) (notGranted : view.stage ≠ .granted) :
    Descending (queue.map priority) := by
  have settled := ordered.settled notSorting notComparing
  rwa [line_of_ne notGranted] at settled

theorem Ordered.congr {priority' : Slot → ℤ} (exact : Exact view queue)
    (same : ∀ slot ∈ view.waits, priority' slot = priority slot) :
    Ordered priority' view queue := by
  have lineSame : (view.line queue).map priority' = (view.line queue).map priority := by
    apply List.map_congr_left
    intro slot inLine
    exact same slot (exact.mem_line.mp inLine)
  have queueSame : view.stage ≠ .granted → queue.map priority' = queue.map priority := by
    intro notGranted
    rwa [line_of_ne notGranted] at lineSame
  refine ⟨?_, ?_, ?_⟩
  · intro i sorting
    rw [queueSame (by simp [sorting])]
    exact ordered.sorting i sorting
  · intro i j comparing
    rw [queueSame (by simp [comparing])]
    exact ordered.comparing i j comparing
  · rw [lineSame]
    exact ordered.settled

section

variable (sound : Sound view) (exact : Exact view queue)

include sound exact

theorem Ordered.entries {i j : ℕ} {left right : Slot} (comparing : view.stage = .comparing i j)
    (inside : j < view.sem.wlast) (leftIs : view.sem.waiting i = some left)
    (rightIs : view.sem.waiting j = some right) :
    i - view.sem.wfirst < j - view.sem.wfirst ∧ queue[i - view.sem.wfirst]? = some left ∧
      queue[j - view.sem.wfirst]? = some right := by
  have behind := (ordered.comparing i j comparing).1
  have before := sound.comparing i j comparing
  have lastLt := sound.last_lt
  refine ⟨by omega, ?_, ?_⟩
  · rw [← exact.ring.cell_behind behind (by omega), leftIs]
  · rw [← exact.ring.cell_behind (by omega) (by omega), rightIs]

theorem Ordered.exchanged {i j : ℕ} {left right : Slot} (comparing : view.stage = .comparing i j)
    (inside : j < view.sem.wlast) (leftIs : view.sem.waiting i = some left)
    (rightIs : view.sem.waiting j = some right)
    (exactNext : Exact { view with sem := view.sem.swap i j, stage := .comparing i (j + 1) } after) :
    after = exchange queue (i - view.sem.wfirst) (j - view.sem.wfirst) := by
  rcases ordered.entries sound exact comparing inside leftIs rightIs with ⟨_, leftAt, rightAt⟩
  have behind := (ordered.comparing i j comparing).1
  have before := sound.comparing i j comparing
  have lastLt := sound.last_lt
  have leftLt := (List.getElem?_eq_some_iff.mp leftAt).1
  have rightLt := (List.getElem?_eq_some_iff.mp rightAt).1
  have swapped := exact.exchange comparing leftLt rightLt
    (by rw [Nat.add_sub_of_le behind, Nat.mod_eq_of_lt (by omega)])
    (by rw [Nat.add_sub_of_le (by omega), Nat.mod_eq_of_lt (by omega)])
  exact exactNext.ring.unique swapped.ring

/-- The sort makes progress with every operation. A newcomer is sorted in, unless the queue
has wrapped; then it has to be in order at the end. -/
theorem Ordered.step (exactNext : Exact next after) (stepped : Step priority view op next)
    (inOrder : ∀ curproc, op = .acquire curproc → view.sem.value - 1 < 0 →
      view.sem.wfirst < (view.sem.wlast + 1) % NPROC ∨
        ∀ other ∈ view.waits, priority curproc ≤ priority other) :
    Ordered priority next after := by
  cases stepped with
  | pass | count =>
      cases exactNext.ring.unique exact.ring
      exact ⟨ordered.sorting, ordered.comparing, ordered.settled⟩
  | @block curproc free negative fresh =>
      cases exactNext.ring.unique (exact.enqueue free negative fresh).ring
      refine ⟨?_, by simp, by simp⟩
      intro i sorting
      cases sorting
      refine ⟨le_refl _, ?_, ?_⟩
      · show SortedTo _ (view.sem.wfirst - view.sem.wfirst)
        rw [Nat.sub_self]
        exact sortedTo_zero
      · intro wrapped
        have settled := ordered.descending (by simp [free]) (by simp [free]) (by simp [free])
        rcases inOrder curproc rfl negative with behind | lowest
        · exact absurd wrapped (not_le.mpr behind)
        · rw [Descending, List.map_append, List.pairwise_append]
          refine ⟨settled, by simp, ?_⟩
          intro x xMem y yMem
          rcases List.mem_map.mp xMem with ⟨other, inQueue, rfl⟩
          simp only [List.map_cons, List.map_nil, List.mem_singleton] at yMem
          subst yMem
          apply lowest other
          rw [← exact.mem_line, line_of_ne (by simp [free])]
          exact inQueue
  | @row i sorting more =>
      cases exactNext.ring.unique exact.ring
      rcases ordered.sorting i sorting with ⟨behind, sortedTo, _⟩
      refine ⟨by simp, ?_, by simp⟩
      intro left right comparing
      cases comparing
      refine ⟨behind, more, ?_⟩
      rw [Nat.sub_add_comm behind]
      exact sortedTo.select
  | @sorted i sorting done =>
      cases exactNext.ring.unique exact.ring
      rcases ordered.sorting i sorting with ⟨behind, sortedTo, wrapped⟩
      refine Ordered.of_descending ?_ (by simp) (by simp)
      rw [line_of_ne (by simp)]
      by_cases notWrapped : view.sem.wfirst < view.sem.wlast
      · apply sortedTo.descending
        rw [List.length_map, exact.ring.length_of_lt notWrapped]
        omega
      · exact wrapped (not_lt.mp notWrapped)
  | @compare i j left right comparing inside leftIs rightIs =>
      rcases ordered.comparing i j comparing with ⟨behind, more, selecting⟩
      rcases ordered.entries sound exact comparing inside leftIs rightIs with
        ⟨before, leftAt, rightAt⟩
      have leftKey : (queue.map priority)[i - view.sem.wfirst]? = some (priority left) := by
        simp [leftAt]
      have rightKey : (queue.map priority)[j - view.sem.wfirst]? = some (priority right) := by
        simp [rightAt]
      have advance : j + 1 - view.sem.wfirst = j - view.sem.wfirst + 1 := by omega
      by_cases ascending : priority left < priority right
      · simp only [if_pos ascending] at exactNext ⊢
        cases ordered.exchanged sound exact comparing inside leftIs rightIs exactNext
        refine ⟨by simp, ?_, by simp⟩
        intro left' right' same
        cases same
        refine ⟨behind, more, ?_⟩
        show Selecting _ _ (j + 1 - view.sem.wfirst)
        rw [map_exchange, advance]
        exact selecting.exchange before leftKey rightKey ascending
      · simp only [if_neg ascending] at exactNext ⊢
        cases exactNext.ring.unique exact.ring
        refine ⟨by simp, ?_, by simp⟩
        intro left' right' same
        cases same
        refine ⟨behind, more, ?_⟩
        rw [advance]
        exact selecting.keep leftKey rightKey (not_lt.mp ascending)
  | @rowDone i j comparing done =>
      cases exactNext.ring.unique exact.ring
      rcases ordered.comparing i j comparing with ⟨behind, more, selecting⟩
      refine ⟨?_, by simp, by simp⟩
      intro left sorting
      cases sorting
      refine ⟨Nat.le_succ_of_le behind, ?_, ?_⟩
      · rw [Nat.sub_add_comm behind]
        apply selecting.done
        rw [List.length_map, exact.ring.length_of_lt (by omega)]
        omega
      · intro wrapped
        have notWrapped : view.sem.wfirst < view.sem.wlast := by omega
        exact absurd wrapped (not_le.mpr notWrapped)
  | placeNext staged | placed staged | store staged | grant staged =>
      cases exactNext.ring.unique exact.ring
      have settled := ordered.descending (by simp [staged]) (by simp [staged]) (by simp [staged])
      exact Ordered.of_descending settled (by simp) (by simp)
  | wake called =>
      cases exactNext.ring.unique exact.ring
      have settled := ordered.descending (by simp [called]) (by simp [called]) (by simp [called])
      refine Ordered.of_descending ?_ (by simp) (by simp)
      rw [line_of_granted rfl, List.map_tail]
      exact settled.tail
  | dequeue granted =>
      cases exactNext.ring.unique (exact.dequeue granted).ring
      have settled := ordered.settled (by simp [granted]) (by simp [granted])
      rw [line_of_granted granted] at settled
      exact Ordered.of_descending settled (by simp) (by simp)

theorem Ordered.does {op : Option SemOp} (does : view.Does priority op next)
    (inOrder : ∀ curproc, op = some (.acquire curproc) → view.sem.value - 1 < 0 →
      view.sem.wfirst < (view.sem.wlast + 1) % NPROC ∨
        ∀ other ∈ view.waits, priority curproc ≤ priority other) :
    ∃ after, Exact next after ∧ Ordered priority next after := by
  cases op with
  | none =>
      have same : next = view := does
      rw [same]
      exact ⟨queue, exact, ordered⟩
  | some op =>
      rcases exact.step sound does with ⟨after, exactNext⟩
      refine ⟨after, exactNext, ordered.step sound exact exactNext does ?_⟩
      rintro curproc rfl
      exact inOrder curproc rfl

theorem Ordered.called {slot other : Slot} (called : view.stage = .called (some slot))
    (waits : other ∈ view.waits) : priority other ≤ priority slot := by
  have descending := ordered.descending (by simp [called]) (by simp [called]) (by simp [called])
  have isHead : queue.head? = some slot := by
    rw [← exact.ring.head, ← sound.called _ called]
  rw [← exact.mem_line, line_of_ne (by simp [called])] at waits
  cases queue with
  | nil => simp at isHead
  | cons head rest =>
      simp only [List.head?_cons, Option.some.injEq] at isHead
      subst isHead
      rcases List.mem_cons.mp waits with rfl | inRest
      · exact le_refl _
      · rw [Descending, List.map_cons, List.pairwise_cons] at descending
        exact descending.1 _ (List.mem_map_of_mem inRest)

end

end

/-- What the operations do to the line of waiters. -/
inductive LineStep (priority : Slot → ℤ) (value : ℤ) (line : List Slot) : SemOp → List Slot → Prop
  | stay {op : SemOp} (ready : ∀ curproc, op = .acquire curproc → 0 ≤ value - 1) :
      LineStep priority value line op line
  | join {curproc : Slot} (negative : value - 1 < 0) :
      LineStep priority value line (.acquire curproc) (line ++ [curproc])
  | exchange {left right : ℕ} {leftSlot rightSlot : Slot} (before : left < right)
      (leftAt : (line)[left]? = some leftSlot) (rightAt : (line)[right]? = some rightSlot)
      (ascending : priority leftSlot < priority rightSlot) :
      LineStep priority value line .sort (exchange line left right)
  | serve : LineStep priority value line (.wake line.head?) line.tail

theorem Ordered.lineStep (ordered : Ordered priority view queue) (sound : Sound view)
    (exact : Exact view queue) (exactNext : Exact next after)
    (stepped : Step priority view op next) :
    LineStep priority view.sem.value (view.line queue) op (next.line after) := by
  cases stepped with
  | pass free positive =>
      cases exactNext.ring.unique exact.ring
      exact .stay fun _ _ => positive
  | block free negative fresh =>
      cases exactNext.ring.unique (exact.enqueue free negative fresh).ring
      rw [line_of_ne (by simp [free]), line_of_ne (by simp)]
      exact .join negative
  | row staged | sorted staged | rowDone staged | placeNext staged | placed staged | store staged
  | grant staged =>
      cases exactNext.ring.unique exact.ring
      rw [line_of_ne (by simp [staged]), line_of_ne (by simp)]
      exact .stay (by simp)
  | @compare i j left right comparing inside leftIs rightIs =>
      rw [line_of_ne (by simp [comparing]), line_of_ne (by simp)]
      by_cases ascending : priority left < priority right
      · simp only [if_pos ascending] at exactNext
        cases ordered.exchanged sound exact comparing inside leftIs rightIs exactNext
        rcases ordered.entries sound exact comparing inside leftIs rightIs with
          ⟨before, leftAt, rightAt⟩
        exact .exchange before leftAt rightAt ascending
      · simp only [if_neg ascending] at exactNext
        cases exactNext.ring.unique exact.ring
        exact .stay (by simp)
  | count free positive =>
      cases exactNext.ring.unique exact.ring
      exact .stay (by simp)
  | @wake target called =>
      cases exactNext.ring.unique exact.ring
      have headIs : target = queue.head? := (sound.called target called).trans exact.ring.head
      rw [line_of_ne (by simp [called]), line_of_granted rfl, headIs]
      exact .serve
  | dequeue granted =>
      cases exactNext.ring.unique (exact.dequeue granted).ring
      rw [line_of_granted granted, line_of_ne (by simp)]
      exact .stay (by simp)

/-- Nobody passes a waiter in front of its equals, unless somebody of a higher priority joins
the line. -/
theorem LineStep.ahead {value : ℤ} {line afterLine : List Slot} {first second : Slot}
    (moved : LineStep priority value line op afterLine) (ahead : Ahead priority line first second)
    (notHigher : ∀ curproc, op = .acquire curproc → value - 1 < 0 →
      priority curproc ≤ priority first)
    (notWoken : op ≠ .wake (some first)) : Ahead priority afterLine first second := by
  cases moved with
  | stay ready => exact ahead
  | @join curproc negative => exact ahead.append (notHigher curproc rfl negative)
  | exchange before leftAt rightAt ascending => exact ahead.exchange before leftAt rightAt ascending
  | serve =>
      apply ahead.tail
      intro isHead
      exact notWoken (by rw [isHead])

theorem Step.free_of_acquire {curproc : Slot} (stepped : Step priority view (.acquire curproc) next) :
    view.stage = .free := by
  cases stepped with
  | pass free _ => exact free
  | block free _ _ => exact free

section

variable (ordered : Ordered priority view queue) (sound : Sound view) (exact : Exact view queue)
  (exactNext : Exact next after)

include ordered sound exact exactNext

theorem Ordered.ahead_does {op : Option SemOp} {first second : Slot}
    (does : view.Does priority op next) (ahead : Ahead priority (view.line queue) first second)
    (notHigher : ∀ curproc, op = some (.acquire curproc) → view.sem.value - 1 < 0 →
      priority curproc ≤ priority first)
    (notWoken : op ≠ some (.wake (some first))) :
    Ahead priority (next.line after) first second := by
  cases op with
  | none =>
      obtain rfl : next = view := does
      cases exactNext.ring.unique exact.ring
      exact ahead
  | some op =>
      refine (ordered.lineStep sound exact exactNext does).ahead ahead ?_ ?_
      · rintro curproc rfl
        exact notHigher curproc rfl
      · rintro rfl
        exact notWoken rfl

theorem Ordered.ahead_join {first curproc : Slot}
    (stepped : Step priority view (.acquire curproc) next) (negative : view.sem.value - 1 < 0)
    (waits : first ∈ view.waits) (notHigher : priority curproc ≤ priority first) :
    Ahead priority (next.line after) first curproc := by
  have free := stepped.free_of_acquire
  have descending := ordered.settled (by simp [free]) (by simp [free])
  rw [← exact.mem_line] at waits
  generalize lineIs : next.line after = lineAfter
  have moved := ordered.lineStep sound exact exactNext stepped
  rw [lineIs] at moved
  cases moved with
  | stay ready => exact absurd (ready curproc rfl) (not_le.mpr negative)
  | join _ => exact ahead_append descending waits notHigher

end

theorem Step.waits_subset {slot : Slot} (stepped : Step priority view op next)
    (waits : slot ∈ next.waits) : slot ∈ view.waits ∨ op = .acquire slot := by
  cases stepped with
  | block free negative fresh =>
      rcases Set.mem_insert_iff.mp waits with rfl | before
      · exact Or.inr rfl
      · exact Or.inl before
  | wake called => exact Or.inl waits.1
  | pass | row | sorted | compare | rowDone | placeNext | placed | store | count | grant
  | dequeue => exact Or.inl waits

theorem Step.waits_keep {slot : Slot} (stepped : Step priority view op next)
    (waits : slot ∈ view.waits) (notWoken : op ≠ .wake (some slot)) : slot ∈ next.waits := by
  cases stepped with
  | block free negative fresh => exact Set.mem_insert_of_mem _ waits
  | @wake target called =>
      refine ⟨waits, ?_⟩
      rintro rfl
      exact notWoken rfl
  | pass | row | sorted | compare | rowDone | placeNext | placed | store | count | grant
  | dequeue => exact waits

theorem succ_lt_of_mod_ne {index size : ℕ} (indexLt : index < size)
    (inside : (index + 1) % size ≠ 0) : index + 1 < size := by
  by_contra atEnd
  have isSize : index + 1 = size := by omega
  exact inside (by rw [isSize, Nat.mod_self])

theorem Step.waits_acquire {curproc : Slot} (stepped : Step priority view (.acquire curproc) next)
    (negative : view.sem.value - 1 < 0) : curproc ∈ next.waits := by
  cases stepped with
  | pass _ positive => omega
  | block => exact Set.mem_insert _ _

theorem Step.waiting_outside {index : ℕ} (stepped : Step priority view op next) (sound : Sound view)
    (outside : NPROC ≤ index) : next.sem.waiting index = view.sem.waiting index := by
  have firstLt := sound.first_lt
  have lastLt := sound.last_lt
  cases stepped with
  | block =>
      have notTail : index ≠ view.sem.wlast := by omega
      exact Function.update_of_ne notTail _ _
  | @compare i j left right comparing inside =>
      have before := sound.comparing i j comparing
      split
      · rw [waiting_swap, Equiv.swap_apply_of_ne_of_ne (by omega) (by omega)]
      · rfl
  | dequeue =>
      have notHead : index ≠ view.sem.wfirst := by omega
      exact Function.update_of_ne notHead _ _
  | pass | row | sorted | rowDone | placeNext | placed | store | count | grant | wake => rfl

/-- The queue lies between head and tail, as the array has it. -/
def Unwrapped (view : SemView) : Prop :=
  (view.sem.wlast : ℤ) = view.sem.wfirst + max 0 (-view.sem.value) + view.stage.pending

theorem Unwrapped.step (unwrapped : Unwrapped view) (sound : Sound view)
    (stepped : Step priority view op next)
    (noWrap : ∀ curproc, op = .acquire curproc → view.sem.value - 1 < 0 →
      (view.sem.wlast + 1) % NPROC ≠ 0) : Unwrapped next := by
  have lastLt := sound.last_lt
  unfold Unwrapped at unwrapped ⊢
  cases stepped with
  | pass free | count free | grant free =>
      simp only [free, Stage.pending] at unwrapped ⊢
      omega
  | @block curproc free negative fresh =>
      have inside := noWrap curproc rfl negative
      have room := succ_lt_of_mod_ne lastLt inside
      simp only [free, Stage.pending, Sem.enqueue, Nat.mod_eq_of_lt room] at unwrapped ⊢
      push_cast
      omega
  | row staged | sorted staged | rowDone staged | placeNext staged | placed staged | store staged
  | wake staged => simpa [staged, Stage.pending] using unwrapped
  | compare comparing inside leftIs rightIs =>
      simp only [comparing, Stage.pending] at unwrapped ⊢
      split <;> exact unwrapped
  | dequeue granted =>
      simp only [granted, Stage.pending] at unwrapped
      have room : view.sem.wfirst + 1 < NPROC := by omega
      simp only [Stage.pending, Sem.dequeue, Nat.mod_eq_of_lt room]
      push_cast
      omega

theorem Unwrapped.inOrder (unwrapped : Unwrapped view) (free : view.stage = .free)
    (inside : (view.sem.wlast + 1) % NPROC ≠ 0) (sound : Sound view) :
    view.sem.wfirst < (view.sem.wlast + 1) % NPROC := by
  have lastLt := sound.last_lt
  simp only [Unwrapped, free, Stage.pending] at unwrapped
  rw [Nat.mod_eq_of_lt (succ_lt_of_mod_ne lastLt inside)]
  omega

end SemView

end Xv6
