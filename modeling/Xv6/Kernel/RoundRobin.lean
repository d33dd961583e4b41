import Xv6.Kernel.Scheduler
import Xv6.Lib.Run

/-!
# Fairness of round robin

The loop of `scheduler` on one processor, while the other processors and the processes change
the table as they like. The loop keeps the index that `roundrobin` returned last, also while it
runs processes of the other queues.
-/

namespace Xv6

open Transition

variable {Sub : Type}

/-- The table, and `lastScheduledIdx` of one processor. -/
structure LoopState (Sub : Type) where
  kern : Kern Sub
  lastScheduledIdx : Slot

/-- The loop makes a turn, or something else changes the table. -/
inductive LoopLabel (Sub : Type) where
  | turn
  | others (kern : Kern Sub)

def Kern.switchTo (kern : Kern Sub) (p : Slot) : Kern Sub :=
  kern.modify p fun proc => proc.dispatch (toInt kern.ticks)

/-- One turn of the loop, up to the switch. -/
def LoopState.turn (state : LoopState Sub) : LoopState Sub :=
  match state.kern.roundrobin state.lastScheduledIdx with
  | some idx => { kern := state.kern.switchTo idx, lastScheduledIdx := idx }
  | none =>
      match state.kern.choose state.lastScheduledIdx with
      | some p => { state with kern := state.kern.switchTo p }
      | none => state

def loopStep (state : LoopState Sub) : LoopLabel Sub → Option (LoopState Sub)
  | .turn => some state.turn
  | .others kern => some { state with kern }

abbrev LoopTrace (Sub : Type) := Trace (LoopState Sub) (LoopLabel Sub)

/-- The index that the step gets from `roundrobin`. -/
def picked : LoopState Sub × LoopLabel Sub → Option Slot
  | (state, .turn) => state.kern.roundrobin state.lastScheduledIdx
  | (_, .others _) => none

/-- The process waits in round robin whenever the loop looks at the table. -/
def WaitsAtTurns (j : Slot) (trace : LoopTrace Sub) : Prop :=
  ∀ state, (state, .turn) ∈ trace → state.kern.Waits ROUND_ROBIN j

variable {start state next first second : LoopState Sub} {label : LoopLabel Sub}
  {trace between earlier : LoopTrace Sub} {i j k last : Slot}

theorem LoopState.turn_of_picked (isPicked : state.kern.roundrobin state.lastScheduledIdx = some k) :
    state.turn = { kern := state.kern.switchTo k, lastScheduledIdx := k } := by
  simp [LoopState.turn, isPicked]

/-- The loop has not come to `j` since it was at `i`. -/
def Before (i j last : Slot) : Prop := last = i ∨ turnsTo i last < turnsTo i j

theorem Before.step {kern : Kern Sub} (before : Before i j last)
    (isPicked : kern.roundrobin last = some k) (waits : kern.Waits ROUND_ROBIN j)
    (different : k ≠ j) : Before i j k := by
  have first := ((kern.roundrobin_spec last).2 k isPicked).2 j waits
  have unequal : turnsTo i k ≠ turnsTo i j := fun same => different (eq_of_turnsTo same)
  have bound : turnsTo i j < NPROC := turnsTo_lt
  right
  rcases before with same | earlier
  · rw [same] at first
    exact lt_of_le_of_ne first unequal
  · have toJ := turnsTo_add earlier
    have toK : turnsTo i k = turnsTo i last + 1 + turnsTo last k := by
      apply turnsTo_add_lt
      omega
    omega

theorem Before.not_back {kern : Kern Sub} (before : Before i j last)
    (isPicked : kern.roundrobin last = some i) (waits : kern.Waits ROUND_ROBIN j) : j = i := by
  have first := ((kern.roundrobin_spec last).2 i isPicked).2 j waits
  have bound : turnsTo i j < NPROC := turnsTo_lt
  have own : turnsTo i i = NPROC - 1 := turnsTo_self
  suffices same : turnsTo i j = turnsTo i i by exact eq_of_turnsTo same
  rcases before with same | earlier
  · rw [same] at first
    omega
  · have toJ := turnsTo_add earlier
    have toI : turnsTo i last + 1 + turnsTo last i = turnsTo i i := by
      apply turnsTo_add
      omega
    omega

theorem before_of_run (run : Run loopStep start trace state) (atStart : start.lastScheduledIdx = i)
    (waits : WaitsAtTurns j trace) (unpicked : ∀ entry ∈ trace, picked entry ≠ some j) :
    Before i j state.lastScheduledIdx := by
  induction run with
  | refl => exact Or.inl atStart
  | @tail trace state next label run stepped ih =>
      have before : Before i j state.lastScheduledIdx := by
        apply ih
        · exact fun other mem => waits other (List.mem_cons_of_mem _ mem)
        · exact fun entry mem => unpicked entry (List.mem_cons_of_mem _ mem)
      cases label with
      | others kern =>
          cases stepped
          exact before
      | turn =>
          cases stepped
          have nowWaits := waits state List.mem_cons_self
          have notNow := unpicked (state, .turn) List.mem_cons_self
          cases isPicked : state.kern.roundrobin state.lastScheduledIdx with
          | none => exact absurd nowWaits ((state.kern.roundrobin_spec _).1 isPicked j)
          | some k =>
              rw [LoopState.turn_of_picked isPicked]
              apply before.step isPicked nowWaits
              rintro rfl
              exact notNow isPicked

theorem not_waits_of_picked {entry : LoopState Sub × LoopLabel Sub} (isPicked : picked entry = some j)
    (stepped : loopStep entry.1 entry.2 = some next) : ¬next.kern.Waits ROUND_ROBIN j := by
  rcases entry with ⟨state, label⟩
  cases label with
  | others kern => simp [picked] at isPicked
  | turn =>
      cases stepped
      rintro ⟨runnable, _⟩
      simp [LoopState.turn_of_picked isPicked, Kern.switchTo, Kern.modify] at runnable

/-- Between two times that the loop takes `i` from `roundrobin`, it takes every other process that
waits in round robin whenever it looks, and so no other process waits all the time. -/
theorem roundrobin_fair (run : Run loopStep start (between ++ (first, .turn) :: earlier) second)
    (pickedFirst : picked (first, .turn) = some i) (pickedAgain : picked (second, .turn) = some i)
    (different : j ≠ i) :
    (WaitsAtTurns j ((second, .turn) :: between) → ∃ entry ∈ between, picked entry = some j) ∧
      ∃ state ∈ second :: between.map Prod.fst, ¬state.kern.Waits ROUND_ROBIN j := by
  rcases run.split with ⟨_, middle, entered, since⟩
  cases entered
  have atStart : first.turn.lastScheduledIdx = i := by
    rw [LoopState.turn_of_picked pickedFirst]
  have taken : WaitsAtTurns j ((second, .turn) :: between) →
      ∃ entry ∈ between, picked entry = some j := by
    intro waits
    by_contra none
    have unpicked : ∀ entry ∈ between, picked entry ≠ some j :=
      fun entry mem isPicked => none ⟨entry, mem, isPicked⟩
    have before := before_of_run since atStart
      (fun state mem => waits state (List.mem_cons_of_mem _ mem)) unpicked
    exact different (before.not_back pickedAgain (waits second List.mem_cons_self))
  refine ⟨taken, ?_⟩
  by_contra throughout
  have waits : ∀ state ∈ second :: between.map Prod.fst, state.kern.Waits ROUND_ROBIN j := by
    intro state mem
    by_contra notWaits
    exact throughout ⟨state, mem, notWaits⟩
  have atTurns : WaitsAtTurns j ((second, .turn) :: between) := by
    intro state mem
    apply waits
    rcases List.mem_cons.mp mem with isSecond | older
    · cases isSecond
      exact List.mem_cons_self
    · exact List.mem_cons_of_mem _ (List.mem_map_of_mem older)
  rcases taken atTurns with ⟨entry, mem, isPicked⟩
  rcases since.next_mem mem with ⟨next, nextMem, stepped⟩
  exact not_waits_of_picked isPicked stepped (waits next nextMem)

/-- The first two processes wait in round robin. -/
def twoWaiting : Kern Unit where
  proc := fun slot =>
    if slot ≤ 1 then
      { Proc.empty with
        state := .runnable
        scheduleStatus := { SchedStat.fresh with queueId := ROUND_ROBIN } }
    else .empty
  initproc := 0
  nextpid := 3
  ticks := 0
  freePages := []
  sub := ()

/-- The loop begins with the first process; afterwards both wait again. -/
def firstTurn : LoopState Unit := { kern := twoWaiting, lastScheduledIdx := 9 }
def bothAgain (state : LoopState Unit) : LoopState Unit := { state with kern := twoWaiting }

theorem second_process_between_two_turns :
    Run loopStep firstTurn
        ([((bothAgain firstTurn.turn).turn, .others twoWaiting), (bothAgain firstTurn.turn, .turn),
          (firstTurn.turn, .others twoWaiting)] ++ [(firstTurn, .turn)])
        (bothAgain (bothAgain firstTurn.turn).turn) ∧
      picked (firstTurn, .turn) = some 0 ∧
      picked (bothAgain (bothAgain firstTurn.turn).turn, .turn) = some 0 ∧
      ∃ entry ∈ [((bothAgain firstTurn.turn).turn, .others twoWaiting),
        (bothAgain firstTurn.turn, .turn), (firstTurn.turn, .others twoWaiting)],
        picked entry = some 1 := by
  have run : Run loopStep firstTurn
      ([((bothAgain firstTurn.turn).turn, .others twoWaiting), (bothAgain firstTurn.turn, .turn),
        (firstTurn.turn, .others twoWaiting)] ++ [(firstTurn, .turn)])
      (bothAgain (bothAgain firstTurn.turn).turn) :=
    (((Run.refl.tail rfl).tail rfl).tail rfl).tail rfl
  have pickedFirst : picked (firstTurn, .turn) = some 0 := by decide
  have pickedAgain : picked (bothAgain (bothAgain firstTurn.turn).turn, .turn) = some 0 := by decide
  refine ⟨run, pickedFirst, pickedAgain, ?_⟩
  apply (roundrobin_fair run pickedFirst pickedAgain (by decide)).1
  intro state mem
  simp only [List.mem_cons, Prod.mk.injEq, reduceCtorEq, and_false, and_true, List.not_mem_nil,
    or_false, false_or] at mem
  rcases mem with rfl | rfl <;> decide

end Xv6
