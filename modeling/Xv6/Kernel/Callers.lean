import Xv6.Console.Print
import Xv6.Lib.Window

/-!
# Who has called

`push_p_hist` notes the pid of the caller of each system call in a ring for the number of the
call, and `get_callers` prints the ring, oldest caller first.
-/

namespace Xv6

/-- Number of callers that are remembered, and of system calls. -/
abbrev PROC_HIST_SIZE : ℕ := 1000
abbrev SYS_CALL_NUM : ℕ := 35

/-- `struct syscall_hist`; the array has `PROC_HIST_SIZE` entries. -/
structure SyscallHist where
  pids : ℕ → Console.Word
  size : Console.Word

abbrev PHist := Fin SYS_CALL_NUM → SyscallHist

def pHist : PHist := fun _ => { pids := fun _ => 0, size := 0 }

/-- An index into the array; C's `%` truncates towards zero, so it may be negative. -/
def pidIndex (index : ℤ) : Option ℕ :=
  if 0 ≤ index ∧ index < PROC_HIST_SIZE then some index.toNat else none

/-- There is no result if the store is outside of the array. -/
def pushPHist (pHist : PHist) (pid : Console.Word) (syscallNumber : Fin SYS_CALL_NUM) : Option PHist :=
  let hist := pHist syscallNumber
  (pidIndex (hist.size.toInt.tmod PROC_HIST_SIZE)).map fun curSize =>
    Function.update pHist syscallNumber
      { pids := Function.update hist.pids curSize pid, size := hist.size + 1 }

inductive CallersError where
  | outOfBounds
  | badFormat
  | stillRunning
  deriving DecidableEq

def getCallersLoop (pids : ℕ → Console.Word) (limit : ℤ) : ℕ → ℤ → Except CallersError (List Char)
  | 0, _ => .error .stillRunning
  | fuel + 1, i => do
      let index ← (pidIndex i).elim (.error .outOfBounds) .ok
      let shown ← (Console.cprintf "%d".toList [.word (pids index)]).elim (.error .badFormat) .ok
      let next := (i + 1).tmod PROC_HIST_SIZE
      if next = limit then
        return shown
      else
        let rest ← getCallersLoop pids limit fuel next
        return shown ++ ", ".toList ++ rest

def getCallers (fuel : ℕ) (pHist : PHist) (syscallNumber : Fin SYS_CALL_NUM) :
    Except CallersError (List Char) := do
  let limit := (pHist syscallNumber).size.toInt
  if limit = 0 then
    (Console.cprintf "No process has called system call number %d.\n".toList
      [.word (BitVec.ofNat 32 syscallNumber)]).elim (.error .badFormat) .ok
  else
    let i := if limit > PROC_HIST_SIZE then limit.tmod PROC_HIST_SIZE else 0
    let shown ← getCallersLoop (pHist syscallNumber).pids (limit.tmod PROC_HIST_SIZE) fuel i
    return shown ++ "\n".toList

def pushAll : PHist → List (Console.Word × Fin SYS_CALL_NUM) → Option PHist
  | pHist, [] => some pHist
  | pHist, push :: pushes => (pushPHist pHist push.1 push.2).bind fun next => pushAll next pushes

/-! ## What is remembered -/

/-- The pids pushed for a system call, oldest first. -/
def callers (number : Fin SYS_CALL_NUM) (pushes : List (Console.Word × Fin SYS_CALL_NUM)) : List Console.Word :=
  (pushes.filter fun push => push.2 = number).map Prod.fst

/-- The callers that are remembered, as they are to be printed. -/
def callersText (number : Fin SYS_CALL_NUM) (pids : List Console.Word) : List Char :=
  if pids = [] then
    "No process has called system call number ".toList ++ Console.decimal number ++ ".\n".toList
  else
    let recent := pids.drop (pids.length - PROC_HIST_SIZE)
    ", ".toList.intercalate (recent.map fun pid => Console.decimal pid.toInt) ++ "\n".toList

/-- The ring of a system call holds the last callers. -/
structure HistInv (hist : SyscallHist) (pids : List Console.Word) : Prop where
  size : hist.size.toInt = pids.length
  window : Window.Holds PROC_HIST_SIZE hist.pids (pids.length - PROC_HIST_SIZE) pids

theorem pidIndex_mod (count : ℕ) :
    pidIndex ((count : ℤ).tmod PROC_HIST_SIZE) = some (count % PROC_HIST_SIZE) := by
  have bound : count % PROC_HIST_SIZE < PROC_HIST_SIZE := Nat.mod_lt _ (by decide)
  rw [← Int.ofNat_tmod, pidIndex, if_pos ⟨by omega, by omega⟩, Int.toNat_natCast]

namespace HistInv

variable {hist : SyscallHist} {pids : List Console.Word} {pid : Console.Word}

theorem push (inv : HistInv hist pids) (short : pids.length + 1 < 2 ^ 31) :
    HistInv { pids := Function.update hist.pids (pids.length % PROC_HIST_SIZE) pid
              size := hist.size + 1 } (pids ++ [pid]) where
  size := by
    have one : (1 : Console.Word).toInt = 1 := rfl
    rw [BitVec.toInt_add, inv.size, one, List.length_append, List.length_singleton,
      Int.bmod_eq_of_le (by omega) (by omega)]
    rfl
  window := by
    rw [List.length_append, List.length_singleton]
    by_cases full : PROC_HIST_SIZE ≤ pids.length
    · -- the oldest caller is forgotten
      have moved := inv.window.advance (Nat.sub_lt (lt_of_lt_of_le (by decide) full) (by decide))
      have low : pids.length - PROC_HIST_SIZE + 1 = pids.length + 1 - PROC_HIST_SIZE := by omega
      rw [low] at moved
      exact moved.push (by omega)
    · have low : pids.length - PROC_HIST_SIZE = pids.length + 1 - PROC_HIST_SIZE := by omega
      have window := inv.window
      rw [low] at window
      exact window.push (by omega)

theorem loop (inv : HistInv hist pids) (fuel k : ℕ) (inside : k < pids.length)
    (recent : pids.length - PROC_HIST_SIZE ≤ k) (enough : pids.length - k ≤ fuel) :
    getCallersLoop hist.pids ((pids.length : ℤ).tmod PROC_HIST_SIZE) fuel
        ((k : ℤ).tmod PROC_HIST_SIZE) =
      .ok (", ".toList.intercalate ((pids.drop k).map fun pid => Console.decimal pid.toInt)) := by
  induction fuel generalizing k with
  | zero => omega
  | succ fuel ih =>
      have cell := inv.window.cell k recent inside
      rw [List.getElem?_eq_getElem inside, Option.some.injEq] at cell
      have shown : Console.cprintf "%d".toList [.word (hist.pids (k % PROC_HIST_SIZE))] =
          some (Console.decimal (hist.pids (k % PROC_HIST_SIZE)).toInt) := by
        have fmt : "%d".toList = ['%', 'd'] := by decide
        rw [fmt, Console.cprintf_decimal, Console.cprintf, Option.map_some, List.append_nil]
      have next : ((k : ℤ).tmod PROC_HIST_SIZE + 1).tmod PROC_HIST_SIZE =
          ((k + 1 : ℕ) : ℤ).tmod PROC_HIST_SIZE := by
        have sum : ((k % PROC_HIST_SIZE : ℕ) : ℤ) + 1 = (k % PROC_HIST_SIZE + 1 : ℕ) := rfl
        rw [← Int.ofNat_tmod, sum, ← Int.ofNat_tmod, ← Int.ofNat_tmod, Nat.mod_add_mod]
      have limit : ((k + 1 : ℕ) : ℤ).tmod PROC_HIST_SIZE = (pids.length : ℤ).tmod PROC_HIST_SIZE ↔
          k + 1 = pids.length := by
        rw [← Int.ofNat_tmod, ← Int.ofNat_tmod, Int.natCast_inj]
        simp only [PROC_HIST_SIZE] at recent ⊢
        omega
      rw [List.drop_eq_getElem_cons inside, cell, List.map_cons]
      simp only [getCallersLoop, pidIndex_mod, Option.elim_some, bind, Except.bind, shown, next,
        limit, pure, Except.pure]
      by_cases last : k + 1 = pids.length
      · have none : pids.drop (k + 1) = [] := List.drop_eq_nil_of_le last.ge
        rw [if_pos last, none]
        simp [List.intercalate]
      · have more : k + 1 < pids.length := by omega
        rw [if_neg last, ih (k + 1) more (by omega) (by omega), List.drop_eq_getElem_cons more]
        simp only [List.intercalate, List.map_cons, List.intersperse_cons_cons, List.flatten_cons,
          List.append_assoc]

theorem shown (inv : HistInv hist pids) (number : Fin SYS_CALL_NUM) (pHist : PHist)
    (isHist : pHist number = hist) (fuel : ℕ) (enough : PROC_HIST_SIZE ≤ fuel) :
    getCallers fuel pHist number = .ok (callersText number pids) := by
  have size : (pHist number).size.toInt = pids.length := by rw [isHist, inv.size]
  unfold getCallers callersText
  simp only [size]
  by_cases empty : pids = []
  · have fmt : "No process has called system call number %d.\n".toList =
        "No process has called system call number ".toList ++ '%' :: 'd' :: ".\n".toList := by
      decide
    have value : ∀ other : Fin SYS_CALL_NUM, (BitVec.ofNat 32 other).toInt = other := by decide
    rw [if_pos (by simp [empty]), if_pos empty, fmt,
      Console.cprintf_append (by decide), Console.cprintf_decimal, value,
      ← List.append_nil ".\n".toList, Console.cprintf_append (by decide), Console.cprintf]
    simp
  · have positive : 0 < pids.length := List.length_pos_iff.mpr empty
    have start : (if (pids.length : ℤ) > PROC_HIST_SIZE then (pids.length : ℤ).tmod PROC_HIST_SIZE
        else 0) = ((pids.length - PROC_HIST_SIZE : ℕ) : ℤ).tmod PROC_HIST_SIZE := by
      by_cases full : pids.length > PROC_HIST_SIZE
      · rw [if_pos (by omega), ← Int.ofNat_tmod, ← Int.ofNat_tmod, Nat.mod_eq_sub_mod full.le]
      · rw [if_neg (by omega), Nat.sub_eq_zero_of_le (not_lt.mp full)]
        rfl
    have printed := inv.loop fuel (pids.length - PROC_HIST_SIZE)
      (Nat.sub_lt positive (by decide)) (le_refl _) (by omega)
    rw [if_neg (by omega), start, isHist, printed, if_neg empty]
    rfl

end HistInv

/-- Every ring holds the last callers of its system call. -/
def CallersInv (pHist : PHist) (pushes : List (Console.Word × Fin SYS_CALL_NUM)) : Prop :=
  ∀ number, HistInv (pHist number) (callers number pushes)

namespace CallersInv

variable {before : PHist} {past : List (Console.Word × Fin SYS_CALL_NUM)}

theorem pushPHist (inv : CallersInv before past) (push : Console.Word × Fin SYS_CALL_NUM)
    (short : (callers push.2 past).length + 1 < 2 ^ 31) :
    ∃ next, pushPHist before push.1 push.2 = some next ∧ CallersInv next (past ++ [push]) := by
  have index : pidIndex ((before push.2).size.toInt.tmod PROC_HIST_SIZE) =
      some ((callers push.2 past).length % PROC_HIST_SIZE) := by
    rw [(inv push.2).size, pidIndex_mod]
  refine ⟨_, by rw [Xv6.pushPHist, index, Option.map_some], ?_⟩
  intro number
  by_cases same : number = push.2
  · subst same
    have grown : callers push.2 (past ++ [push]) = callers push.2 past ++ [push.1] := by
      simp [callers]
    rw [Function.update_self, grown]
    exact (inv push.2).push short
  · have unchanged : callers number (past ++ [push]) = callers number past := by
      have different : ¬push.2 = number := fun isNumber => same isNumber.symm
      simp [callers, different]
    rw [Function.update_of_ne same, unchanged]
    exact inv number

theorem pushAll (inv : CallersInv before past) (pushes : List (Console.Word × Fin SYS_CALL_NUM))
    (short : ∀ number, (callers number (past ++ pushes)).length < 2 ^ 31) :
    ∃ next, pushAll before pushes = some next ∧ CallersInv next (past ++ pushes) := by
  induction pushes generalizing before past with
  | nil => exact ⟨before, rfl, by simpa using inv⟩
  | cons push pushes ih =>
      have room := short push.2
      simp only [callers, List.filter_append, List.map_append, List.length_append, List.filter_cons,
        decide_true, if_true, List.map_cons, List.length_cons] at room
      rcases inv.pushPHist push (by rw [callers]; omega) with ⟨middle, pushed, middleInv⟩
      rcases ih middleInv (by simpa using short) with ⟨next, pushedAll, nextInv⟩
      refine ⟨next, ?_, ?_⟩
      · rw [Xv6.pushAll, pushed]
        exact pushedAll
      · simpa using nextInv

theorem start : CallersInv pHist [] :=
  fun _ => ⟨rfl, by simpa [callers] using Window.Holds.nil⟩

end CallersInv

/-- For every sequence of fewer than 2^31 calls of `push_p_hist`, none of them stores outside of
an array, and `get_callers` prints the last callers of the system call, oldest first. -/
theorem getCallers_recent (pushes : List (Console.Word × Fin SYS_CALL_NUM))
    (short : pushes.length < 2 ^ 31) (number : Fin SYS_CALL_NUM) :
    ∃ after, pushAll pHist pushes = some after ∧ ∀ fuel, PROC_HIST_SIZE ≤ fuel →
      getCallers fuel after number = .ok (callersText number (callers number pushes)) := by
  have shorter : ∀ number, (callers number pushes).length < 2 ^ 31 := by
    intro number
    rw [callers, List.length_map]
    exact (List.length_filter_le _ _).trans_lt short
  rcases CallersInv.start.pushAll pushes shorter with ⟨after, pushed, inv⟩
  rw [List.nil_append] at inv
  exact ⟨after, pushed, fun fuel enough => (inv number).shown number after rfl fuel enough⟩

/-- Three calls of `fork`, and one of another system call in between. -/
theorem getCallers_three_forks :
    ∃ after, pushAll pHist [(3, 1), (7, 1), (7, 16), (4, 1)] = some after ∧
      ∀ fuel, PROC_HIST_SIZE ≤ fuel → getCallers fuel after 1 = .ok "3, 7, 4\n".toList := by
  have text : callersText 1 (callers 1 [(3, 1), (7, 1), (7, 16), (4, 1)]) = "3, 7, 4\n".toList := by
    decide +kernel
  have recent := getCallers_recent [(3, 1), (7, 1), (7, 16), (4, 1)] (by decide) 1
  rwa [text] at recent

/-- As long as no count has left the positive numbers, no index leaves its array and `get_callers`
returns. -/
theorem callers_inside (pushes : List (Console.Word × Fin SYS_CALL_NUM))
    (short : ∀ number, (callers number pushes).length < 2 ^ 31) :
    ∃ after, pushAll pHist pushes = some after ∧ ∀ number fuel, PROC_HIST_SIZE ≤ fuel →
      ∃ text, getCallers fuel after number = .ok text := by
  rcases CallersInv.start.pushAll pushes short with ⟨after, pushed, inv⟩
  refine ⟨after, pushed, ?_⟩
  intro number fuel enough
  exact ⟨_, (inv number).shown number after rfl fuel enough⟩

theorem callers_inside_three_forks :
    ∃ after, pushAll pHist [(3, 1), (7, 1), (4, 1)] = some after ∧
      ∃ text, getCallers PROC_HIST_SIZE after 1 = .ok text := by
  rcases callers_inside [(3, 1), (7, 1), (4, 1)] (by decide) with ⟨after, pushed, returns⟩
  exact ⟨after, pushed, returns 1 _ le_rfl⟩

theorem pushAll_append (before : PHist) (first second : List (Console.Word × Fin SYS_CALL_NUM)) :
    pushAll before (first ++ second) = (pushAll before first).bind fun next => pushAll next second := by
  induction first generalizing before with
  | nil => rfl
  | cons push first ih =>
      rw [List.cons_append, pushAll, pushAll, Option.bind_assoc]
      simp only [ih]

/-- After 2^31 calls of one system call the index is -648. -/
theorem index_leaves_array :
    pushAll pHist (List.replicate (2 ^ 31 - 1) (1, 0) ++ [(1, 0), (1, 0)]) = none := by
  obtain ⟨count, isCount⟩ : ∃ count, count = 2 ^ 31 - 1 := ⟨_, rfl⟩
  have onlyOne : ∀ number, (callers number (List.replicate count (1, 0))).length < 2 ^ 31 := by
    intro number
    rw [callers, List.length_map]
    refine (List.length_filter_le _ _).trans_lt ?_
    rw [List.length_replicate]
    omega
  have allSame : callers 0 (List.replicate count (1, 0)) = List.replicate count 1 := by simp [callers]
  rw [← isCount, pushAll_append]
  rcases CallersInv.start.pushAll _ onlyOne with ⟨after, pushed, inv⟩
  have size := (inv 0).size
  rw [List.nil_append, allSame, List.length_replicate] at size
  rw [pushed, Option.bind_some, pushAll, pushPHist]
  have isSize : (after 0).size = BitVec.ofNat 32 (2 ^ 31 - 1) := by
    apply BitVec.eq_of_toInt_eq
    rw [size, isCount]
    rfl
  simp [isSize, pushAll, pushPHist, pidIndex]

end Xv6
