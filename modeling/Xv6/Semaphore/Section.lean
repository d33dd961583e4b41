import Xv6.Semaphore.Abstract
import Xv6.Semaphore.Locking

/-!
# Where a thread is in the semaphore functions

The code left to a thread says where in `semaphore_acquire` or `semaphore_release` it is.
A thread is outside, has entered but not yet taken the lock, is at one of the stages of the
abstract semaphore, does the rest of a blocking `semaphore_acquire`, or is about to give up
the processor in `sleep`. Nothing else occurs (`Placed`), and each of these forms fixes what
the thread does next.
-/

namespace Xv6

open Threads

/-- What a process still has to do when it wakes up in `semaphore_acquire`. -/
def wakeTail (sem : SemId) : SemCode :=
  [.act .clearChan, .release .ptable, .acquire (.sem sem), .release (.sem sem)]

/-- A blocking `semaphore_acquire` from the release of `lk` in `sleep` on. -/
def blockTail (sem : SemId) : SemCode :=
  .release (.sem sem) :: .act (.sleepSched (.sem sem)) :: wakeTail sem

/-- A blocking `semaphore_acquire` after the places have been stored. -/
def afterPlace (sem : SemId) : SemCode :=
  .acquire .ptable :: printProcessInfo ++ [.release .ptable, .acquire .ptable] ++ blockTail sem

/-- A blocking `semaphore_acquire` after the sort. -/
def afterSort (sem : SemId) : SemCode := semAct (.placeLoop sem 0) :: afterPlace sem

/-- `semaphore_release` after `wakeupproc`. -/
def afterWake (sem : SemId) : SemCode := [semAct (.dequeue sem), .release (.sem sem)]

theorem blockCode_append (sem : SemId) (wfirst : ℕ) :
    blockCode sem wfirst ++ [.release (.sem sem)] =
      semAct (.sortOuter sem wfirst) :: afterSort sem := by
  simp [blockCode, afterSort, afterPlace, sleep, blockTail, wakeTail]

/-- The code of a thread at a stage of the abstract semaphore. -/
inductive At (sem : SemId) : SemCode → Stage → Prop
  | sorting {i : ℕ} : At sem (semAct (.sortOuter sem i) :: afterSort sem) (.sorting i)
  | comparing {i j : ℕ} :
      At sem (semAct (.sortInner sem i j) :: semAct (.sortOuter sem (i + 1)) :: afterSort sem)
        (.comparing i j)
  | placing {i : ℕ} : At sem (semAct (.placeLoop sem i) :: afterPlace sem) (.placing i)
  | storing {i : ℕ} :
      At sem (.acquire .ptable :: semAct (.placeStore sem i) :: .release .ptable ::
        semAct (.placeLoop sem (i + 1)) :: afterPlace sem) (.storing i)
  | locked {i : ℕ} :
      At sem (semAct (.placeStore sem i) :: .release .ptable ::
        semAct (.placeLoop sem (i + 1)) :: afterPlace sem) (.storing i)
  | stored {i : ℕ} :
      At sem (.release .ptable :: semAct (.placeLoop sem (i + 1)) :: afterPlace sem)
        (.placing (i + 1))
  | calling {target : Option Slot} :
      At sem (.acquire .ptable :: semAct (.wakeupproc target) :: .release .ptable :: afterWake sem)
        (.called target)
  | called {target : Option Slot} :
      At sem (semAct (.wakeupproc target) :: .release .ptable :: afterWake sem) (.called target)
  | woken : At sem (.release .ptable :: afterWake sem) .granted
  | granted : At sem (afterWake sem) .granted

/-- An instruction that is no part of a semaphore function, or a lock operation. -/
def Foreign : Instr Lock (Act SemAct) → Prop
  | .act (.sub (.keys _)) | .act (.sub .procdump) | .act (.sub .readLoop) => True
  | .act (.sub _) => False
  | .act (.sleepSched chan) | .act (.wakeup1 chan) => ∀ sem, chan ≠ .sem sem
  | _ => True

/-- An instruction of the part of `semaphore_acquire` that prints. -/
def PrintInstr : Instr Lock (Act SemAct) → Prop
  | .act (.sub (.printRow _)) => True
  | .acquire lock | .release lock => lock = .ptable ∨ lock = .cons
  | _ => False

/-- The thread is not in a semaphore function, or has not taken the lock yet. -/
inductive Open : SemCode → Prop
  | outside {code : SemCode} (foreign : ∀ instr ∈ code, Foreign instr) : Open code
  | entered {before : SemCode} {body : SemAct} {sem : SemId}
      (foreign : ∀ instr ∈ before, Foreign instr)
      (isBody : body = .acquireBody sem ∨ body = .releaseBody sem) :
      Open (before ++ [semAct body, .release (.sem sem)])

inductive Placed : SemCode → Prop
  | idle {code : SemCode} (isOpen : Open code) : Placed code
  | busy {sem : SemId} {code : SemCode} {stage : Stage} (isAt : At sem code stage) : Placed code
  | printing {before : SemCode} {sem : SemId} (prints : ∀ instr ∈ before, PrintInstr instr) :
      Placed (before ++ blockTail sem)
  | sleeping {sem : SemId} : Placed (.act (.sleepSched (.sem sem)) :: wakeTail sem)

def StageMark : Instr Lock (Act SemAct) → Prop
  | .act (.sub (.sortOuter _ _)) | .act (.sub (.sortInner _ _ _)) | .act (.sub (.placeLoop _ _))
  | .act (.sub (.placeStore _ _)) | .act (.sub (.wakeupproc _)) | .act (.sub (.dequeue _)) => True
  | _ => False

section Marks

variable {code rest : SemCode} {sem other : SemId} {stage stage' : Stage}

theorem foreign_of_isCore {instr : Instr Lock (Act SemAct)} (core : IsCore instr) :
    Foreign instr := by
  cases instr with
  | act act =>
      cases act with
      | sub act => exact absurd core id
      | sleepSched chan | wakeup1 chan =>
          rintro sem rfl
          exact core
      | _ => trivial
  | _ => trivial

theorem At.mark (isAt : At sem code stage) : ∃ instr ∈ code, StageMark instr := by
  cases isAt with
  | storing | stored | calling | woken =>
      exact ⟨_, List.mem_cons_of_mem _ List.mem_cons_self, trivial⟩
  | _ => exact ⟨_, List.mem_cons_self, trivial⟩

theorem At.unique (left : At sem code stage) (right : At other code stage') :
    sem = other ∧ stage = stage' := by
  cases left <;> cases right <;> exact ⟨rfl, rfl⟩

theorem Open.unmarked (isOpen : Open code) : ∀ instr ∈ code, ¬StageMark instr := by
  have foreign_unmarked : ∀ instr, Foreign instr → ¬StageMark instr := by
    intro instr foreign marked
    unfold StageMark at marked
    split at marked <;> first | exact foreign | exact marked
  cases isOpen with
  | outside foreign => exact fun instr mem => foreign_unmarked instr (foreign instr mem)
  | entered foreign isBody =>
      simp only [List.forall_mem_append]
      refine ⟨fun instr mem => foreign_unmarked instr (foreign instr mem), ?_⟩
      rcases isBody with rfl | rfl <;> simp [StageMark]

theorem unmarked_blockTail {before : SemCode} (prints : ∀ instr ∈ before, PrintInstr instr) :
    ∀ instr ∈ before ++ blockTail sem, ¬StageMark instr := by
  intro instr mem marked
  rcases List.mem_append.mp mem with inBefore | inTail
  · have isPrint := prints instr inBefore
    unfold StageMark at marked
    split at marked <;> first | exact isPrint | exact marked
  · simp only [blockTail, wakeTail, List.mem_cons, List.not_mem_nil, or_false] at inTail
    rcases inTail with rfl | rfl | rfl | rfl | rfl | rfl <;> exact marked

theorem Placed.at_of_mark (placed : Placed code) (marked : ∃ instr ∈ code, StageMark instr) :
    ∃ sem stage, At sem code stage := by
  rcases marked with ⟨instr, mem, marked⟩
  cases placed with
  | idle isOpen => exact absurd marked (isOpen.unmarked instr mem)
  | busy isAt => exact ⟨_, _, isAt⟩
  | printing prints => exact absurd marked (unmarked_blockTail prints instr mem)
  | sleeping =>
      simp only [wakeTail, List.mem_cons, List.not_mem_nil, or_false] at mem
      rcases mem with rfl | rfl | rfl | rfl | rfl <;> exact absurd marked id

end Marks

section Next

variable {instr : Instr Lock (Act SemAct)} {act : Act SemAct} {code rest : SemCode}
  {sem : SemId} {stage : Stage}

theorem Open.append_foreign {before : SemCode} (foreign : ∀ instr ∈ before, Foreign instr)
    (isOpen : Open code) : Open (before ++ code) := by
  cases isOpen with
  | outside inCode =>
      apply Open.outside
      simp only [List.forall_mem_append]
      exact ⟨foreign, inCode⟩
  | entered inBefore isBody =>
      rw [← List.append_assoc]
      refine .entered ?_ isBody
      simp only [List.forall_mem_append]
      exact ⟨foreign, inBefore⟩

/-- The next instruction of a thread that is not in a semaphore function is foreign or one
of the two bodies. -/
theorem Open.uncons (isOpen : Open (instr :: rest)) :
    (Foreign instr ∧ Open rest) ∨
      ∃ body sem, (body = .acquireBody sem ∨ body = .releaseBody sem) ∧ instr = semAct body ∧
        rest = [.release (.sem sem)] := by
  generalize codeIs : instr :: rest = code at isOpen
  cases isOpen with
  | outside foreign =>
      subst codeIs
      left
      refine ⟨foreign instr List.mem_cons_self, .outside ?_⟩
      exact fun other mem => foreign other (List.mem_cons_of_mem _ mem)
  | entered foreign isBody =>
      rcases List.cons_eq_append_iff.mp codeIs with ⟨rfl, bodyIs⟩ | ⟨before, rfl, rfl⟩
      · right
        cases bodyIs
        exact ⟨_, _, isBody, rfl, rfl⟩
      · left
        refine ⟨foreign instr List.mem_cons_self, .entered ?_ isBody⟩
        exact fun other mem => foreign other (List.mem_cons_of_mem _ mem)

/-- What follows an act, for each place where it can stand. -/
inductive ActPlace : Act SemAct → SemCode → Prop
  | foreign {act : Act SemAct} {rest : SemCode} (isForeign : Foreign (.act act))
      (isOpen : Open rest) : ActPlace act rest
  | acquireBody {sem : SemId} : ActPlace (.sub (.acquireBody sem)) [.release (.sem sem)]
  | releaseBody {sem : SemId} : ActPlace (.sub (.releaseBody sem)) [.release (.sem sem)]
  | sortOuter {sem : SemId} {i : ℕ} : ActPlace (.sub (.sortOuter sem i)) (afterSort sem)
  | sortInner {sem : SemId} {i j : ℕ} :
      ActPlace (.sub (.sortInner sem i j)) (semAct (.sortOuter sem (i + 1)) :: afterSort sem)
  | placeLoop {sem : SemId} {i : ℕ} : ActPlace (.sub (.placeLoop sem i)) (afterPlace sem)
  | placeStore {sem : SemId} {i : ℕ} :
      ActPlace (.sub (.placeStore sem i))
        (.release .ptable :: semAct (.placeLoop sem (i + 1)) :: afterPlace sem)
  | wakeupproc {sem : SemId} {target : Option Slot} :
      ActPlace (.sub (.wakeupproc target)) (.release .ptable :: afterWake sem)
  | dequeue {sem : SemId} : ActPlace (.sub (.dequeue sem)) [.release (.sem sem)]
  | print {sem : SemId} {act : Act SemAct} {before : SemCode} (isPrint : PrintInstr (.act act))
      (prints : ∀ instr ∈ before, PrintInstr instr) : ActPlace act (before ++ blockTail sem)
  | sleep {sem : SemId} : ActPlace (.sleepSched (.sem sem)) (wakeTail sem)

theorem Placed.at_act (placed : Placed (.act act :: rest)) : ActPlace act rest := by
  generalize codeIs : .act act :: rest = code at placed
  cases placed with
  | idle isOpen =>
      subst codeIs
      rcases isOpen.uncons with ⟨foreign, openRest⟩ | ⟨body, sem, isBody, actIs, rfl⟩
      · exact .foreign foreign openRest
      · cases actIs
        rcases isBody with rfl | rfl
        · exact .acquireBody
        · exact .releaseBody
  | busy isAt =>
      cases isAt with
      | sorting =>
          cases codeIs
          exact .sortOuter
      | comparing =>
          cases codeIs
          exact .sortInner
      | placing =>
          cases codeIs
          exact .placeLoop
      | locked =>
          cases codeIs
          exact .placeStore
      | called =>
          cases codeIs
          exact .wakeupproc
      | granted =>
          cases codeIs
          exact .dequeue
      | _ => cases codeIs
  | printing prints =>
      rcases List.cons_eq_append_iff.mp codeIs with ⟨rfl, headIs⟩ | ⟨before, rfl, rfl⟩
      · cases headIs
      · refine .print (prints _ List.mem_cons_self) ?_
        exact fun other mem => prints other (List.mem_cons_of_mem _ mem)
  | sleeping =>
      cases codeIs
      exact .sleep

theorem At.after_lock (isAt : At sem (instr :: rest) stage) (isLock : ∀ act, instr ≠ .act act) :
    At sem rest stage := by
  generalize codeIs : instr :: rest = code at isAt
  cases isAt with
  | storing =>
      cases codeIs
      exact .locked
  | stored =>
      cases codeIs
      exact .placing
  | calling =>
      cases codeIs
      exact .called
  | woken =>
      cases codeIs
      exact .granted
  | _ =>
      cases codeIs
      exact absurd rfl (isLock _)

theorem Placed.after_lock (placed : Placed (instr :: rest)) (isLock : ∀ act, instr ≠ .act act) :
    Placed rest := by
  generalize codeIs : instr :: rest = code at placed
  cases placed with
  | idle isOpen =>
      subst codeIs
      rcases isOpen.uncons with ⟨_, openRest⟩ | ⟨body, sem, _, actIs, _⟩
      · exact .idle openRest
      · exact absurd actIs (isLock _)
  | busy isAt =>
      subst codeIs
      exact .busy (isAt.after_lock isLock)
  | printing prints =>
      rcases List.cons_eq_append_iff.mp codeIs with ⟨rfl, headIs⟩ | ⟨before, rfl, rfl⟩
      · cases headIs
        exact .sleeping
      · refine .printing ?_
        exact fun other mem => prints other (List.mem_cons_of_mem _ mem)
  | sleeping =>
      cases codeIs
      exact absurd rfl (isLock _)

theorem Placed.at_after_lock (placed : Placed (instr :: rest))
    (isLock : ∀ act, instr ≠ .act act) : At sem rest stage ↔ At sem (instr :: rest) stage := by
  refine ⟨?_, fun isAt => isAt.after_lock isLock⟩
  intro isAt
  rcases isAt.mark with ⟨mark, mem, marked⟩
  rcases placed.at_of_mark ⟨mark, List.mem_cons_of_mem _ mem, marked⟩ with ⟨other, stage', before⟩
  rcases (before.after_lock isLock).unique isAt with ⟨rfl, rfl⟩
  exact before

end Next

section Holding

variable {code rest : SemCode} {sem other : SemId} {stage : Stage}

/-- The code gives up a lock it has not taken. -/
def Gives (lock : Lock) (code : SemCode) : Prop :=
  ∃ before rest, code = before ++ .release lock :: rest ∧ .acquire lock ∉ before

theorem Gives.cons {lock : Lock} {instr : Instr Lock (Act SemAct)} (gives : Gives lock code)
    (notAcquire : instr ≠ .acquire lock) : Gives lock (instr :: code) := by
  rcases gives with ⟨before, rest, rfl, unacquired⟩
  refine ⟨instr :: before, rest, rfl, ?_⟩
  intro mem
  rcases List.mem_cons.mp mem with same | inBefore
  · exact notAcquire same.symm
  · exact unacquired inBefore

theorem gives_afterPlace : Gives (.sem sem) (afterPlace sem) := by
  refine ⟨_, _, rfl, ?_⟩
  simp [printProcessInfo, cprintf]

theorem gives_afterWake : Gives (.sem sem) (afterWake sem) :=
  ⟨[semAct (.dequeue sem)], [], rfl, by simp⟩

theorem At.gives (isAt : At sem code stage) : Gives (.sem sem) code := by
  have afterLoop : ∀ i, Gives (.sem sem) (semAct (.placeLoop sem i) :: afterPlace sem) :=
    fun i => gives_afterPlace.cons (by simp)
  have afterOuter : ∀ i, Gives (.sem sem) (semAct (.sortOuter sem i) :: afterSort sem) :=
    fun i => (afterLoop 0).cons (by simp)
  cases isAt with
  | sorting => exact afterOuter _
  | comparing => exact (afterOuter _).cons (by simp)
  | placing => exact afterLoop _
  | storing => exact (((afterLoop _).cons (by simp)).cons (by simp)).cons (by simp)
  | locked => exact ((afterLoop _).cons (by simp)).cons (by simp)
  | stored => exact (afterLoop _).cons (by simp)
  | calling => exact ((gives_afterWake.cons (by simp)).cons (by simp)).cons (by simp)
  | called => exact (gives_afterWake.cons (by simp)).cons (by simp)
  | woken => exact gives_afterWake.cons (by simp)
  | granted => exact gives_afterWake

/-- The thread has queued itself and will go to sleep. -/
def Sleeps (sem : SemId) (code : SemCode) : Prop := .act (.sleepSched (.sem sem)) ∈ code

theorem Open.not_sleeps (isOpen : Open code) : ¬Sleeps sem code := by
  intro sleeps
  cases isOpen with
  | outside foreign => exact foreign _ sleeps sem rfl
  | entered foreign isBody =>
      rcases List.mem_append.mp sleeps with inBefore | inBody
      · exact foreign _ inBefore sem rfl
      · rcases isBody with rfl | rfl <;> simp at inBody

theorem sleeps_blockTail {before : SemCode} (prints : ∀ instr ∈ before, PrintInstr instr) :
    Sleeps sem (before ++ blockTail other) ↔ sem = other := by
  have notBefore : .act (.sleepSched (.sem sem)) ∉ before := fun mem => prints _ mem
  simp [Sleeps, notBefore, blockTail, wakeTail]

theorem sleeps_afterPlace : Sleeps sem (afterPlace other) ↔ sem = other := by
  simp [Sleeps, afterPlace, printProcessInfo, cprintf, blockTail, wakeTail]

/-- The stages of `semaphore_acquire`, after which the thread goes to sleep. -/
def Stage.Blocks : Stage → Prop
  | .sorting _ | .comparing _ _ | .placing _ | .storing _ => True
  | _ => False

theorem At.sleeps_iff (isAt : At sem code stage) : Sleeps sem code ↔ stage.Blocks := by
  have after : .act (.sleepSched (.sem sem)) ∈ afterPlace sem := sleeps_afterPlace.mpr rfl
  cases isAt <;> simp [Sleeps, Stage.Blocks, afterSort, afterWake, after]

theorem At.eq_of_sleeps (isAt : At sem code stage) (sleeps : Sleeps other code) : other = sem := by
  cases isAt <;> first
    | exact sleeps_afterPlace.mp (by simpa [Sleeps, afterSort] using sleeps)
    | simp [Sleeps, afterWake] at sleeps

/-- A thread that will go to sleep on a semaphore holds its lock, or has come to the switch. -/
theorem Placed.gives_of_sleeps (placed : Placed code) (sleeps : Sleeps sem code) :
    Gives (.sem sem) code ∨ code = .act (.sleepSched (.sem sem)) :: wakeTail sem := by
  cases placed with
  | idle isOpen => exact absurd sleeps isOpen.not_sleeps
  | @busy other code stage isAt =>
      left
      have same := isAt.eq_of_sleeps sleeps
      subst same
      exact isAt.gives
  | @printing before other prints =>
      left
      have same := (sleeps_blockTail prints).mp sleeps
      subst same
      refine ⟨before, _, rfl, ?_⟩
      intro mem
      have isPrint := prints _ mem
      simp [PrintInstr] at isPrint
  | @sleeping other =>
      right
      have same : sem = other := by simpa [Sleeps, wakeTail] using sleeps
      subst same
      rfl

theorem not_at_of_unmarked (unmarked : ∀ instr ∈ code, ¬StageMark instr) :
    ¬At sem code stage := by
  intro isAt
  rcases isAt.mark with ⟨instr, mem, marked⟩
  exact unmarked instr mem marked

/-- The code is in no semaphore function but those on this semaphore. -/
def Only (sem : SemId) (code : SemCode) : Prop :=
  ∀ other, other ≠ sem → ¬Sleeps other code ∧ ∀ stage, ¬At other code stage

theorem Open.only (isOpen : Open code) : Only sem code :=
  fun _ _ => ⟨isOpen.not_sleeps, fun _ => not_at_of_unmarked isOpen.unmarked⟩

theorem At.only (isAt : At sem code stage) : Only sem code := by
  intro other different
  refine ⟨fun sleeps => different (isAt.eq_of_sleeps sleeps), ?_⟩
  intro stage' isAtOther
  exact different (isAtOther.unique isAt).1

theorem only_blockTail {before : SemCode} (prints : ∀ instr ∈ before, PrintInstr instr) :
    Only sem (before ++ blockTail sem) := by
  intro other different
  refine ⟨?_, fun _ => not_at_of_unmarked (unmarked_blockTail prints)⟩
  rw [sleeps_blockTail prints]
  exact different

/-- When the places are stored, the rest of `semaphore_acquire` is printing and sleeping. -/
theorem afterPlace_eq (sem : SemId) : ∃ before, afterPlace sem = before ++ blockTail sem ∧
    ∀ instr ∈ before, PrintInstr instr := by
  refine ⟨_, rfl, ?_⟩
  simp [printProcessInfo, cprintf, PrintInstr]

end Holding

end Xv6
