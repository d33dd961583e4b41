import Xv6.File.Ends

/-!
# The life of file entries and pipes

What the table and the ends of pipes say about whole runs: the page of a pipe is freed once, when
the last handle of its second end has been closed, and a `pipealloc` that fails gives back what
it has taken.
-/

namespace Xv6

open Transition

@[simp]
theorem FileState.setPhase_self (state : FileState) (p : Slot) (phase : FilePhase) :
    (state.setPhase p phase).phase p = phase := by
  simp

abbrev FileTrace := Trace FileState (Slot × FileCall)

variable {state next : FileState} {p q : Slot} {f : FileId} {page : ℕ} {call : FileCall}

/-! ## A failing `pipealloc` -/

/-- The step is one of the call that the process is in. -/
def ownStep (p : Slot) : Slot × FileCall → Bool
  | (q, .run _) => q = p
  | _ => false

/-- By how much the steps of a trace that are not of the call of `p` have changed a measure. -/
def changeOfOthers (p : Slot) (measure : FileState → ℤ) : FileTrace → FileState → ℤ
  | [], _ => 0
  | (before, label) :: trace, state =>
      changeOfOthers p measure trace before +
        if ownStep p label then 0 else measure state - measure before

/-- One for a free entry, zero for one in use. -/
def freeEntry (f : FileId) (state : FileState) : ℤ := if (state.file f).ref = 0 then 1 else 0

/-- One for a free page, zero for one in use. -/
def freePage (page : ℕ) (state : FileState) : ℤ := if state.page page = .free then 1 else 0

@[simp]
theorem freeEntry_setPhase (f : FileId) (state : FileState) (p : Slot) (phase : FilePhase) :
    freeEntry f (state.setPhase p phase) = freeEntry f state := rfl

@[simp]
theorem freeEntry_setPage (f : FileId) (state : FileState) (page : ℕ) (use : PageUse) :
    freeEntry f (state.setPage page use) = freeEntry f state := rfl

@[simp]
theorem freePage_setPhase (page : ℕ) (state : FileState) (p : Slot) (phase : FilePhase) :
    freePage page (state.setPhase p phase) = freePage page state := rfl

@[simp]
theorem freePage_claim (page : ℕ) (state : FileState) (p : Slot) (f : FileId) :
    freePage page (state.claim p f) = freePage page state := rfl

@[simp]
theorem freePage_release (page : ℕ) (state : FileState) (p : Slot) (f : FileId) :
    freePage page (state.release p f) = freePage page state := rfl

/-- The process is in a `pipealloc` that has not succeeded. -/
@[simp]
def FilePhase.Allocating : FilePhase → Prop
  | .filealloc0 | .filealloc1 _ | .kalloc _ _ | .fill _ _ _ | .closing _ true => True
  | _ => False

theorem phase_of_ne (steps : FileSteps state q call next) (different : p ≠ q) :
    next.phase p = state.phase p := by
  have moved : ∀ {phase : FilePhase}, Function.update state.phase q phase p = state.phase p :=
    Function.update_of_ne different _ _
  cases steps with
  | full | filealloc | setInode | filedup | takePage | givePage => rfl
  | close =>
      simp only [FileState.closeNext]
      split
      · exact moved
      · split <;> exact moved
  | _ => exact moved

theorem phase_of_other (steps : FileSteps state q call next) (notOwn : ownStep p (q, call) = false)
    (notIdle : state.phase p ≠ .idle) : next.phase p = state.phase p := by
  by_cases different : p ≠ q
  · exact phase_of_ne steps different
  · rw [not_not] at different
    subst different
    cases steps with
    | full | filealloc | setInode | filedup | takePage | givePage => rfl
    | fileclose idle | pipealloc idle => exact absurd idle notIdle
    | _ => simp [ownStep] at notOwn

theorem FilePhase.Allocating.before (quiet : (state.phase p).Quiet)
    (steps : FileSteps state q call next) (notCall : (q, call) ≠ (p, .pipealloc))
    (allocating : (next.phase p).Allocating) : (state.phase p).Allocating := by
  by_cases different : p ≠ q
  · rw [← phase_of_ne steps different]
    exact allocating
  · rw [not_not] at different
    subst different
    cases steps with
    | full | filealloc | setInode | filedup | takePage | givePage => exact allocating
    | fileclose | fill | returns => simp at allocating
    | pipealloc => exact absurd rfl notCall
    | noFirst phase | first phase | noSecond phase | second phase | noPage phase | page phase =>
        rw [phase]
        trivial
    | @close _ g files failed phase used =>
        rw [phase]
        cases failed with
        | true => trivial
        | false =>
            revert allocating
            simp only [FileState.closeNext]
            split
            · simp
            · split <;> simp
    | pipeclose phase closed =>
        rw [phase] at quiet
        obtain rfl : _ = false := quiet
        revert allocating
        split <;> simp
    | kfree phase =>
        rw [phase] at quiet
        obtain rfl : _ = false := quiet
        simp at allocating

/-- During a `pipealloc`, a measure that its own steps change only by what the process holds is
otherwise changed by the others. -/
theorem books (before : FileState) {middle : FileState} {later : FileTrace}
    (measure : FileState → ℤ)
    (holding : FilePhase → ℤ)
    (own : ∀ {state next choice}, HandleInv state → FileSteps state p (.run choice) next →
      (next.phase p).Allocating →
      measure next + holding (next.phase p) = measure state + holding (state.phase p))
    (start : measure middle + holding (middle.phase p) = measure before) (inv : HandleInv middle)
    (since : Run fileStep middle later state)
    (sameCall : Trace.All (fun _ label => label ≠ (p, .pipealloc)) later) :
    HandleInv state ∧ ((state.phase p).Allocating →
      measure state + holding (state.phase p) =
        measure before + changeOfOthers p measure later state) := by
  refine Run.invariant (fun later state => HandleInv state ∧ ((state.phase p).Allocating →
    measure state + holding (state.phase p) =
      measure before + changeOfOthers p measure later state)) ?_ ?_ since sameCall
  · refine ⟨inv, fun _ => ?_⟩
    simp [changeOfOthers, start]
  · rintro trace state ⟨q, call⟩ next ⟨inv, sofar⟩ _ notCall stepped
    have steps := fileStep_cases stepped
    refine ⟨inv.step steps, fun allocating => ?_⟩
    have was := allocating.before (inv.quiet p) steps notCall
    have balance := sofar was
    simp only [changeOfOthers]
    cases isOwn : ownStep p (q, call) with
    | true =>
        rcases call with _ | _ | _ | _ | _ | choice | _ | _ <;> simp [ownStep] at isOwn
        subst isOwn
        have step := own inv steps allocating
        simp only [if_true]
        omega
    | false =>
        have notIdle : state.phase p ≠ .idle := by
          intro idle
          simp [idle] at was
        rw [phase_of_other steps isOwn notIdle]
        simp only [Bool.false_eq_true, if_false]
        omega

/-- One for an entry that the `pipealloc` of the process has. -/
@[simp]
def FilePhase.holdsEntry (f : FileId) (phase : FilePhase) : ℤ := if f ∈ phase.fresh then 1 else 0

/-- One for a page that the `pipealloc` of the process has. -/
@[simp]
def FilePhase.holdsPage (page : ℕ) (phase : FilePhase) : ℤ :=
  if phase.filling = some page then 1 else 0

theorem freeEntry_claim (f : FileId) {g : FileId} {files : List FileId}
    (unused : (state.file g).ref = 0) (notMem : g ∉ files) :
    freeEntry f (state.claim p g) + (if f ∈ files ++ [g] then 1 else 0) =
      freeEntry f state + if f ∈ files then 1 else 0 := by
  by_cases same : f = g
  · subst same
    simp [freeEntry, unused, notMem]
  · simp [freeEntry, same]

theorem freeEntry_release (f : FileId) {g : FileId} {files : List FileId}
    (single : (state.file g).ref = 1) (notMem : g ∉ files) :
    freeEntry f (state.release p g) + (if f ∈ files then 1 else 0) =
      freeEntry f state + if f ∈ g :: files then 1 else 0 := by
  by_cases same : f = g
  · subst same
    simp [freeEntry, FileState.release, single, notMem]
  · simp [freeEntry, FileState.release, same]

theorem closeNext_of_fresh {files : List FileId} (inv : HandleInv state)
    (phase : state.phase p = .closing (f :: files) true) :
    (state.file f).ref = 1 ∧ f ∉ files ∧
      state.closeNext p f files true = (state.release p f).setPhase p (.closing files true) := by
  have fresh := inv.fresh p f
  have nodup := inv.nodup p
  rw [phase] at fresh nodup
  rcases fresh (by simp) with ⟨single, isNone⟩
  refine ⟨single, (List.nodup_cons.mp nodup).1, ?_⟩
  simp [FileState.closeNext, single, isNone]

theorem entry_books (f : FileId) {choice : Option ℕ} (inv : HandleInv state)
    (steps : FileSteps state p (.run choice) next) (allocating : (next.phase p).Allocating) :
    freeEntry f next + (next.phase p).holdsEntry f =
      freeEntry f state + (state.phase p).holdsEntry f := by
  have was := allocating.before (inv.quiet p) steps (by simp)
  cases steps with
  | noFirst phase | noSecond phase | noPage phase | page phase =>
      simp [phase]
  | first phase unused =>
      have taken := freeEntry_claim (p := p) f unused List.not_mem_nil
      simpa [phase] using taken
  | @second _ f0 g phase unused =>
      have fresh := inv.fresh p f0 (by simp [phase])
      have notMem : g ∉ [f0] := by
        rw [List.mem_singleton]
        rintro rfl
        omega
      have taken := freeEntry_claim (p := p) f unused notMem
      simpa [phase] using taken
  | fill phase | returns phase => simp at allocating
  | @close _ g files failed phase used =>
      cases failed with
      | true =>
          rcases closeNext_of_fresh inv phase with ⟨single, notMem, closed⟩
          have given := freeEntry_release (p := p) f single notMem
          rw [closed, phase]
          simpa using given
      | false => simp [phase] at was
  | pipeclose phase closed | kfree phase => simp [phase] at was

theorem page_books (page : ℕ) {choice : Option ℕ} (inv : HandleInv state)
    (steps : FileSteps state p (.run choice) next) (allocating : (next.phase p).Allocating) :
    freePage page next + (next.phase p).holdsPage page =
      freePage page state + (state.phase p).holdsPage page := by
  have was := allocating.before (inv.quiet p) steps (by simp)
  cases steps with
  | noFirst phase | noSecond phase | noPage phase | first phase | second phase =>
      simp [phase]
  | @page f0 f1 taken phase free =>
      by_cases same : page = taken
      · simp [phase, freePage, same, free]
      · simp [phase, freePage, same, Ne.symm same]
  | fill phase | returns phase => simp at allocating
  | @close _ g files failed phase used =>
      cases failed with
      | true =>
          rcases closeNext_of_fresh inv phase with ⟨_, _, closed⟩
          rw [closed, phase]
          simp
      | false => simp [phase] at was
  | pipeclose phase closed | kfree phase => simp [phase] at was

theorem pipealloc_failed {before middle : FileState} {later : FileTrace} (inv : HandleInv before)
    (called : fileStep before (p, .pipealloc) = some middle)
    (since : Run fileStep middle later state)
    (sameCall : Trace.All (fun _ label => label ≠ (p, .pipealloc)) later)
    (failed : state.phase p = .closing [] true) :
    (∀ f, freeEntry f state = freeEntry f before + changeOfOthers p (freeEntry f) later state) ∧
      ∀ page, freePage page state =
        freePage page before + changeOfOthers p (freePage page) later state := by
  have steps := fileStep_cases called
  have started := inv.step steps
  have allocating : (state.phase p).Allocating := by
    rw [failed]
    trivial
  cases steps with
  | pipealloc idle =>
      refine ⟨fun f => ?_, fun page => ?_⟩
      · have balance := (books before (freeEntry f) (FilePhase.holdsEntry f) (entry_books f)
          (by simp) started
          since sameCall).2 allocating
        simpa [failed] using balance
      · have balance := (books before (freePage page) (FilePhase.holdsPage page) (page_books page)
          (by simp) started
          since sameCall).2 allocating
        simpa [failed] using balance

/-! ## Pages of pipes -/

@[simp]
def PageUse.pipes : PageUse → ℕ
  | .pipe _ _ => 1
  | _ => 0

/-- The step is that of a process which has this page to fill in, or to free. -/
@[simp]
def disposes (view : FilePhase → Option ℕ) (page : ℕ) : FileState × Slot × FileCall → Bool
  | (state, p, .run _) => view (state.phase p) = some page
  | _ => false

/-- How often the page has become a pipe. -/
def pipesMade (page : ℕ) (trace : FileTrace) : ℕ := trace.countP (disposes FilePhase.filling page)

/-- How often `kfree` has been called for a pipe in the page. -/
def pipesFreed (page : ℕ) (trace : FileTrace) : ℕ := trace.countP (disposes FilePhase.freeing page)

theorem pipes_update {pages : ℕ → PageUse} {use : PageUse} (same : use.pipes = (pages page).pipes)
    (n : ℕ) : (Function.update pages page use n).pipes = (pages n).pipes := by
  by_cases isPage : n = page
  · rw [isPage, Function.update_self, same]
  · rw [Function.update_of_ne isPage]

theorem pipes_step (n : ℕ) (inv : EndInv state) (steps : FileSteps state p call next) :
    (next.page n).pipes + (if disposes FilePhase.freeing n (state, p, call) then 1 else 0) =
      (state.page n).pipes + if disposes FilePhase.filling n (state, p, call) then 1 else 0 := by
  cases steps with
  | full | filealloc | setInode | filedup | fileclose | pipealloc =>
      simp
  | noFirst phase | noSecond phase | noPage phase | first phase | second phase | returns phase =>
      simp [phase]
  | @page f0 f1 page phase free =>
      have same : PageUse.taken.pipes = (state.page page).pipes := by rw [free]; rfl
      simpa [phase] using pipes_update same n
  | @fill _ f0 f1 page phase =>
      have taken := (inv.fills.held page).mpr ⟨p, by simp [phase]⟩
      by_cases isPage : n = page
      · simp [phase, FileState.fillPipe, isPage, taken]
      · simp [phase, FileState.fillPipe, isPage, Ne.symm isPage]
  | @close _ g files failed phase used =>
      have pages : (state.closeNext p g files failed).page = state.page := by
        simp only [FileState.closeNext]
        split
        · rfl
        · split <;> rfl
      simp [phase, pages]
  | @pipeclose _ page writable failed files use phase closed =>
      have same : use.pipes = (state.page page).pipes := by
        revert closed
        simp only [FileState.closeEnd]
        split
        · rename_i isPipe
          rw [isPipe]
          rintro ⟨⟩
          split <;> rfl
        · simp
      simpa [phase] using pipes_update same n
  | @kfree _ page files failed phase =>
      have closed := (inv.frees.held page).mpr ⟨p, by simp [phase]⟩
      by_cases isPage : n = page
      · simp [phase, isPage, closed]
      · simp [phase, isPage, Ne.symm isPage]
  | @takePage page free =>
      have same : PageUse.busy.pipes = (state.page page).pipes := by rw [free]; rfl
      simpa using pipes_update same n
  | @givePage page busy =>
      have same : PageUse.free.pipes = (state.page page).pipes := by rw [busy]; rfl
      simpa using pipes_update same n

/-- Handles, ends and pages, and the pipes that there have been. -/
structure FileInv (trace : FileTrace) (state : FileState) : Prop where
  handles : HandleInv state
  ends : EndInv state
  counts : ∀ page, pipesMade page trace = pipesFreed page trace + (state.page page).pipes

theorem fileInv_of_run {pages : ℕ → Bool} {trace : FileTrace}
    (run : Run fileStep (fileInit pages) trace state) : FileInv trace state := by
  refine Run.invariant FileInv ⟨HandleInv.fileInit pages, EndInv.fileInit pages, ?_⟩ ?_ run
    (Trace.all_true trace)
  · intro page
    by_cases isFree : pages page <;> simp [pipesMade, pipesFreed, fileInit, isFree]
  · rintro trace state ⟨p, call⟩ next inv _ _ stepped
    have steps := fileStep_cases stepped
    refine ⟨inv.handles.step steps, inv.ends.step inv.handles steps, fun page => ?_⟩
    have before := inv.counts page
    have after := pipes_step page inv.ends steps
    simp only [pipesMade, pipesFreed, List.countP_cons] at before ⊢
    omega

/-- The entry is one of the ends of the pipe. -/
def FileState.OnPipe (state : FileState) (page : ℕ) (f : FileId) : Prop :=
  (state.file f).type = .pipe ∧ (state.file f).pipe = page

section

variable (handles : HandleInv state) (ends : EndInv state)

include handles ends

theorem onPipe_open (on : state.OnPipe page f) : (∃ handle ∈ state.handles, handle.2 = f) ∧
      (state.page page).isOpen (state.file f).writable = true := by
  rcases on with ⟨isPipe, isPage⟩
  refine ⟨?_, ?_⟩
  · have used : 0 < state.handles.countP (refers f) := by
      rw [← handles.count f, Nat.pos_iff_ne_zero]
      intro unused
      simp [handles.type f unused] at isPipe
    rcases List.countP_pos_iff.mp used with ⟨handle, mem, isSame⟩
    exact ⟨handle, mem, by simpa [refers] using isSame⟩
  · exact (ends.ends.held (page, (state.file f).writable)).mpr ⟨.inl f, by simp [endOf, isPipe, isPage]⟩

theorem pipes_iff (settled : ∀ p, (state.phase p).freeing ≠ some page ∧
      ∀ writable, (state.phase p).ending ≠ some (page, writable)) :
    (state.page page).pipes = 1 ↔ ∃ handle ∈ state.handles, state.OnPipe page handle.2 := by
  have hasEntry : ∀ writable, (state.page page).isOpen writable = true →
      ∃ handle ∈ state.handles, state.OnPipe page handle.2 := by
    intro writable isOpen
    rcases (ends.ends.held (page, writable)).mp isOpen with ⟨f | p, held⟩
    · have on : state.OnPipe page f := by
        simp only [endOf] at held
        split at held
        · rename_i isPipe
          simp only [Option.some.injEq, Prod.mk.injEq] at held
          exact ⟨isPipe, held.1⟩
        · contradiction
      rcases (onPipe_open handles ends on).1 with ⟨handle, mem, isSame⟩
      rw [← isSame] at on
      exact ⟨handle, mem, on⟩
    · exact absurd held ((settled p).2 writable)
  refine ⟨fun isPipe => ?_, ?_⟩
  · cases isUse : state.page page with
    | pipe readopen writeopen =>
        cases readopen with
        | true => exact hasEntry false (by simp [isUse])
        | false =>
            cases writeopen with
            | true => exact hasEntry true (by simp [isUse])
            | false =>
                rcases (ends.frees.held page).mp isUse with ⟨p, freeing⟩
                exact absurd freeing (settled p).1
    | _ => simp [isUse] at isPipe
  · rintro ⟨handle, mem, on⟩
    have isOpen := (onPipe_open handles ends on).2
    cases isUse : state.page page with
    | pipe readopen writeopen => rfl
    | _ => simp [isUse] at isOpen

theorem run_enabled (notIdle : state.phase p ≠ .idle) :
    ∃ next, fileStep state (p, .run none) = some next := by
  simp only [fileStep, FileState.step, FileState.resume]
  cases phase : state.phase p with
  | idle => exact absurd phase notIdle
  | filealloc0 | filealloc1 =>
      dsimp only
      split <;> exact ⟨_, rfl⟩
  | kalloc | fill | kfree => exact ⟨_, rfl⟩
  | closing files failed =>
      cases files with
      | nil => exact ⟨_, rfl⟩
      | cons f files =>
          have used := handles.used (handles.own p f (by simp [phase]))
          dsimp only
          rw [if_neg (by omega)]
          exact ⟨_, rfl⟩
  | pipeclose page writable files failed =>
      have isOpen := (ends.ends.held (page, writable)).mpr
        ⟨.inr p, by simp [endOf, phase]⟩
      dsimp only at isOpen ⊢
      cases isUse : state.page page with
      | pipe readopen writeopen => exact ⟨_, rfl⟩
      | _ => simp [isUse] at isOpen

end

/-- In every state that calls can reach: free entries have no type, entries count their handles,
every pipe but one that is still there has been freed, once. A page that nobody is closing is a
pipe if and only if there is a handle on it. A process that is about to free a pipe is alone with
it, and one that is about to close an end is alone with that end. A `pipealloc` that is about to
return -1 leaves of the free entries and free pages what the others have made of them. -/
theorem file_lifetime {pages : ℕ → Bool} {trace : FileTrace} {state : FileState}
    (run : Run fileStep (fileInit pages) trace state) :
    (∀ f, (state.file f).ref = 0 → (state.file f).type = .none) ∧
    (∀ f, (state.file f).ref = state.handles.countP (refers f)) ∧
    (∀ page, pipesMade page trace = pipesFreed page trace + (state.page page).pipes) ∧
    (∀ page, (∀ p, (state.phase p).freeing ≠ some page ∧
        ∀ writable, (state.phase p).ending ≠ some (page, writable)) →
      ((state.page page).pipes = 1 ↔ ∃ handle ∈ state.handles, state.OnPipe page handle.2)) ∧
    (∀ p page, (state.phase p).freeing = some page →
      state.page page = .pipe false false ∧ (∀ f, ¬state.OnPipe page f) ∧
        ∀ q, (state.phase q).freeing = some page → q = p) ∧
    (∀ p page writable, (state.phase p).ending = some (page, writable) →
      (state.page page).isOpen writable = true ∧
        (∀ f, state.OnPipe page f → (state.file f).writable ≠ writable) ∧
        ∀ q, (state.phase q).ending = some (page, writable) → q = p) ∧
    (∀ p, state.phase p ≠ .idle → ∃ next, fileStep state (p, .run none) = some next) ∧
    ∀ p later before earlier, trace = later ++ (before, p, .pipealloc) :: earlier →
      Trace.All (fun _ label => label ≠ (p, .pipealloc)) later → state.phase p = .closing [] true →
      (∀ f, freeEntry f state = freeEntry f before + changeOfOthers p (freeEntry f) later state) ∧
        ∀ page, freePage page state =
          freePage page before + changeOfOthers p (freePage page) later state := by
  rcases fileInv_of_run run with ⟨handles, ends, counts⟩
  refine ⟨handles.type, handles.count, counts, fun page => pipes_iff handles ends, ?_, ?_,
    fun p => run_enabled handles ends, ?_⟩
  · intro p page freeing
    have closed := (ends.frees.held page).mpr ⟨p, freeing⟩
    refine ⟨closed, ?_, ?_⟩
    · intro f on
      have isOpen := (onPipe_open handles ends on).2
      simp [closed] at isOpen
    · exact fun q other => ends.frees.single q p page other freeing
  · intro p page writable ending
    refine ⟨(ends.ends.held (page, writable)).mpr ⟨.inr p, ending⟩, ?_, ?_⟩
    · rintro f ⟨isPipe, isPage⟩ isWritable
      have same := ends.ends.single (.inl f) (.inr p) (page, writable)
        (by simp [endOf, isPipe, isPage, isWritable]) ending
      cases same
    · intro q other
      exact Sum.inr.inj (ends.ends.single (.inr q) (.inr p) (page, writable) other ending)
  · rintro p later before earlier rfl sameCall failed
    rcases run.split with ⟨first, middle, called, since⟩
    exact pipealloc_failed (fileInv_of_run first).handles called since sameCall failed

/-- Process 0 makes a pipe of page 7 and closes its read end; process 1 finds no page for another
one, and has closed its entries again. -/
def secondPipeFails : List (Slot × FileCall) :=
  [(0, .pipealloc), (0, .run none), (0, .run none), (0, .run (some 7)), (0, .run none),
    (1, .pipealloc), (1, .run none), (0, .fileclose 0), (1, .run none), (0, .run none),
    (1, .run none), (0, .run none), (1, .run none), (1, .run none), (0, .run none)]

theorem pipe_open_after_failed_pipealloc : ∃ trace state before later,
    Run fileStep (fileInit fun n => n = 7) trace state ∧ state.page 7 = .pipe false true ∧
      pipesMade 7 trace = pipesFreed 7 trace + 1 ∧ state.phase 1 = .closing [] true ∧
      ∀ f, freeEntry f state = freeEntry f before + changeOfOthers 1 (freeEntry f) later state := by
  obtain ⟨trace, state, run, failed, isPipe, called, sameCall⟩ :
      ∃ trace state, Run fileStep (fileInit fun n => n = 7) trace state ∧
      state.phase 1 = .closing [] true ∧ state.page 7 = .pipe false true ∧
      (trace.drop 9).head?.map Prod.snd = some (1, .pipealloc) ∧
      ∀ entry ∈ trace.take 9, entry.2 ≠ (1, .pipealloc) :=
    exists_run secondPipeFails (by decide +kernel)
  rcases file_lifetime run with ⟨_, _, counts, _, _, _, _, failing⟩
  rcases dropped : trace.drop 9 with _ | ⟨⟨before, label⟩, earlier⟩
  · simp [dropped] at called
  · simp only [dropped, List.head?_cons, Option.map_some, Option.some.injEq] at called
    subst called
    have cut : trace = trace.take 9 ++ (before, 1, .pipealloc) :: earlier := by
      rw [← dropped, List.take_append_drop]
    refine ⟨trace, state, before, trace.take 9, run, isPipe, ?_, failed, ?_⟩
    · rw [counts 7, isPipe]
      rfl
    · exact (failing 1 _ before earlier cut sameCall failed).1

end Xv6
