import Xv6.File.Handles
import Xv6.Lib.Tokens

/-!
# The ends of pipes

Each end of a pipe has one entry, or one process that has closed the last handle of it and has
not yet closed the end. A pipe both of whose ends are closed has one process that is about to
free its page, and a page that `pipealloc` has taken has one process that is about to fill it in.
-/

namespace Xv6

open Transition Function

namespace FilePhase

/-- The end of a pipe that the process is going to close. -/
@[simp]
def ending : FilePhase → Option (ℕ × Bool)
  | .pipeclose page writable _ _ => some (page, writable)
  | _ => none

/-- The page that the process is going to free. -/
@[simp]
def freeing : FilePhase → Option ℕ
  | .kfree page _ _ => some page
  | _ => none

/-- The page that the process is going to make a pipe. -/
@[simp]
def filling : FilePhase → Option ℕ
  | .fill _ _ page => some page
  | _ => none

/-- The process has the same end and the same pages to itself as before. -/
def Like (phase before : FilePhase) : Prop :=
  phase.ending = before.ending ∧ phase.freeing = before.freeing ∧ phase.filling = before.filling

theorem view_update {Item : Type} (view : FilePhase → Option Item) {phases : Slot → FilePhase}
    {p : Slot} {phase before : FilePhase} (was : phases p = before) (same : view phase = view before)
    (q : Slot) : view (update phases p phase q) = view (phases q) := by
  by_cases isSame : q = p
  · rw [isSame, update_self, same, was]
  · rw [update_of_ne isSame]

theorem like_update {phases : Slot → FilePhase} {p : Slot} {phase before : FilePhase}
    (was : phases p = before) (like : phase.Like before) (q : Slot) :
    (update phases p phase q).Like (phases q) :=
  ⟨view_update ending was like.1 q, view_update freeing was like.2.1 q,
    view_update filling was like.2.2 q⟩

end FilePhase

variable {state next : FileState} {p q : Slot} {f g : FileId} {page : ℕ}

/-- The end of a pipe that an entry stands for, or that a process is going to close. -/
def endOf (state : FileState) : FileId ⊕ Slot → Option (ℕ × Bool)
  | .inl f =>
      if (state.file f).type = .pipe then some ((state.file f).pipe, (state.file f).writable)
      else none
  | .inr p => (state.phase p).ending

structure EndInv (state : FileState) : Prop where
  ends : Tokens (fun pipeEnd : ℕ × Bool => (state.page pipeEnd.1).isOpen pipeEnd.2 = true)
    (endOf state)
  frees : Tokens (fun page => state.page page = .pipe false false)
    (fun p => (state.phase p).freeing)
  fills : Tokens (fun page => state.page page = .taken) (fun p => (state.phase p).filling)

namespace EndInv

theorem fileInit (page : ℕ → Bool) : EndInv (fileInit page) where
  ends := by
    apply Tokens.none.congr
    · rintro ⟨n, writable⟩
      by_cases isFree : page n <;> simp [Xv6.fileInit, isFree]
    · rintro (f | p) <;> rfl
  frees := by
    apply Tokens.none.congr _ (fun _ => rfl)
    intro n
    by_cases isFree : page n <;> simp [Xv6.fileInit, isFree]
  fills := by
    apply Tokens.none.congr _ (fun _ => rfl)
    intro n
    by_cases isFree : page n <;> simp [Xv6.fileInit, isFree]

theorem still (inv : EndInv state) (file : ∀ f, endOf next (.inl f) = endOf state (.inl f))
    (page : next.page = state.page) (phase : ∀ q, (next.phase q).Like (state.phase q)) :
    EndInv next where
  ends := by
    apply inv.ends.congr
    · simp [page]
    · rintro (f | q)
      · exact file f
      · exact (phase q).1
  frees := by
    apply inv.frees.congr
    · simp [page]
    · exact fun q => (phase q).2.1
  fills := by
    apply inv.fills.congr
    · simp [page]
    · exact fun q => (phase q).2.2

theorem endOf_inl {file : File} (stored : next.file = update state.file f file)
    (same : file.type = .pipe ↔ (state.file f).type = .pipe) (pipe : file.pipe = (state.file f).pipe)
    (writable : file.writable = (state.file f).writable) (g : FileId) :
    endOf next (.inl g) = endOf state (.inl g) := by
  simp only [endOf, stored]
  by_cases isSame : g = f
  · simp [isSame, same, pipe, writable]
  · simp [isSame]

theorem endOf_setPhase (state : FileState) (p : Slot) (phase : FilePhase) (holder : FileId ⊕ Slot) :
    endOf (state.setPhase p phase) holder =
      update (endOf state) (.inr p) phase.ending holder := by
  rcases holder with g | q
  · rw [update_of_ne (by simp)]
    rfl
  · by_cases same : q = p <;> simp [same, endOf]

theorem endOf_inr {phase before : FilePhase}
    (phases : next.phase = update state.phase p phase) (was : state.phase p = before)
    (same : phase.ending = before.ending) (q : Slot) :
    endOf next (.inr q) = endOf state (.inr q) := by
  simp only [endOf, phases]
  exact FilePhase.view_update FilePhase.ending was same q

theorem freeing_setPhase (state : FileState) (p : Slot) (phase : FilePhase) (q : Slot) :
    ((state.setPhase p phase).phase q).freeing =
      update (fun q => (state.phase q).freeing) p phase.freeing q :=
  Function.apply_update (fun _ => FilePhase.freeing) state.phase p phase q

theorem filling_setPhase (state : FileState) (p : Slot) (phase : FilePhase) (q : Slot) :
    ((state.setPhase p phase).phase q).filling =
      update (fun q => (state.phase q).filling) p phase.filling q :=
  Function.apply_update (fun _ => FilePhase.filling) state.phase p phase q

theorem isOpen_update {use : PageUse} {pages : ℕ → PageUse}
    (same : ∀ writable, use.isOpen writable = (pages page).isOpen writable) (n : ℕ)
    (writable : Bool) :
    (update pages page use n).isOpen writable = (pages n).isOpen writable := by
  by_cases isPage : n = page
  · rw [isPage, update_self, same]
  · rw [update_of_ne isPage]

theorem use_update {use kind : PageUse} {pages : ℕ → PageUse} (same : use = kind ↔ pages page = kind)
    (n : ℕ) : update pages page use n = kind ↔ pages n = kind := by
  by_cases isPage : n = page
  · simp [isPage, same]
  · simp [isPage]

section

variable (inv : EndInv state)

include inv

theorem kalloc {f0 f1 : FileId} (phase : state.phase p = .kalloc f0 f1)
    (free : state.page page = .free) :
    EndInv ((state.setPage page .taken).setPhase p (.fill f0 f1 page)) where
  ends := by
    apply inv.ends.congr
    · rintro ⟨n, writable⟩
      simp only [FileState.setPage, FileState.setPhase]
      rw [isOpen_update (by simp [free])]
    · rintro (g | q)
      · rfl
      · exact endOf_inr rfl phase (by rfl) q
  frees := by
    apply inv.frees.congr
    · exact use_update (by simp [free])
    · exact FilePhase.view_update FilePhase.freeing phase rfl
  fills := by
    have empty : (state.phase p).filling = none := by simp [phase]
    apply (inv.fills.add p page empty (by simp [free])).congr
    · intro n
      by_cases same : n = page <;> simp [same]
    · exact filling_setPhase (state.setPage page .taken) p (.fill f0 f1 page)

theorem fillPipe {f0 f1 : FileId} (handles : HandleInv state)
    (phase : state.phase p = .fill f0 f1 page) :
    EndInv ((state.fillPipe f0 f1 page).setPhase p .idle) := by
  have fresh := handles.fresh p
  have nodup := handles.nodup p
  rw [phase] at fresh nodup
  have none0 := (fresh f0 (by simp)).2
  have none1 := (fresh f1 (by simp)).2
  have different : f1 ≠ f0 := by
    intro same
    simp [same] at nodup
  have filling : (state.phase p).filling = some page := by simp [phase]
  have taken := (inv.fills.held page).mpr ⟨p, filling⟩
  refine ⟨?_, ?_, ?_⟩
  · have readEnd := inv.ends.add (.inl f0) (page, false) (by simp [endOf, none0])
      (by simp [taken])
    have bothEnds := readEnd.add (.inl f1) (page, true) (by simp [endOf, none1, different])
      (by simp [taken])
    apply bothEnds.congr
    · rintro ⟨n, writable⟩
      by_cases same : n = page
      · cases writable <;>
          simp [FileState.fillPipe, same]
      · simp [FileState.fillPipe, same]
    · rintro (g | q)
      · by_cases isSecond : g = f1
        · simp [endOf, FileState.fillPipe, isSecond]
        · by_cases isFirst : g = f0 <;>
            simp [endOf, FileState.fillPipe, isSecond, isFirst, different.symm]
      · rw [update_of_ne (by simp), update_of_ne (by simp)]
        exact endOf_inr rfl phase (by rfl) q
  · apply inv.frees.congr
    · exact use_update (by simp [taken])
    · exact FilePhase.view_update FilePhase.freeing phase rfl
  · apply (inv.fills.remove p page filling).congr
    · intro n
      by_cases same : n = page <;>
        simp [FileState.fillPipe, same]
    · exact filling_setPhase (state.fillPipe f0 f1 page) p .idle

/-- The part of `fileclose` under `ftable.lock`: the last handle of an end hands it on to the
process that closes it. -/
theorem closeNext {files : List FileId} {failed : Bool}
    (phase : state.phase p = .closing (f :: files) failed) :
    EndInv (state.closeNext p f files failed) := by
  have like : ∀ q, (update state.phase p (.closing files failed) q).Like (state.phase q) :=
    FilePhase.like_update phase ⟨rfl, rfl, rfl⟩
  simp only [FileState.closeNext]
  split
  · rename_i more
    refine inv.still ?_ rfl like
    exact endOf_inl rfl (by simp [more]) (by simp [more]) (by simp [more])
  · rename_i last
    split
    · rename_i isPipe
      refine ⟨?_, ?_, ?_⟩
      · have passed := inv.ends.pass (.inl f) (.inr p) ((state.file f).pipe, (state.file f).writable)
          (by simp [endOf, isPipe]) (by simp [endOf, phase])
        apply passed.congr (fun _ => Iff.rfl)
        intro holder
        rw [endOf_setPhase]
        congr 1
        funext other
        rcases other with g | q
        · by_cases same : g = f <;>
            simp [endOf, FileState.release, last, same]
        · rfl
      · apply inv.frees.congr (fun _ => Iff.rfl)
        exact FilePhase.view_update FilePhase.freeing phase rfl
      · apply inv.fills.congr (fun _ => Iff.rfl)
        exact FilePhase.view_update FilePhase.filling phase rfl
    all_goals
      rename_i isOther
      refine inv.still ?_ rfl like
      exact endOf_inl rfl (by simp [last, isOther]) (by simp [last]) (by simp [last])

theorem pipeclose {writable failed : Bool} {files : List FileId} {use : PageUse}
    (phase : state.phase p = .pipeclose page writable files failed)
    (closed : FileState.closeEnd (state.page page) writable = some use) :
    EndInv ((state.setPage page use).setPhase p
      (if use = .pipe false false then .kfree page files failed else .closing files failed)) := by
  have ending : endOf state (.inr p) = some (page, writable) := by
    simp [endOf, phase]
  have isOpen : (state.page page).isOpen writable = true := (inv.ends.held _).mpr ⟨_, ending⟩
  have shape : ∃ readopen writeopen, state.page page = .pipe readopen writeopen := by
    cases isUse : state.page page with
    | pipe readopen writeopen => exact ⟨readopen, writeopen, rfl⟩
    | _ => simp [isUse] at isOpen
  rcases shape with ⟨readopen, writeopen, isPipe⟩
  rw [isPipe] at isOpen closed
  simp only [FileState.closeEnd, Option.some.injEq] at closed
  refine ⟨?_, ?_, ?_⟩
  · apply (inv.ends.remove (.inr p) (page, writable) ending).congr
    · rintro ⟨n, other⟩
      by_cases same : n = page
      · cases writable <;> cases other <;>
          simp_all [← closed]
      · simp [same]
    · intro holder
      rw [endOf_setPhase]
      congr 1
      split <;> rfl
  · by_cases both : use = .pipe false false
    · have empty : (state.phase p).freeing = none := by simp [phase]
      have unused : state.page page ≠ .pipe false false := by
        rw [isPipe]
        rintro ⟨⟩
        cases writable <;> simp at isOpen
      rw [if_pos both]
      apply (inv.frees.add p page empty unused).congr
      · intro n
        by_cases same : n = page <;> simp [same, both]
      · exact freeing_setPhase (state.setPage page use) p (.kfree page files failed)
    · rw [if_neg both]
      apply inv.frees.congr
      · refine use_update ?_
        rw [isPipe]
        refine ⟨fun isBoth => absurd isBoth both, ?_⟩
        rintro ⟨⟩
        cases writable <;> simp at isOpen
      · exact FilePhase.view_update FilePhase.freeing phase rfl
  · apply inv.fills.congr
    · refine use_update ?_
      rw [isPipe, ← closed]
      split <;> simp
    · apply FilePhase.view_update FilePhase.filling phase
      split <;> rfl

theorem kfree {files : List FileId} {failed : Bool}
    (phase : state.phase p = .kfree page files failed) :
    EndInv ((state.setPage page .free).setPhase p (.closing files failed)) := by
  have freeing : (state.phase p).freeing = some page := by simp [phase]
  have closed := (inv.frees.held page).mpr ⟨p, freeing⟩
  refine ⟨?_, ?_, ?_⟩
  · apply inv.ends.congr
    · rintro ⟨n, writable⟩
      simp only [FileState.setPage, FileState.setPhase]
      rw [isOpen_update (by simp [closed])]
    · rintro (g | q)
      · rfl
      · exact endOf_inr rfl phase (by rfl) q
  · apply (inv.frees.remove p page freeing).congr
    · intro n
      by_cases same : n = page <;> simp [same]
    · exact freeing_setPhase (state.setPage page .free) p (.closing files failed)
  · apply inv.fills.congr
    · exact use_update (by simp [closed])
    · exact FilePhase.view_update FilePhase.filling phase rfl

theorem other {use : PageUse} (after : use = .free ∨ use = .busy)
    (before : state.page page = .free ∨ state.page page = .busy) :
    EndInv (state.setPage page use) := by
  have noPipe : ∀ {use : PageUse}, use = .free ∨ use = .busy →
      (∀ writable, use.isOpen writable = false) ∧ use ≠ .pipe false false ∧ use ≠ .taken := by
    rintro use (rfl | rfl) <;> simp
  have afterNo := noPipe after
  have beforeNo := noPipe before
  refine ⟨?_, ?_, ?_⟩
  · apply inv.ends.congr _ (by rintro (g | q) <;> rfl)
    rintro ⟨n, writable⟩
    simp only [FileState.setPage]
    rw [isOpen_update fun other => (afterNo.1 other).trans (beforeNo.1 other).symm]
  · exact inv.frees.congr (use_update (by simp [afterNo, beforeNo])) (fun _ => rfl)
  · exact inv.fills.congr (use_update (by simp [afterNo, beforeNo])) (fun _ => rfl)

theorem step {call : FileCall} (handles : HandleInv state) (steps : FileSteps state p call next) :
    EndInv next := by
  cases steps with
  | full idle => exact inv
  | filealloc | filedup =>
      exact inv.still (endOf_inl rfl Iff.rfl rfl rfl) rfl (fun _ => ⟨rfl, rfl, rfl⟩)
  | setInode idle mine isNone =>
      exact inv.still (endOf_inl rfl (by simp [isNone]) rfl rfl) rfl
        (fun _ => ⟨rfl, rfl, rfl⟩)
  | fileclose phase mine =>
      exact inv.still (fun _ => rfl) rfl (FilePhase.like_update phase ⟨rfl, rfl, rfl⟩)
  | pipealloc phase | noFirst phase | noSecond phase | noPage phase | returns phase =>
      exact inv.still (fun _ => rfl) rfl (FilePhase.like_update phase ⟨rfl, rfl, rfl⟩)
  | first phase unused | second phase unused =>
      exact inv.still (endOf_inl rfl Iff.rfl rfl rfl) rfl
        (FilePhase.like_update phase ⟨rfl, rfl, rfl⟩)
  | page phase free => exact inv.kalloc phase free
  | fill phase => exact inv.fillPipe handles phase
  | close phase used => exact inv.closeNext phase
  | pipeclose phase closed => exact inv.pipeclose phase closed
  | kfree phase => exact inv.kfree phase
  | takePage free => exact inv.other (Or.inr rfl) (Or.inl free)
  | givePage busy => exact inv.other (Or.inl rfl) (Or.inr busy)

end

end EndInv

end Xv6
