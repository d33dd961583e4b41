import Xv6.Kernel.Basic
import Xv6.Lib.Run

/-!
# The file table and the pages of pipes

`filealloc`, `filedup` and `fileclose` of `file.c`, and `pipealloc` and `pipeclose` of `pipe.c`,
as far as they decide on the entries of the file table and on the pages of pipes. What happens
under `ftable.lock` or under `p->lock` is one step, and so are `kalloc`, `kfree` and the stores
of `pipealloc` to the entries that only its caller has.

A handle is what `filealloc` and `filedup` return; a process uses and closes handles of its own.
-/

namespace Xv6

open Transition

abbrev NFILE : ℕ := 100

abbrev FileId := Fin NFILE

inductive FdType where
  | none
  | pipe
  | inode
  deriving DecidableEq, Repr

/-- `struct file`, without the inode and the offset. A pipe is named by its page. -/
structure File where
  type : FdType
  ref : ℕ
  readable : Bool
  writable : Bool
  pipe : ℕ
  deriving DecidableEq, Repr

/-- An entry as the loader leaves it: all bytes zero. -/
def File.empty : File where
  type := .none
  ref := 0
  readable := false
  writable := false
  pipe := 0

/-- What a page is used for: nothing, something outside this model, a pipe that `pipealloc` has
not filled in, a pipe with its two flags. -/
inductive PageUse where
  | free
  | busy
  | taken
  | pipe (readopen writeopen : Bool)
  deriving DecidableEq, Repr

@[simp]
def PageUse.isOpen : PageUse → Bool → Bool
  | .pipe readopen writeopen, writable => if writable then writeopen else readopen
  | _, _ => false

/-- Where a process is: in `pipealloc`, or in `fileclose` of some files one after the other. The
latter is also how a `pipealloc` ends that has failed. -/
inductive FilePhase where
  | idle
  | filealloc0
  | filealloc1 (f0 : FileId)
  | kalloc (f0 f1 : FileId)
  | fill (f0 f1 : FileId) (page : ℕ)
  | closing (files : List FileId) (failed : Bool)
  | pipeclose (page : ℕ) (writable : Bool) (files : List FileId) (failed : Bool)
  | kfree (page : ℕ) (files : List FileId) (failed : Bool)
  deriving DecidableEq, Repr

structure FileState where
  file : FileId → File
  page : ℕ → PageUse
  handles : List (Slot × FileId)
  phase : Slot → FilePhase

/-- The calls of a process, and the next part of a call that it is in; `kalloc` returns the page
named, or none. Other code takes free pages and gives them back. -/
inductive FileCall where
  | filealloc
  | setInode (f : FileId)
  | filedup (f : FileId) (owner : Slot)
  | fileclose (f : FileId)
  | pipealloc
  | run (page : Option ℕ)
  | takePage (page : ℕ)
  | givePage (page : ℕ)
  deriving DecidableEq, Repr

namespace FileState

@[simps]
def setPhase (state : FileState) (p : Slot) (phase : FilePhase) : FileState :=
  { state with phase := Function.update state.phase p phase }

@[simps]
def setPage (state : FileState) (page : ℕ) (use : PageUse) : FileState :=
  { state with page := Function.update state.page page use }

@[simps]
def setFile (state : FileState) (f : FileId) (file : File) : FileState :=
  { state with file := Function.update state.file f file }

/-- The first entry that nobody refers to. -/
def unused (state : FileState) : Option FileId :=
  (List.finRange NFILE).find? fun f => (state.file f).ref = 0

@[simps]
def claim (state : FileState) (p : Slot) (f : FileId) : FileState :=
  { state.setFile f { state.file f with ref := 1 } with handles := (p, f) :: state.handles }

/-- One reference less; the last one leaves the entry free. -/
def release (state : FileState) (p : Slot) (f : FileId) : FileState :=
  let file := state.file f
  let left : File :=
    if 0 < file.ref - 1 then { file with ref := file.ref - 1 }
    else { file with ref := 0, type := .none }
  { state.setFile f left with handles := state.handles.erase (p, f) }

/-- The part of `fileclose` under `ftable.lock`, and what is left to do for the entry. -/
def closeNext (state : FileState) (p : Slot) (f : FileId) (files : List FileId) (failed : Bool) :
    FileState :=
  let file := state.file f
  let after := state.release p f
  if 0 < file.ref - 1 then after.setPhase p (.closing files failed)
  else
    match file.type with
    | .pipe => after.setPhase p (.pipeclose file.pipe file.writable files failed)
    | .none | .inode => after.setPhase p (.closing files failed)

def fillPipe (state : FileState) (f0 f1 : FileId) (page : ℕ) : FileState :=
  ((state.setPage page (.pipe true true)).setFile f0
    { state.file f0 with type := .pipe, readable := true, writable := false, pipe := page }).setFile
    f1 { state.file f1 with type := .pipe, readable := false, writable := true, pipe := page }

/-- The part of `pipeclose` under `p->lock`. -/
def closeEnd (use : PageUse) (writable : Bool) : Option PageUse :=
  match use with
  | .pipe readopen writeopen =>
      some (if writable then .pipe readopen false else .pipe false writeopen)
  | _ => none

/-- The next part of the call that a process is in. There is none for a `fileclose` of a free
entry, where the source panics, nor for a `pipeclose` of a page that is no pipe. -/
def resume (state : FileState) (p : Slot) (choice : Option ℕ) : Option FileState :=
  match state.phase p with
  | .idle => none
  | .filealloc0 =>
      match state.unused with
      | none => some (state.setPhase p (.closing [] true))
      | some f => some ((state.claim p f).setPhase p (.filealloc1 f))
  | .filealloc1 f0 =>
      match state.unused with
      | none => some (state.setPhase p (.closing [f0] true))
      | some f => some ((state.claim p f).setPhase p (.kalloc f0 f))
  | .kalloc f0 f1 =>
      match choice with
      | none => some (state.setPhase p (.closing [f0, f1] true))
      | some page =>
          if state.page page = .free then
            some ((state.setPage page .taken).setPhase p (.fill f0 f1 page))
          else none
  | .fill f0 f1 page => some ((state.fillPipe f0 f1 page).setPhase p .idle)
  | .closing [] _ => some (state.setPhase p .idle)
  | .closing (f :: files) failed =>
      if (state.file f).ref < 1 then none else some (state.closeNext p f files failed)
  | .pipeclose page writable files failed =>
      match closeEnd (state.page page) writable with
      | none => none
      | some use =>
          some ((state.setPage page use).setPhase p
            (if use = .pipe false false then .kfree page files failed else .closing files failed))
  | .kfree page files failed =>
      some ((state.setPage page .free).setPhase p (.closing files failed))

/-- A step of a process. `setInode` is what the caller of `filealloc` in `sys_open` does. -/
def step (state : FileState) (p : Slot) (call : FileCall) : Option FileState :=
  match call with
  | .run choice => state.resume p choice
  | .takePage page =>
      if state.page page = .free then some (state.setPage page .busy) else none
  | .givePage page =>
      if state.page page = .busy then some (state.setPage page .free) else none
  | call =>
      if state.phase p = .idle then
        match call with
        | .filealloc =>
            match state.unused with
            | none => some state
            | some f => some (state.claim p f)
        | .setInode f =>
            if (p, f) ∈ state.handles ∧ (state.file f).type = .none then
              some (state.setFile f { state.file f with type := .inode })
            else none
        | .filedup f owner =>
            if (p, f) ∈ state.handles then
              if (state.file f).ref < 1 then none
              else
                some { state.setFile f { state.file f with ref := (state.file f).ref + 1 } with
                  handles := (owner, f) :: state.handles }
            else none
        | .fileclose f =>
            if (p, f) ∈ state.handles then some (state.setPhase p (.closing [f] false)) else none
        | .pipealloc => some (state.setPhase p .filealloc0)
        | _ => none
      else none

end FileState

/-- The table and the pages after boot; some pages may be in use. -/
def fileInit (page : ℕ → Bool) : FileState where
  file := fun _ => .empty
  page := fun n => if page n then .free else .busy
  handles := []
  phase := fun _ => .idle

def fileStep (state : FileState) (label : Slot × FileCall) : Option FileState :=
  state.step label.1 label.2

inductive FileSteps (state : FileState) (p : Slot) : FileCall → FileState → Prop
  | full (idle : state.phase p = .idle) : FileSteps state p .filealloc state
  | filealloc {f : FileId} (idle : state.phase p = .idle) (unused : (state.file f).ref = 0) :
      FileSteps state p .filealloc (state.claim p f)
  | setInode {f : FileId} (idle : state.phase p = .idle) (mine : (p, f) ∈ state.handles)
      (fresh : (state.file f).type = .none) :
      FileSteps state p (.setInode f) (state.setFile f { state.file f with type := .inode })
  | filedup {f : FileId} {owner : Slot} (idle : state.phase p = .idle)
      (mine : (p, f) ∈ state.handles) (used : 1 ≤ (state.file f).ref) :
      FileSteps state p (.filedup f owner)
        { state.setFile f { state.file f with ref := (state.file f).ref + 1 } with
          handles := (owner, f) :: state.handles }
  | fileclose {f : FileId} (idle : state.phase p = .idle) (mine : (p, f) ∈ state.handles) :
      FileSteps state p (.fileclose f) (state.setPhase p (.closing [f] false))
  | pipealloc (idle : state.phase p = .idle) :
      FileSteps state p .pipealloc (state.setPhase p .filealloc0)
  | noFirst {choice : Option ℕ} (phase : state.phase p = .filealloc0) :
      FileSteps state p (.run choice) (state.setPhase p (.closing [] true))
  | first {choice : Option ℕ} {f : FileId} (phase : state.phase p = .filealloc0)
      (unused : (state.file f).ref = 0) :
      FileSteps state p (.run choice) ((state.claim p f).setPhase p (.filealloc1 f))
  | noSecond {choice : Option ℕ} {f0 : FileId} (phase : state.phase p = .filealloc1 f0) :
      FileSteps state p (.run choice) (state.setPhase p (.closing [f0] true))
  | second {choice : Option ℕ} {f0 f : FileId} (phase : state.phase p = .filealloc1 f0)
      (unused : (state.file f).ref = 0) :
      FileSteps state p (.run choice) ((state.claim p f).setPhase p (.kalloc f0 f))
  | noPage {f0 f1 : FileId} (phase : state.phase p = .kalloc f0 f1) :
      FileSteps state p (.run none) (state.setPhase p (.closing [f0, f1] true))
  | page {f0 f1 : FileId} {page : ℕ} (phase : state.phase p = .kalloc f0 f1)
      (free : state.page page = .free) :
      FileSteps state p (.run (some page))
        ((state.setPage page .taken).setPhase p (.fill f0 f1 page))
  | fill {choice : Option ℕ} {f0 f1 : FileId} {page : ℕ} (phase : state.phase p = .fill f0 f1 page) :
      FileSteps state p (.run choice) ((state.fillPipe f0 f1 page).setPhase p .idle)
  | returns {choice : Option ℕ} {failed : Bool} (phase : state.phase p = .closing [] failed) :
      FileSteps state p (.run choice) (state.setPhase p .idle)
  | close {choice : Option ℕ} {f : FileId} {files : List FileId} {failed : Bool}
      (phase : state.phase p = .closing (f :: files) failed) (used : 1 ≤ (state.file f).ref) :
      FileSteps state p (.run choice) (state.closeNext p f files failed)
  | pipeclose {choice : Option ℕ} {page : ℕ} {writable failed : Bool} {files : List FileId}
      {use : PageUse} (phase : state.phase p = .pipeclose page writable files failed)
      (closed : FileState.closeEnd (state.page page) writable = some use) :
      FileSteps state p (.run choice) ((state.setPage page use).setPhase p
        (if use = .pipe false false then .kfree page files failed else .closing files failed))
  | kfree {choice : Option ℕ} {page : ℕ} {files : List FileId} {failed : Bool}
      (phase : state.phase p = .kfree page files failed) :
      FileSteps state p (.run choice)
        ((state.setPage page .free).setPhase p (.closing files failed))
  | takePage {page : ℕ} (free : state.page page = .free) :
      FileSteps state p (.takePage page) (state.setPage page .busy)
  | givePage {page : ℕ} (busy : state.page page = .busy) :
      FileSteps state p (.givePage page) (state.setPage page .free)

section Cases

variable {state next : FileState} {p : Slot} {f : FileId} {call : FileCall} {choice : Option ℕ}

theorem FileState.ref_of_unused (found : state.unused = some f) : (state.file f).ref = 0 := by
  simpa using List.find?_some found

theorem resume_cases (resumed : state.resume p choice = some next) :
    FileSteps state p (.run choice) next := by
  unfold FileState.resume at resumed
  split at resumed
  · contradiction
  · rename_i phase
    split at resumed <;> cases resumed
    · exact .noFirst phase
    · rename_i found
      exact .first phase (FileState.ref_of_unused found)
  · rename_i phase
    split at resumed <;> cases resumed
    · exact .noSecond phase
    · rename_i found
      exact .second phase (FileState.ref_of_unused found)
  · rename_i phase
    split at resumed
    · cases resumed
      exact .noPage phase
    · split at resumed
      · rename_i free
        cases resumed
        exact .page phase free
      · contradiction
  · rename_i phase
    cases resumed
    exact .fill phase
  · rename_i phase
    cases resumed
    exact .returns phase
  · rename_i phase
    split at resumed
    · contradiction
    · rename_i used
      cases resumed
      exact .close phase (not_lt.mp used)
  · rename_i phase
    split at resumed
    · contradiction
    · rename_i closed
      cases resumed
      exact .pipeclose phase closed
  · rename_i phase
    cases resumed
    exact .kfree phase

theorem fileStep_cases (stepped : fileStep state (p, call) = some next) :
    FileSteps state p call next := by
  simp only [fileStep, FileState.step] at stepped
  split at stepped
  · exact resume_cases stepped
  · split at stepped
    · rename_i free
      cases stepped
      exact .takePage free
    · contradiction
  · split at stepped
    · rename_i busy
      cases stepped
      exact .givePage busy
    · contradiction
  · split at stepped
    · rename_i idle
      split at stepped
      · split at stepped <;> cases stepped
        · exact .full idle
        · rename_i found
          exact .filealloc idle (FileState.ref_of_unused found)
      · split at stepped
        · rename_i fresh
          cases stepped
          exact .setInode idle fresh.1 fresh.2
        · contradiction
      · split at stepped
        · rename_i mine
          split at stepped
          · contradiction
          · rename_i used
            cases stepped
            exact .filedup idle mine (not_lt.mp used)
        · contradiction
      · split at stepped
        · rename_i mine
          cases stepped
          exact .fileclose idle mine
        · contradiction
      · cases stepped
        exact .pipealloc idle
      · contradiction
    · contradiction

end Cases

end Xv6
