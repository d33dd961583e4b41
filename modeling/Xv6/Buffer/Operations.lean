import Xv6.Buffer.Cache

/-!
# Operations over the buffer cache

File-system operations pin the blocks that they write: `log_write` marks a buffer dirty, and it
stays so until `commit` has installed the block. Here processes run operations, and read
without one, while the last one to leave commits, with two buffers at a time.
-/

namespace Xv6

open Transition

/-- The calls that `commit` makes, in order, and what it does to the log at the end. A buffer is
named by its block. -/
inductive CommitCall where
  | bget (blockno : ℕ)
  | acquiresleep
  | bread (blockno : ℕ)
  | bwrite (blockno : ℕ)
  | releasesleep (blockno : ℕ)
  | brelse
  | clear
  | finish
  deriving DecidableEq, Repr

section Commit

def breadCalls (blockno : ℕ) : List CommitCall := [.bget blockno, .acquiresleep, .bread blockno]

def brelseCalls (blockno : ℕ) : List CommitCall := [.releasesleep blockno, .brelse]

variable (start : ℕ)

def writeLogCalls : ℕ → List ℕ → List CommitCall
  | _, [] => []
  | tail, blockno :: blocks =>
      breadCalls (start + tail + 1) ++ breadCalls blockno ++ [.bwrite (start + tail + 1)] ++
        brelseCalls blockno ++ brelseCalls (start + tail + 1) ++ writeLogCalls (tail + 1) blocks

def writeHeadCalls : List CommitCall := breadCalls start ++ [.bwrite start] ++ brelseCalls start

def installTransCalls : ℕ → List ℕ → List CommitCall
  | _, [] => []
  | tail, blockno :: blocks =>
      breadCalls (start + tail + 1) ++ breadCalls blockno ++ [.bwrite blockno] ++
        brelseCalls (start + tail + 1) ++ brelseCalls blockno ++ installTransCalls (tail + 1) blocks

def commitCalls (block : List ℕ) : List CommitCall :=
  (if block = [] then []
    else writeLogCalls start 0 block ++ writeHeadCalls start ++ installTransCalls start 0 block ++
      [.clear] ++ writeHeadCalls start) ++ [.finish]

end Commit

/-- The buffers and the log: the blocks of `log.lh`, the operations that are running with the
blocks that each of them has passed to `log_write`, and what a commit has left to do. -/
structure OpState where
  bufs : BufState
  block : List ℕ
  outstanding : ℕ
  committing : Bool
  op : Slot → Option (List ℕ)
  todo : Slot → List CommitCall

inductive OpAct where
  | beginOp
  | call (call : BufCall)
  | endOp
  | commit
  deriving DecidableEq, Repr

namespace OpState

variable (start size : ℕ)

/-- The buffer of a block that the process has locked. -/
def held (state : OpState) (pid : Slot) (blockno : ℕ) : Option BufId :=
  (List.finRange NBUF).find? fun b =>
    (state.bufs.cache.buf b).holder = some pid ∧ (state.bufs.cache.buf b).blockno = blockno

/-- The process is between calls and not in `commit`. -/
def Free (state : OpState) (pid : Slot) : Prop :=
  state.bufs.phase pid = .between ∧ state.todo pid = []

instance (state : OpState) (pid : Slot) : Decidable (state.Free pid) :=
  inferInstanceAs (Decidable (_ ∧ _))

/-- The critical section of `begin_op`; a process that has to wait tries again later. -/
def beginOp (state : OpState) (pid : Slot) : Option OpState :=
  if state.Free pid ∧ state.op pid = none ∧ state.committing = false ∧
      state.block.length + (state.outstanding + 1) * MAXOPBLOCKS ≤ LOGSIZE then
    some { state with
      outstanding := state.outstanding + 1
      op := Function.update state.op pid (some []) }
  else none

/-- The critical section of `end_op`; the last operation commits. -/
def endOp (state : OpState) (pid : Slot) : Option OpState :=
  if state.Free pid ∧ state.op pid ≠ none ∧ state.committing = false then
    let left := { state with
      outstanding := state.outstanding - 1
      op := Function.update state.op pid none }
    if left.outstanding = 0 then
      some { left with
        committing := true
        todo := Function.update state.todo pid (commitCalls start state.block) }
    else some left
  else none

/-- Put a block on a list, unless it is there. -/
def record (blockno : ℕ) (blocks : List ℕ) : List ℕ :=
  if blockno ∈ blocks then blocks else blocks ++ [blockno]

/-- `log_write` by a process in an operation. -/
def logWrite (state : OpState) (pid : Slot) (b : BufId) : Option OpState :=
  match state.op pid with
  | none => none
  | some blocks =>
      if state.block.length < LOGSIZE ∧ state.block.length + 1 < size then
        (state.bufs.step pid (.logWrite b)).map fun bufs =>
          { state with
            bufs
            block := record (state.bufs.cache.buf b).blockno state.block
            op := Function.update state.op pid
              (some (record (state.bufs.cache.buf b).blockno blocks)) }
      else none

/-- The file-system code of a process: it uses one device, and leaves `bwrite` to the log. -/
def call (state : OpState) (pid : Slot) (call : BufCall) : Option OpState :=
  if state.todo pid = [] then
    match call with
    | .logWrite b => state.logWrite size pid b
    | .bwrite _ => none
    | .bget dev blockno =>
        if dev = ROOTDEV then
          (state.bufs.step pid (.bget dev blockno)).map fun bufs => { state with bufs }
        else none
    | call => (state.bufs.step pid call).map fun bufs => { state with bufs }
  else none

/-- The buffer call that is next in `commit`. -/
def commitBufCall (state : OpState) (pid : Slot) : CommitCall → Option BufCall
  | .bget blockno => some (.bget ROOTDEV blockno)
  | .acquiresleep =>
      match state.bufs.phase pid with
      | .acquiring b => some (.acquiresleep b)
      | _ => none
  | .bread blockno => (state.held pid blockno).map .bread
  | .bwrite blockno => (state.held pid blockno).map .bwrite
  | .releasesleep blockno => (state.held pid blockno).map .releasesleep
  | .brelse =>
      match state.bufs.phase pid with
      | .releasing b => some (.brelse b)
      | _ => none
  | .clear | .finish => none

def commit (state : OpState) (pid : Slot) : Option OpState :=
  match state.todo pid with
  | [] => none
  | .clear :: rest =>
      some { state with block := [], todo := Function.update state.todo pid rest }
  | .finish :: rest =>
      some { state with committing := false, todo := Function.update state.todo pid rest }
  | next :: rest =>
      match state.commitBufCall pid next with
      | none => none
      | some call =>
          (state.bufs.step pid call).map fun bufs =>
            { state with bufs, todo := Function.update state.todo pid rest }

end OpState

/-- Processes run operations and read blocks, with a log of `size` blocks at `start`. -/
def opStep (start size : ℕ) (state : OpState) (label : Slot × OpAct) : Option OpState :=
  match label.2 with
  | .beginOp => state.beginOp label.1
  | .call call => state.call size label.1 call
  | .endOp => state.endOp start label.1
  | .commit => state.commit label.1

def opInit : OpState where
  bufs := bufInit
  block := []
  outstanding := 0
  committing := false
  op := fun _ => none
  todo := fun _ => []

/-! ## Steps of operations -/

inductive OpSteps (start size : ℕ) (state : OpState) (pid : Slot) : OpAct → OpState → Prop
  | beginOp (free : state.Free pid) (idle : state.op pid = none) (calm : state.committing = false)
      (room : state.block.length + (state.outstanding + 1) * MAXOPBLOCKS ≤ LOGSIZE) :
      OpSteps start size state pid .beginOp { state with
        outstanding := state.outstanding + 1
        op := Function.update state.op pid (some []) }
  | leave {blocks : List ℕ} (running : state.op pid = some blocks)
      (others : state.outstanding - 1 ≠ 0) :
      OpSteps start size state pid .endOp { state with
        outstanding := state.outstanding - 1
        op := Function.update state.op pid none }
  | last {blocks : List ℕ} (running : state.op pid = some blocks)
      (calm : state.committing = false) (alone : state.outstanding - 1 = 0) :
      OpSteps start size state pid .endOp { state with
        outstanding := state.outstanding - 1
        op := Function.update state.op pid none
        committing := true
        todo := Function.update state.todo pid (commitCalls start state.block) }
  | logWrite {b : BufId} {blocks : List ℕ} {bufs : BufState} (running : state.op pid = some blocks)
      (stepped : state.bufs.step pid (.logWrite b) = some bufs) :
      OpSteps start size state pid (.call (.logWrite b)) { state with
        bufs
        block := OpState.record (state.bufs.cache.buf b).blockno state.block
        op := Function.update state.op pid
          (some (OpState.record (state.bufs.cache.buf b).blockno blocks)) }
  | call {call : BufCall} {bufs : BufState} (outside : state.todo pid = [])
      (reads : ∀ b, call ≠ .logWrite b)
      (onDevice : ∀ dev blockno, call = .bget dev blockno → dev = ROOTDEV)
      (stepped : state.bufs.step pid call = some bufs) :
      OpSteps start size state pid (.call call) { state with bufs }
  | clear {rest : List CommitCall} (isTodo : state.todo pid = .clear :: rest) :
      OpSteps start size state pid .commit
        { state with block := [], todo := Function.update state.todo pid rest }
  | finish {rest : List CommitCall} (isTodo : state.todo pid = .finish :: rest) :
      OpSteps start size state pid .commit
        { state with committing := false, todo := Function.update state.todo pid rest }
  | commit {now : CommitCall} {rest : List CommitCall} {call : BufCall} {bufs : BufState}
      (isTodo : state.todo pid = now :: rest) (isCall : state.commitBufCall pid now = some call)
      (stepped : state.bufs.step pid call = some bufs) :
      OpSteps start size state pid .commit
        { state with bufs, todo := Function.update state.todo pid rest }

section Steps

variable {start size : ℕ} {state next : OpState} {pid : Slot} {act : OpAct}

theorem OpState.call_cases {call : BufCall} (stepped : state.call size pid call = some next) :
    OpSteps start size state pid (.call call) next := by
  unfold OpState.call at stepped
  split at stepped
  · rename_i outside
    cases call with
    | logWrite b =>
        simp only [OpState.logWrite] at stepped
        split at stepped
        · contradiction
        · rename_i running
          split at stepped
          · rcases Option.map_eq_some_iff.mp stepped with ⟨bufs, written, rfl⟩
            exact .logWrite running written
          · contradiction
    | bwrite b => contradiction
    | bget dev blockno =>
        simp only at stepped
        split at stepped
        · rename_i onRoot
          rcases Option.map_eq_some_iff.mp stepped with ⟨bufs, got, rfl⟩
          refine .call outside (by simp) ?_ got
          intro dev' blockno' isCall
          cases isCall
          exact onRoot
        · contradiction
    | acquiresleep b | bread b | releasesleep b | brelse b =>
        rcases Option.map_eq_some_iff.mp stepped with ⟨bufs, done, rfl⟩
        exact .call outside (by simp) (by simp) done
  · contradiction

theorem OpState.commit_cases (stepped : state.commit pid = some next) :
    OpSteps start size state pid .commit next := by
  unfold OpState.commit at stepped
  split at stepped
  · contradiction
  · rename_i isTodo
    cases stepped
    exact .clear isTodo
  · rename_i isTodo
    cases stepped
    exact .finish isTodo
  · rename_i now rest _ _ isTodo
    split at stepped
    · contradiction
    · rename_i call isCall
      rcases Option.map_eq_some_iff.mp stepped with ⟨bufs, done, rfl⟩
      exact .commit isTodo isCall done

theorem opStep_cases (stepped : opStep start size state (pid, act) = some next) :
    OpSteps start size state pid act next := by
  cases act with
  | beginOp =>
      simp only [opStep, OpState.beginOp] at stepped
      split at stepped
      · rename_i ready
        cases stepped
        exact .beginOp ready.1 ready.2.1 ready.2.2.1 ready.2.2.2
      · contradiction
  | call call => exact OpState.call_cases stepped
  | endOp =>
      simp only [opStep, OpState.endOp] at stepped
      split at stepped
      · rename_i ready
        rcases Option.ne_none_iff_exists'.mp ready.2.1 with ⟨blocks, running⟩
        split at stepped
        · rename_i alone
          cases stepped
          exact .last running ready.2.2 alone
        · rename_i others
          cases stepped
          exact .leave running others
      · contradiction
  | commit => exact OpState.commit_cases stepped

end Steps

end Xv6
