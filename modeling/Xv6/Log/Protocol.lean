import Xv6.Log.Operations

/-!
# The protocol of the log

`outstanding` counts the operations that are under way, and a commit begins when the last one
ends. So no operation is in a commit, and while there is no commit the header has exactly the
blocks logged since the last one. A process that sleeps on `&log` has a reason to.

The acts of `log.c` that the threads have before them and the log make up the abstract state;
`LogInv` is kept by what an act does to it, whichever thread is next.
-/

namespace Xv6

open Threads Transition Function

def LogHeader.blocks (lh : LogHeader) : List BlockNo := (List.range lh.n.toNat).map lh.block

def LogAct.IsWrite : LogAct → Prop
  | .check | .record _ _ => True
  | _ => False

def LogAct.IsCommit : LogAct → Prop
  | .commit | .writeLog | .writeHead | .installTrans | .clearHead => True
  | _ => False

/-- Where a thread is: in no operation, before one, in one, or in a commit. -/
inductive LogStage where
  | outside
  | before
  | inside
  | committing
  deriving DecidableEq

/-- What a thread has to do at each stage. -/
inductive LogShape : LogStage → List LogAct → Prop
  | idle : LogShape .outside []
  | endBody : LogShape .inside [.endBody]
  | write {act : LogAct} {rest : List LogAct} (isWrite : act.IsWrite)
      (later : LogShape .inside rest) : LogShape .inside (act :: rest)
  | beginLoop {rest : List LogAct} (later : LogShape .inside rest) :
      LogShape .before (.beginLoop :: rest)
  | endCommit : LogShape .committing [.endCommit]
  | commit {act : LogAct} {rest : List LogAct} (isCommit : act.IsCommit)
      (later : LogShape .committing rest) : LogShape .committing (act :: rest)

/-- The thread is between `begin_op` and `end_op`. -/
def InOp (acts : List LogAct) : Prop := .endBody ∈ acts ∧ .beginLoop ∉ acts

instance (acts : List LogAct) : Decidable (InOp acts) :=
  inferInstanceAs (Decidable (_ ∧ _))

namespace LogShape

variable {stage : LogStage} {acts : List LogAct}

theorem beginLoop_mem_iff (shape : LogShape stage acts) :
    .beginLoop ∈ acts ↔ stage = .before := by
  induction shape with
  | @write act rest isWrite later ih | @commit act rest isCommit later ih =>
      cases act <;> simp_all [LogAct.IsWrite, LogAct.IsCommit]
  | _ => simp

theorem inOp_iff (shape : LogShape stage acts) : InOp acts ↔ stage = .inside := by
  have ends : .endBody ∈ acts ↔ stage = .inside ∨ stage = .before := by
    induction shape with
    | @write act rest isWrite later ih | @commit act rest isCommit later ih =>
        cases act <;> simp_all [LogAct.IsWrite, LogAct.IsCommit]
    | beginLoop later ih => simpa using ih
    | _ => simp
  rw [InOp, shape.beginLoop_mem_iff, ends]
  cases stage <;> simp

theorem endCommit_mem_iff (shape : LogShape stage acts) :
    .endCommit ∈ acts ↔ stage = .committing := by
  induction shape with
  | @write act rest isWrite later ih | @commit act rest isCommit later ih =>
      cases act <;> simp_all [LogAct.IsWrite, LogAct.IsCommit]
  | beginLoop later ih => simpa using ih
  | _ => simp

theorem append_commits {rest more : List LogAct} (later : LogShape .committing rest)
    (parts : ∀ part ∈ more, part.IsCommit) : LogShape .committing (more ++ rest) := by
  induction more with
  | nil => exact later
  | cons part more ih =>
      exact .commit (parts part List.mem_cons_self)
        (ih fun other mem => parts other (List.mem_cons_of_mem _ mem))

end LogShape

/-! ## The header -/

section Header

variable {log : Log} {b : BlockNo} {data : Block}

theorem LogHeader.mem_blocks {lh : LogHeader} :
    b ∈ lh.blocks ↔ ∃ i < lh.n.toNat, lh.block i = b := by
  simp [LogHeader.blocks]

theorem blocks_logWriteRecord (nonneg : 0 ≤ log.lh.n) :
    (logWriteRecord log b data).lh.blocks =
      if b ∈ log.lh.blocks then log.lh.blocks else log.lh.blocks ++ [b] := by
  rcases log.lh.slot_spec b with ⟨inUse, same⟩ | ⟨atEnd, fresh⟩
  · have unchanged : update log.lh.block (log.lh.slot b) b = log.lh.block :=
      (congrArg (update log.lh.block (log.lh.slot b)) same).symm.trans
        (update_eq_self _ _)
    have mem : b ∈ log.lh.blocks := LogHeader.mem_blocks.mpr ⟨_, inUse, same⟩
    simp only [logWriteRecord, LogHeader.blocks, unchanged, if_neg (show log.lh.slot b ≠ log.lh.n.toNat by omega)]
    exact (if_pos mem).symm
  · have notMem : b ∉ log.lh.blocks := by
      rw [LogHeader.mem_blocks]
      rintro ⟨i, inUse, same⟩
      exact fresh i inUse same
    have next : (log.lh.n + 1).toNat = log.lh.n.toNat + 1 := by omega
    rw [if_neg notMem]
    simp only [logWriteRecord, LogHeader.blocks, atEnd, if_true, next, List.range_succ,
      List.map_append, List.map_singleton, update_self]
    congr 1
    apply List.map_congr_left
    intro i inRange
    rw [update_of_ne]
    exact Nat.ne_of_lt (List.mem_range.mp inRange)

theorem n_logWriteRecord : (logWriteRecord log b data).lh.n =
    if b ∈ log.lh.blocks then log.lh.n else log.lh.n + 1 := by
  simp only [logWriteRecord]
  rcases log.lh.slot_spec b with ⟨inUse, same⟩ | ⟨atEnd, fresh⟩
  · rw [if_neg (by omega), if_pos (LogHeader.mem_blocks.mpr ⟨_, inUse, same⟩)]
  · rw [if_pos atEnd, if_neg]
    rw [LogHeader.mem_blocks]
    rintro ⟨i, inUse, same⟩
    exact fresh i inUse same

theorem nonneg_logWriteRecord (nonneg : 0 ≤ log.lh.n) :
    0 ≤ (logWriteRecord log b data).lh.n := by
  rw [n_logWriteRecord]
  split <;> omega

theorem nodup_logWriteRecord (nonneg : 0 ≤ log.lh.n) (nodup : log.lh.blocks.Nodup) :
    (logWriteRecord log b data).lh.blocks.Nodup := by
  rw [blocks_logWriteRecord nonneg]
  split
  · exact nodup
  · rename_i notMem
    exact List.nodup_append.mpr ⟨nodup, by simp, by
      rintro old inOld new isNew rfl
      rw [List.mem_singleton.mp isNew] at inOld
      exact notMem inOld⟩

theorem mem_logWriteRecord (nonneg : 0 ≤ log.lh.n) (other : BlockNo) :
    other ∈ (logWriteRecord log b data).lh.blocks ↔ other = b ∨ other ∈ log.lh.blocks := by
  rw [blocks_logWriteRecord nonneg]
  split
  · rename_i mem
    constructor
    · exact Or.inr
    · rintro (rfl | inOld)
      · exact mem
      · exact inOld
  · simp [or_comm]

theorem exists_dirty_copyLoop {source target : ℕ → BlockNo} {disk : DiskImage} :
    ∃ dirty, (copyLoop source target log).result disk = { log with dirty } := by
  unfold copyLoop
  generalize List.range log.lh.n.toNat = tails
  induction tails generalizing log disk with
  | nil => exact ⟨log.dirty, rfl⟩
  | cons tail tails ih =>
      rw [List.foldlM_cons, Disk.Program.result_bind, result_copyBlock]
      rcases @ih (log.clean [target tail]) ((copyBlock (source tail) (target tail) log).final disk)
        with ⟨dirty, resultIs⟩
      exact ⟨dirty, resultIs⟩

end Header

/-! ## The protocol -/

section Protocol

variable {ncpu : ℕ}

/-- The processes between `begin_op` and `end_op`. -/
def inOps (acts : Thread ncpu → List LogAct) : Finset Slot :=
  Finset.univ.filter fun slot => InOp (acts (.proc slot))

/-- The acts before the threads, the log, and the blocks logged since the last commit. -/
structure LogInv (written : List BlockNo) (acts : Thread ncpu → List LogAct) (log : Log) :
    Prop where
  idle : ∀ own, acts (.scheduler own) = []
  shape : ∀ thread, ∃ stage, LogShape stage (acts thread)
  counted : log.outstanding = (inOps acts).card
  alone : log.committing = true → log.outstanding = 0
  committing : ∀ thread, .endCommit ∈ acts thread → log.committing = true
  single : ∀ thread other, .endCommit ∈ acts thread → .endCommit ∈ acts other → thread = other
  cleared : ∀ thread, .endCommit ∈ acts thread → .commit ∉ acts thread →
    .clearHead ∉ acts thread → log.lh.n = 0
  nonneg : 0 ≤ log.lh.n
  nodup : log.lh.blocks.Nodup
  same : log.committing = false → ∀ b, b ∈ log.lh.blocks ↔ b ∈ written

/-- The blocks logged since the last commit, after an act. -/
def LogAct.writtenAfter (written : List BlockNo) : LogAct → List BlockNo
  | .record b _ => b :: written
  | .endCommit => []
  | _ => written

variable {acts : Thread ncpu → List LogAct} {log : Log} {written : List BlockNo}
  {thread : Thread ncpu} {slot : Slot} {act : LogAct} {new rest : List LogAct}

theorem inOps_update : inOps (update acts (.proc slot) new) =
    if InOp new then insert slot (inOps acts) else (inOps acts).erase slot := by
  ext other
  by_cases same : other = slot
  · subst other
    by_cases inNew : InOp new <;> simp [inOps, inNew]
  · split <;> simp [inOps, same]

theorem mem_inOps : slot ∈ inOps acts ↔ InOp (acts (.proc slot)) := by
  simp [inOps]

theorem inOps_update_of_iff (same : InOp new ↔ InOp (acts (.proc slot))) :
    inOps (update acts (.proc slot) new) = inOps acts := by
  rw [inOps_update]
  split
  · rename_i inNew
    exact Finset.insert_eq_of_mem (mem_inOps.mpr (same.mp inNew))
  · rename_i notNew
    exact Finset.erase_eq_of_notMem fun mem => notNew (same.mpr (mem_inOps.mp mem))

namespace LogInv

section

variable (inv : LogInv written acts log)

include inv

theorem exists_proc (before : acts thread = act :: rest) : ∃ slot, thread = .proc slot := by
  cases thread with
  | proc slot => exact ⟨slot, rfl⟩
  | scheduler own => simp [inv.idle own] at before

theorem committing_of_inOp (inside : InOp (acts (.proc slot))) : log.committing = false := by
  by_contra isCommitting
  have zero := inv.alone (by simpa using isCommitting)
  have empty : (inOps acts).card = 0 := by
    have counted := inv.counted
    omega
  have mem := mem_inOps.mpr inside
  rw [Finset.card_eq_zero.mp empty] at mem
  simp at mem

theorem idle_update (own : Fin ncpu) :
    update acts (.proc slot) new (.scheduler own) = [] := by
  rw [update_of_ne (by simp)]
  exact inv.idle own

theorem shape_update {stage : LogStage} (shape : LogShape stage new) (thread : Thread ncpu) :
    ∃ stage, LogShape stage (update acts (.proc slot) new thread) := by
  by_cases same : thread = .proc slot
  · subst thread
    rw [update_self]
    exact ⟨stage, shape⟩
  · rw [update_of_ne same]
    exact inv.shape thread

end

theorem endCommit_update (commits : .endCommit ∈ new → .endCommit ∈ acts (.proc slot))
    (mem : .endCommit ∈ update acts (.proc slot) new thread) :
    .endCommit ∈ acts thread := by
  by_cases same : thread = .proc slot
  · subst thread
    rw [update_self] at mem
    exact commits mem
  · rwa [update_of_ne same] at mem

section

variable (inv : LogInv written acts log)

include inv

theorem goOn {stage : LogStage} (shape : LogShape stage new)
    (inside : InOp new ↔ InOp (acts (.proc slot)))
    (commits : .endCommit ∈ new → .endCommit ∈ acts (.proc slot))
    (cleared : .endCommit ∈ new → .commit ∉ new → .clearHead ∉ new → log.lh.n = 0) :
    LogInv written (update acts (.proc slot) new) log where
  idle := inv.idle_update
  shape := inv.shape_update shape
  counted := by
    rw [inOps_update_of_iff inside]
    exact inv.counted
  alone := inv.alone
  committing := fun thread mem => inv.committing thread (endCommit_update commits mem)
  single := fun thread other mem otherMem =>
    inv.single thread other (endCommit_update commits mem) (endCommit_update commits otherMem)
  cleared := by
    intro thread mem notCommit notClear
    by_cases same : thread = .proc slot
    · subst thread
      rw [update_self] at mem notCommit notClear
      exact cleared mem notCommit notClear
    · rw [update_of_ne same] at mem notCommit notClear
      exact inv.cleared thread mem notCommit notClear
  nonneg := inv.nonneg
  nodup := inv.nodup
  same := inv.same

section

variable (before : acts (.proc slot) = act :: rest)

include before

theorem inWrite (isWrite : act.IsWrite) :
    LogShape .inside (acts (.proc slot)) ∧ LogShape .inside rest := by
  rcases inv.shape (.proc slot) with ⟨stage, shape⟩
  have isShape := shape
  rw [before] at isShape
  cases isShape with
  | write _ later => exact ⟨shape, later⟩
  | endBody | beginLoop | endCommit => exact isWrite.elim
  | commit isCommit _ => cases act <;> simp [LogAct.IsWrite, LogAct.IsCommit] at isWrite isCommit

theorem wrote (isWrite : act.IsWrite) :
    LogInv written (update acts (.proc slot) rest) log := by
  rcases inv.inWrite before isWrite with ⟨shape, later⟩
  refine inv.goOn later ?_ ?_ ?_
  · rw [later.inOp_iff, shape.inOp_iff]
  · simp [later.endCommit_mem_iff]
  · simp [later.endCommit_mem_iff]

theorem inCommit (isCommit : act.IsCommit) :
    LogShape .committing (acts (.proc slot)) ∧ LogShape .committing rest := by
  rcases inv.shape (.proc slot) with ⟨stage, shape⟩
  have isShape := shape
  rw [before] at isShape
  cases isShape with
  | commit _ later => exact ⟨shape, later⟩
  | endBody | beginLoop | endCommit => exact isCommit.elim
  | write isWrite _ => cases act <;> simp [LogAct.IsWrite, LogAct.IsCommit] at isWrite isCommit

theorem committed (isCommit : act.IsCommit) {more : List LogAct}
    (parts : ∀ part ∈ more, part.IsCommit)
    (cleared : .commit ∉ more ++ rest → .clearHead ∉ more ++ rest → log.lh.n = 0) :
    LogInv written (update acts (.proc slot) (more ++ rest)) log := by
  rcases inv.inCommit before isCommit with ⟨shape, later⟩
  have longer := later.append_commits parts
  refine inv.goOn longer ?_ ?_ (fun _ => cleared)
  · rw [longer.inOp_iff, shape.inOp_iff]
  · exact fun _ => shape.endCommit_mem_iff.mpr rfl

end

theorem dirty (dirty : BlockNo → Option Block) : LogInv written acts { log with dirty } :=
  ⟨inv.idle, inv.shape, inv.counted, inv.alone, inv.committing, inv.single, inv.cleared,
    inv.nonneg, inv.nodup, inv.same⟩

theorem letIn (before : acts (.proc slot) = .beginLoop :: rest) (admitted : log.admits = true) :
    LogInv written (update acts (.proc slot) rest)
      { log with outstanding := log.outstanding + 1 } := by
  have idle : log.committing = false := by
    simp only [Log.admits, Bool.and_eq_true, Bool.not_eq_true'] at admitted
    exact admitted.1
  rcases inv.shape (.proc slot) with ⟨stage, shape⟩
  have isShape := shape
  rw [before] at isShape
  cases isShape with
  | beginLoop later =>
      have notCommit : .endCommit ∈ rest → .endCommit ∈ acts (.proc slot) := by
        simp [later.endCommit_mem_iff]
      have notInside : slot ∉ inOps acts := by
        rw [mem_inOps, shape.inOp_iff]
        simp
      have nobody : ∀ thread, .endCommit ∉ update acts (.proc slot) rest thread := by
        intro thread mem
        have isCommitting := inv.committing thread (endCommit_update notCommit mem)
        simp [idle] at isCommitting
      refine ⟨inv.idle_update, inv.shape_update later, ?_, ?_, ?_, ?_, ?_, inv.nonneg, inv.nodup,
        inv.same⟩
      · rw [inOps_update, if_pos (later.inOp_iff.mpr rfl), Finset.card_insert_of_notMem notInside]
        have counted := inv.counted
        push_cast
        omega
      · simp [idle]
      · exact fun thread mem => absurd mem (nobody thread)
      · exact fun thread _ mem => absurd mem (nobody thread)
      · exact fun thread mem => absurd mem (nobody thread)
  | write isWrite | commit isWrite => exact isWrite.elim

section

variable (before : acts (.proc slot) = .endBody :: rest)

include before

theorem inOps_endBody (notInside : ¬InOp new) : rest = [] ∧ InOp (acts (.proc slot)) ∧
      log.outstanding = (inOps (update acts (.proc slot) new)).card + 1 := by
  rcases inv.shape (.proc slot) with ⟨stage, shape⟩
  have isShape := shape
  rw [before] at isShape
  cases isShape with
  | endBody =>
      have inside := shape.inOp_iff.mpr rfl
      refine ⟨rfl, inside, ?_⟩
      rw [inOps_update, if_neg notInside, inv.counted]
      exact_mod_cast (Finset.card_erase_add_one (mem_inOps.mpr inside)).symm
  | write isWrite _ => exact isWrite.elim
  | commit isCommit _ => exact isCommit.elim

theorem last (single : log.outstanding = 1) :
    LogInv written (update acts (.proc slot) ([.commit, .endCommit] ++ rest))
      { log with outstanding := 0, committing := true } := by
  have notInside : ¬InOp [.commit, .endCommit] := by simp [InOp]
  rcases inv.inOps_endBody before notInside with ⟨rfl, inside, counted⟩
  have idle := inv.committing_of_inOp inside
  have shape : LogShape .committing [.commit, .endCommit] := .commit trivial .endCommit
  have only : ∀ thread, .endCommit ∈ update acts (.proc slot) [.commit, .endCommit] thread →
      thread = .proc slot := by
    intro thread mem
    by_contra different
    rw [update_of_ne different] at mem
    have isCommitting := inv.committing thread mem
    simp [idle] at isCommitting
  refine ⟨inv.idle_update, inv.shape_update shape, ?_, fun _ => rfl, fun _ _ => rfl, ?_, ?_,
    inv.nonneg, inv.nodup, by simp⟩
  · simp only [List.append_nil]
    omega
  · exact fun thread other mem otherMem => (only thread mem).trans (only other otherMem).symm
  · intro thread mem notCommit
    rw [only thread mem, List.append_nil, update_self] at notCommit
    simp at notCommit

theorem leave : LogInv written (update acts (.proc slot) rest)
      { log with outstanding := log.outstanding - 1 } := by
  have notInside : ¬InOp [] := by simp [InOp]
  rcases inv.inOps_endBody before notInside with ⟨rfl, inside, counted⟩
  have idle := inv.committing_of_inOp inside
  have nobody : ∀ thread, .endCommit ∉ update acts (.proc slot) [] thread := by
    intro thread mem
    have isCommitting := inv.committing thread (endCommit_update (by simp) mem)
    simp [idle] at isCommitting
  refine ⟨inv.idle_update, inv.shape_update .idle, ?_, ?_, ?_, ?_, ?_, inv.nonneg, inv.nodup,
    inv.same⟩
  · simp only
    omega
  · simp [idle]
  · exact fun thread mem => absurd mem (nobody thread)
  · exact fun thread _ mem => absurd mem (nobody thread)
  · exact fun thread mem => absurd mem (nobody thread)

end

theorem endCommit (before : acts (.proc slot) = .endCommit :: rest) :
    LogInv [] (update acts (.proc slot) rest) { log with committing := false } := by
  rcases inv.shape (.proc slot) with ⟨stage, shape⟩
  have isShape := shape
  rw [before] at isShape
  cases isShape with
  | endCommit =>
      have mine : .endCommit ∈ acts (.proc slot) := by simp [before]
      have zero : log.lh.n = 0 := inv.cleared _ mine (by simp [before]) (by simp [before])
      have nobody : ∀ thread, .endCommit ∉ update acts (.proc slot) [] thread := by
        intro thread mem
        have inCommit := endCommit_update (by simp) mem
        rw [inv.single thread _ inCommit mine, update_self] at mem
        simp at mem
      refine ⟨inv.idle_update, inv.shape_update .idle, ?_, by simp, ?_, ?_, ?_, inv.nonneg,
        inv.nodup, ?_⟩
      · rw [inOps_update_of_iff (by simp [InOp, before])]
        exact inv.counted
      · exact fun thread mem => absurd mem (nobody thread)
      · exact fun thread _ mem => absurd mem (nobody thread)
      · exact fun thread mem => absurd mem (nobody thread)
      · simp [LogHeader.blocks, zero]
  | write isWrite _ => exact isWrite.elim
  | commit isCommit _ => exact isCommit.elim

theorem record {b : BlockNo} {data : Block} (before : acts (.proc slot) = .record b data :: rest) :
    LogInv (b :: written) (update acts (.proc slot) rest)
      (logWriteRecord log b data) := by
  have after := inv.wrote before trivial
  have idle := inv.committing_of_inOp ((inv.inWrite before trivial).1.inOp_iff.mpr rfl)
  have nobody : ∀ thread, .endCommit ∉ update acts (.proc slot) rest thread := by
    intro thread mem
    have isCommitting := after.committing thread mem
    simp [idle] at isCommitting
  refine ⟨after.idle, after.shape, after.counted, after.alone, after.committing, after.single, ?_,
    nonneg_logWriteRecord inv.nonneg, nodup_logWriteRecord inv.nonneg inv.nodup, ?_⟩
  · exact fun thread mem => absurd mem (nobody thread)
  · intro _ other
    rw [mem_logWriteRecord inv.nonneg, inv.same idle other, List.mem_cons]

end

theorem wroteDisk {program : Log → BlockM Log} {mount : Mount} (inv : LogInv written acts mount.log)
    (before : acts (.proc slot) = act :: rest) (isCommit : act.IsCommit)
    (other : act ≠ .commit ∧ act ≠ .clearHead)
    (onlyDirty : ∃ dirty, (mount.run program).log = { mount.log with dirty }) :
    LogInv written (update acts (.proc slot) rest) (mount.run program).log := by
  rcases onlyDirty with ⟨dirty, logIs⟩
  rw [logIs]
  have parts : ∀ part ∈ ([] : List LogAct), part.IsCommit := by simp
  refine (inv.committed before isCommit parts ?_).dirty dirty
  rw [List.nil_append]
  intro notCommit notClear
  apply inv.cleared (.proc slot) ((inv.inCommit before isCommit).1.endCommit_mem_iff.mpr rfl)
  · simp [before, notCommit, Ne.symm other.1]
  · simp [before, notClear, Ne.symm other.2]

theorem emptied (inv : LogInv written acts log) (isCommitting : log.committing = true) :
    LogInv written acts log.clearHead :=
  ⟨inv.idle, inv.shape, inv.counted, inv.alone, inv.committing, inv.single,
    fun _ _ _ _ => rfl, le_rfl, List.nodup_nil, by simp [Log.clearHead, isCommitting]⟩

theorem committing_of_clearHead (inv : LogInv written acts log)
    (before : acts (.proc slot) = .clearHead :: rest) : log.committing = true :=
  inv.committing _ ((inv.inCommit before trivial).1.endCommit_mem_iff.mpr rfl)

theorem clearHead (inv : LogInv written acts log)
    (before : acts (.proc slot) = .clearHead :: rest) :
    LogInv written (update acts (.proc slot) rest) log.clearHead := by
  have parts : ∀ part ∈ ([] : List LogAct), part.IsCommit := by simp
  exact (inv.emptied (inv.committing_of_clearHead before)).committed before trivial parts
    fun _ _ => rfl

theorem exec {mount next : Mount} {code : LogCode} (inv : LogInv written acts mount.log)
    (before : acts thread = act :: rest) (execs : mount.Execs act next code) :
    LogInv (act.writtenAfter written) (update acts thread (subActs code ++ rest))
      next.log := by
  rcases inv.exists_proc before with ⟨slot, rfl⟩
  cases execs with
  | letIn admitted => exact inv.letIn before admitted
  | wait blocked =>
      have same : subActs (sleep .log .log ++ [logAct .beginLoop]) ++ rest = acts (.proc slot) := by
        rw [before, subActs_append, subActs_sleep]
        rfl
      rw [same, update_eq_self]
      exact inv
  | check checked => exact inv.wrote before trivial
  | record bound => exact inv.record before
  | last idle single => exact inv.last before single
  | leave idle several => exact inv.leave before
  | commit some_ =>
      refine inv.committed before trivial ?_ ?_
      · simp [commitCode, subActs, subAct?, LogAct.IsCommit]
      · simp [commitCode, subActs, subAct?]
  | empty none_ =>
      refine inv.committed before trivial (by simp) ?_
      intro _ _
      have nonneg := inv.nonneg
      omega
  | writeLog | installTrans => exact inv.wroteDisk before trivial (by simp) exists_dirty_copyLoop
  | writeHead => exact inv.wroteDisk before trivial (by simp) ⟨_, result_writeHead⟩
  | clearHead => exact inv.clearHead before
  | endCommit => exact inv.endCommit before

theorem start (inv : LogInv written acts log) (idle : acts (.proc slot) = [])
    (shape : LogShape .before new) : LogInv written (update acts (.proc slot) new) log := by
  refine inv.goOn shape ?_ ?_ ?_
  · rw [shape.inOp_iff, idle]
    simp [InOp]
  · simp [shape.endCommit_mem_iff]
  · simp [shape.endCommit_mem_iff]

end LogInv

end Protocol

/-! ## The kernel follows the protocol -/

section Machine

variable {ncpu : ℕ} {state next : LogMachine ncpu} {label : LogLabel ncpu} {cpu : Fin ncpu}
  {trace : Trace (LogMachine ncpu) (LogLabel ncpu)}

/-- The blocks logged since the last commit. -/
def sinceCommit : Trace (LogMachine ncpu) (LogLabel ncpu) → List BlockNo
  | [] => []
  | (before, .run cpu _) :: trace =>
      match before.running cpu with
      | .act (.sub act) :: _ => act.writtenAfter (sinceCommit trace)
      | _ => sinceCommit trace
  | _ :: trace => sinceCommit trace

/-- The acts of `log.c` that each thread has to do. -/
def logActs (state : LogMachine ncpu) : Thread ncpu → List LogAct :=
  fun thread => subActs (state.code thread)

theorem sinceCommit_of_noSubAct (noAct : NoSubAct state label) :
    sinceCommit ((state, label) :: trace) = sinceCommit trace := by
  cases label with
  | run cpu choice =>
      simp only [sinceCommit]
      split
      · rename_i act rest head
        exact absurd head (noAct cpu choice act rest rfl)
      · rfl
  | call cpu entry => rfl
  | intr cpu intr => rfl

theorem subActs_opCode (writes : List (BlockNo × Block)) : subActs (opCode writes) =
    .beginLoop :: (writes.flatMap fun write => [.check, .record write.1 write.2]) ++ [.endBody] := by
  have writing : subActs (writes.flatMap fun write => logWriteCode write.1 write.2) =
      writes.flatMap fun write => [.check, .record write.1 write.2] := by
    induction writes with
    | nil => rfl
    | cons write writes ih =>
        rw [List.flatMap_cons, List.flatMap_cons, subActs_append, ih]
        rfl
  rw [opCode, subActs_append, subActs_append, writing]
  rfl

theorem logShape_opCode (writes : List (BlockNo × Block)) :
    LogShape .before (subActs (opCode writes)) := by
  rw [subActs_opCode, List.cons_append]
  apply LogShape.beginLoop
  induction writes with
  | nil => exact .endBody
  | cons write writes ih => exact .write trivial (.write trivial ih)

theorem logActs_update {thread : Thread ncpu} {acts : List LogAct}
    (here : subActs (next.code thread) = acts) (others : OthersKeep state next thread) :
    logActs next = update (logActs state) thread acts := by
  funext other
  by_cases same : other = thread
  · rw [same, update_self]
    exact here
  · rw [update_of_ne same]
    exact others other same

theorem logActs_cur {act : LogAct} {rest : LogCode} (head : state.running cpu = logAct act :: rest) :
    logActs state (state.cur cpu) = act :: subActs rest := by
  rw [logActs, ← State.running, head]
  rfl

theorem LogInv.step (inv : LogInv (sinceCommit trace) (logActs state) state.shared.sub.log)
    (moves : SubMoves logging state next label) :
    LogInv (sinceCommit ((state, label) :: trace)) (logActs next) next.shared.sub.log := by
  cases moves with
  | still noAct shared keep =>
      rw [sinceCommit_of_noSubAct noAct, shared, show logActs next = logActs state from funext keep]
      exact inv
  | @call cpu slot entry onCpu shared idle started others =>
      rw [logActs_update started others, shared]
      exact inv.start idle (logShape_opCode entry.writes)
  | @intr cpu intr shared started others => exact intr.elim
  | @act cpu choice act rest result head ran shared before after others =>
      rcases logging_exec ran with ⟨mount, code, rfl, execs⟩
      have logged : sinceCommit ((state, .run cpu choice) :: trace) =
          act.writtenAfter (sinceCommit trace) := by
        simp [sinceCommit, head]
      rw [logged, logActs_update after others, shared]
      exact inv.exec before execs

theorem logRule_frees {mount after : Mount} {act : LogAct} {code : LogCode}
    (execs : mount.Execs act after code) (blocked : mount.log.admits = false)
    (commits : act = .clearHead → mount.log.committing = true) :
    after.log.admits = false ∨ act.needs {.log} ∧ logRule.wakes ∈ code := by
  have onlyDirty : (∃ dirty, after.log = { mount.log with dirty }) → after.log.admits = false := by
    rintro ⟨dirty, logIs⟩
    rw [logIs]
    exact blocked
  cases execs with
  | letIn admitted => simp [blocked] at admitted
  | record bound =>
      left
      simp only [Log.admits, logWriteRecord, Bool.and_eq_false_iff, Bool.not_eq_false',
        decide_eq_false_iff_not, not_le] at blocked ⊢
      refine blocked.imp_right fun full => decide_eq_false (not_le.mpr ?_)
      refine full.trans_le (add_le_add_left ?_ _)
      split <;> omega
  | last idle single => simp [Log.admits]
  | clearHead => simp [Log.admits, Log.clearHead, commits rfl]
  | leave | endCommit =>
      right
      refine ⟨rfl, ?_⟩
      simp [wakeup, logRule]
  | writeLog | installTrans => exact Or.inl (onlyDirty exists_dirty_copyLoop)
  | writeHead => exact Or.inl (onlyDirty ⟨_, result_writeHead⟩)
  | wait | check | commit | empty => exact Or.inl blocked

theorem logRule_step {act : LogAct} {choice : ℕ} {rest : LogCode} {result : Kern Mount × LogCode}
    {allowed : Lock → Lock → Prop} {written : List BlockNo} (core : CoreInv logLocking allowed state)
    (inv : LogInv written (logActs state) state.shared.sub.log)
    (head : state.running cpu = logAct act :: rest)
    (ran : logging.exec act (state.cur cpu) choice state.shared = some result) :
    logRule.Step state cpu rest result := by
  rcases logging_exec ran with ⟨mount, code, rfl, execs⟩
  refine ⟨?_, ?_⟩
  · intro mem
    cases execs with
    | wait blocked => exact ⟨WaitRule.atSleep_sleep (by simp), blocked⟩
    | _ => simp [logRule, wakeup, commitCode] at mem
  · intro blocked
    have before := logActs_cur head
    have commits : act = .clearHead → state.shared.sub.log.committing = true := by
      rintro rfl
      rcases inv.exists_proc before with ⟨slot, onCpu⟩
      rw [onCpu] at before
      exact inv.committing_of_clearHead before
    refine (logRule_frees execs blocked commits).imp_right ?_
    rintro ⟨needs, mem⟩
    refine ⟨?_, List.mem_append_left _ mem⟩
    rcases core.tracked.current cpu with ⟨held, holds, obeys⟩
    rw [head] at obeys
    have heldIs : held = {.log} := by
      have needsHeld : act.needs held := obeys.runs.1
      cases act <;> simp_all [LogAct.needs]
    apply (holds.mem _).mp
    simp [heldIs, logRule]

/-- The invariants of a run of operations. -/
structure LogRunInv (trace : Trace (LogMachine ncpu) (LogLabel ncpu)) (state : LogMachine ncpu) :
    Prop where
  life : LifeInv logLocking (fun _ _ => True) state
  protocol : LogInv (sinceCommit trace) (logActs state) state.shared.sub.log
  lost : logRule.NoneLost state
  under : logRule.UnderLock state

theorem LogRunInv.step (inv : LogRunInv trace state) (stepped : logStep state label = some next) :
    LogRunInv ((state, label) :: trace) next where
  life := inv.life.step logLaws logPlain stepped nestsAllowed_of_all
  protocol := inv.protocol.step (inv.life.subMoves stepped)
  lost := by
    apply inv.lost.step logKeeps logPlain inv.life stepped
    intro cpu choice act rest result _ head ran
    exact logRule_step inv.life.core inv.protocol head ran
  under := inv.under.step logWakes logPlain inv.life.core stepped

theorem result_recoverFromLog {log : Log} {disk : DiskImage} : ∃ block dirty,
    (recoverFromLog log).result disk = { log with lh := { n := 0, block }, dirty } := by
  have head : ∃ lh, (readHead log).result disk = { log with lh } := by
    rw [readHead, Disk.Program.result_bind]
    exact ⟨_, rfl⟩
  rcases head with ⟨lh, headIs⟩
  rcases @exists_dirty_copyLoop { log with lh } (logBlock log.start) lh.block
    ((readHead log).final disk) with ⟨dirty, installIs⟩
  rw [recoverFromLog, Disk.Program.result_bind, Disk.Program.result_bind, result_writeHead, headIs,
    installTrans, installIs]
  exact ⟨lh.block, _, rfl⟩

theorem logInv_fresh {acts : Thread ncpu → List LogAct} {log : Log}
    (none : ∀ thread, acts thread = []) (zero : log.lh.n = 0) (outside : log.outstanding = 0) :
    LogInv [] acts log := by
  have empty : inOps acts = ∅ := by
    apply Finset.filter_eq_empty_iff.mpr
    intro slot _
    simp [none, InOp]
  refine ⟨fun own => none _, fun thread => ⟨.outside, ?_⟩, ?_, fun _ => outside, ?_, ?_, ?_,
    zero.ge, ?_, ?_⟩
  · rw [none]
    exact .idle
  · simp [empty, outside]
  · simp [none]
  · simp [none]
  · exact fun _ _ _ _ => zero
  · simp [LogHeader.blocks, zero]
  · simp [LogHeader.blocks, zero]

theorem mounted_fresh (logstart : BlockNo) (nlog : ℤ) (image : DiskImage) :
    (mounted logstart nlog image).log.size = nlog ∧ (mounted logstart nlog image).log.lh.n = 0 ∧
      (mounted logstart nlog image).log.outstanding = 0 := by
  rcases @result_recoverFromLog (initlog logstart nlog) image with ⟨block, dirty, logIs⟩
  rw [mounted, logIs]
  exact ⟨rfl, rfl, rfl⟩

theorem logInv_boot {freePages : List ℕ} {logstart : BlockNo} {nlog : ℤ} {image : DiskImage} :
    LogInv [] (logActs (boot ncpu freePages (mounted logstart nlog image)))
      (mounted logstart nlog image).log :=
  logInv_fresh subActs_boot (mounted_fresh logstart nlog image).2.1
    (mounted_fresh logstart nlog image).2.2

theorem logRunInv_of_run {freePages : List ℕ} {logstart : BlockNo} {nlog : ℤ} {image : DiskImage}
    (run : Run logStep (boot ncpu freePages (mounted logstart nlog image)) trace state) :
    LogRunInv trace state := by
  refine Run.invariant LogRunInv
    ⟨lifeInv_boot, logInv_boot, WaitRule.NoneLost.noneLost_boot, WaitRule.underLock_boot⟩ ?_ run
    (Trace.all_true trace)
  intro trace state label next inv _ _ stepped
  exact inv.step stepped

end Machine

/-- In every state of a run: `outstanding` counts the processes in an operation, there is none
of them in a commit, `end_op` does not panic, the header has no block twice, outside of a
commit it has the blocks logged since the last one, and with `log.lock` free whoever sleeps on
`&log` would not be let in. -/
theorem log_protocol {ncpu : ℕ} {freePages : List ℕ} {logstart : BlockNo} {nlog : ℤ}
    {image : DiskImage} {trace : Trace (LogMachine ncpu) (LogLabel ncpu)} {state : LogMachine ncpu}
    (run : Run logStep (boot ncpu freePages (mounted logstart nlog image)) trace state) :
    let log := state.shared.sub.log
    log.outstanding = (inOps (logActs state)).card ∧
      (log.committing = true → log.outstanding = 0) ∧
      (∀ cpu rest, state.running cpu = logAct .endBody :: rest →
        endOp log ≠ .error "log.committing") ∧
      log.lh.blocks.Nodup ∧
      (log.committing = false → ∀ b, b ∈ log.lh.blocks ↔ b ∈ sinceCommit trace) ∧
      (state.owner .log = none → ∀ slot, state.shared.AsleepOn slot .log →
        log.committing = true ∨ log.lh.n + (log.outstanding + 1) * MAXOPBLOCKS > LOGSIZE) := by
  intro log
  have inv := logRunInv_of_run run
  refine ⟨inv.protocol.counted, inv.protocol.alone, ?_, inv.protocol.nodup, inv.protocol.same, ?_⟩
  · intro cpu rest head panics
    have before := logActs_cur head
    rcases inv.protocol.exists_proc before with ⟨slot, onCpu⟩
    rw [onCpu] at before
    have inside := (inv.protocol.inOps_endBody before (by simp [InOp] : ¬InOp [])).2.1
    have idle : log.committing = false := inv.protocol.committing_of_inOp inside
    simp only [endOp, idle, Bool.false_eq_true, if_false] at panics
    split at panics <;> contradiction
  · intro free slot asleep
    have notPending := inv.under.not_pending inv.life.core logWakes.different free
    have blocked : log.admits = false :=
      (inv.lost.late slot (Or.inl asleep)).resolve_right notPending
    by_cases isCommitting : log.committing = true
    · exact Or.inl isCommitting
    · right
      simpa [Log.admits, isCommitting] using blocked

/-- Init logs a block and is about to commit; its child wants to begin an operation. -/
def beginDuringCommit : List (LogLabel 1) :=
  [dispatch 0 0, go 0 1, call 0 .fork 15, call 0 (.sub ⟨[(100, fun _ => 7)]⟩) 10, preempt 0,
    dispatch 0 1, go 0 1, call 0 (.sub ⟨[]⟩) 5].flatten

theorem commit_of_one_operation : ∃ trace state,
    Run logStep (boot 1 [1] (mounted 2 30 fun _ _ => 0)) trace state ∧
      state.owner .log = none ∧ state.shared.AsleepOn 1 .log ∧
      state.shared.sub.log.committing = true ∧ state.shared.sub.log.outstanding = 0 := by
  obtain ⟨trace, state, run, free, asleep, isCommitting⟩ :
      ∃ trace state, Run logStep (boot 1 [1] (mounted 2 30 fun _ _ => 0)) trace state ∧
      state.owner .log = none ∧ state.shared.AsleepOn 1 .log ∧
      state.shared.sub.log.committing = true :=
    exists_run beginDuringCommit (by decide +kernel)
  exact ⟨trace, state, run, free, asleep, isCommitting, (log_protocol run).2.1 isCommitting⟩

end Xv6
