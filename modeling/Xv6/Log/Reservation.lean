import Xv6.Log.Protocol

/-!
# Space in the log

`begin_op` reserves `MAXOPBLOCKS` blocks of `LOGSIZE` for each operation. But a log of
`LOGSIZE` blocks has its header in the first one, and `log_write` gives up when the other ones
are in use. So the reservation is enough for operations that log fewer blocks than
`MAXOPBLOCKS`, and not for those that use all of them.
-/

namespace Xv6

open Threads Transition Function

def LogEntry.blocks (entry : LogEntry) : Finset BlockNo := (entry.writes.map Prod.fst).toFinset

/-- Operations are called with a limited number of distinct blocks. -/
def logsAtMost {ncpu : ℕ} (limit : ℕ) (_ : LogMachine ncpu) : LogLabel ncpu → Prop
  | .call _ (.sub entry) => entry.blocks.card ≤ limit
  | _ => True

instance {ncpu : ℕ} (limit : ℕ) (state : LogMachine ncpu) (label : LogLabel ncpu) :
    Decidable (logsAtMost limit state label) :=
  match label with
  | .call _ (.sub entry) => inferInstanceAs (Decidable (entry.blocks.card ≤ limit))
  | .call _ .fork | .call _ .exit | .call _ .wait | .call _ (.kill _) | .call _ (.sysSleep _)
  | .call _ (.changeQueue _ _) | .call _ (.setBjfParamsProcess _ _)
  | .call _ (.setBjfParamsSystem _) | .call _ (.setBjfPriority _ _) | .call _ (.sleepOther _)
  | .call _ (.wakeupOther _) | .run _ _ | .intr _ _ => .isTrue trivial

def LogAct.block? : LogAct → Option BlockNo
  | .record b _ => some b
  | _ => none

def ahead (acts : List LogAct) : Finset BlockNo := (acts.filterMap LogAct.block?).toFinset

section Reserved

variable {ncpu : ℕ} {acts : Thread ncpu → List LogAct} {log : Log} {written : List BlockNo}
  {used : Slot → Finset BlockNo} {slot : Slot} {act : LogAct} {rest new : List LogAct}
  {thread : Thread ncpu}

/-- What a process has logged in its operation, with these acts left. -/
structure UsedBy (blocks : List BlockNo) (used : Finset BlockNo) (acts : List LogAct) : Prop where
  outside : ¬InOp acts → used = ∅
  logged : used ⊆ blocks.toFinset
  small : (used ∪ ahead acts).card < MAXOPBLOCKS

/-- What the operations have logged, and that there is room for what they may log. -/
structure Reserved (used : Slot → Finset BlockNo) (acts : Thread ncpu → List LogAct) (log : Log) :
    Prop where
  size : log.size = LOGSIZE
  slots : ∀ slot, UsedBy log.lh.blocks (used slot) (acts (.proc slot))
  empty : inOps acts = ∅ → log.committing = false → log.lh.n = 0
  room : (inOps acts).Nonempty →
    log.lh.n + ∑ slot ∈ inOps acts, (MAXOPBLOCKS - 1 - (used slot).card : ℕ) ≤ LOGSIZE - 2

theorem ahead_cons_subset : ahead rest ⊆ ahead (act :: rest) := by
  intro b mem
  simp only [ahead, List.mem_toFinset, List.mem_filterMap] at mem ⊢
  rcases mem with ⟨other, inRest, isBlock⟩
  exact ⟨other, List.mem_cons_of_mem _ inRest, isBlock⟩

namespace UsedBy

variable {blocks : List BlockNo} {now : Finset BlockNo}

theorem drop (usedBy : UsedBy blocks now (act :: rest)) (outside : ¬InOp rest → now = ∅) :
    UsedBy blocks now rest :=
  ⟨outside, usedBy.logged, (Finset.card_le_card
    (Finset.union_subset_union_right ahead_cons_subset)).trans_lt usedBy.small⟩

theorem update (others : ∀ slot, UsedBy blocks (used slot) (acts (.proc slot)))
    (mine : UsedBy blocks now new) (other : Slot) :
    UsedBy blocks (update used slot now other) (update acts (.proc slot) new (.proc other)) := by
  by_cases isSlot : other = slot
  · rw [isSlot, update_self, update_self]
    exact mine
  · rw [update_of_ne isSlot, update_of_ne (by simpa using isSlot)]
    exact others other

theorem keep (others : ∀ slot, UsedBy blocks (used slot) (acts (.proc slot)))
    (mine : UsedBy blocks (used slot) new) (other : Slot) :
    UsedBy blocks (used other) (Function.update acts (.proc slot) new (.proc other)) := by
  have after := @update _ _ _ slot _ _ _ others mine other
  rwa [update_eq_self] at after

end UsedBy

namespace Reserved

theorem goOn (reserved : Reserved used acts log) (inside : InOp new ↔ InOp (acts (.proc slot)))
    (usedBy : UsedBy log.lh.blocks (used slot) new) :
    Reserved used (update acts (.proc slot) new) log := by
  have same := inOps_update_of_iff inside
  refine ⟨reserved.size, .keep reserved.slots usedBy, ?_, ?_⟩
  · rw [same]
    exact reserved.empty
  · rw [same]
    exact reserved.room

theorem usedBy (reserved : Reserved used acts log) (before : acts (.proc slot) = new) :
    UsedBy log.lh.blocks (used slot) new := by
  rw [← before]
  exact reserved.slots slot

theorem drop (reserved : Reserved used acts log) (before : acts (.proc slot) = act :: rest)
    (inside : InOp rest ↔ InOp (acts (.proc slot))) :
    Reserved used (update acts (.proc slot) rest) log := by
  apply reserved.goOn inside
  apply (reserved.usedBy before).drop
  rw [inside]
  exact (reserved.slots slot).outside

theorem dirty (reserved : Reserved used acts log) (dirty : BlockNo → Option Block) :
    Reserved used acts { log with dirty } :=
  ⟨reserved.size, reserved.slots, reserved.empty, reserved.room⟩

theorem sum_le (used : Slot → Finset BlockNo) (slots : Finset Slot) :
    ∑ slot ∈ slots, (MAXOPBLOCKS - 1 - (used slot).card) ≤ slots.card * 9 := by
  rw [← smul_eq_mul]
  exact Finset.sum_le_card_nsmul _ _ _ fun slot _ => Nat.sub_le _ _

theorem letIn (reserved : Reserved used acts log) (inv : LogInv written acts log)
    (before : acts (.proc slot) = .beginLoop :: rest) (admitted : log.admits = true) :
    Reserved used (update acts (.proc slot) rest)
      { log with outstanding := log.outstanding + 1 } := by
  simp only [Log.admits, Bool.and_eq_true, Bool.not_eq_true', decide_eq_true_eq] at admitted
  rcases admitted with ⟨idle, fits⟩
  have notInside : ¬InOp (acts (.proc slot)) := by simp [InOp, before]
  have inside : InOp rest := by
    rcases inv.shape (.proc slot) with ⟨stage, shape⟩
    rw [before] at shape
    cases shape with
    | beginLoop later => exact later.inOp_iff.mpr rfl
    | write isWrite | commit isWrite => exact isWrite.elim
  have added : inOps (update acts (.proc slot) rest) = insert slot (inOps acts) := by
    rw [inOps_update, if_pos inside]
  have notMem : slot ∉ inOps acts := fun mem => notInside (mem_inOps.mp mem)
  have unused := (reserved.slots slot).outside notInside
  refine ⟨reserved.size, .keep reserved.slots ((reserved.usedBy before).drop fun _ => unused),
    ?_, ?_⟩
  · simp [added]
  · intro _
    rw [added, Finset.sum_insert notMem, unused, Finset.card_empty]
    have bound := sum_le used (inOps acts)
    have counted := inv.counted
    rcases (inOps acts).eq_empty_or_nonempty with none | some
    · have zero := reserved.empty none idle
      simp [none, zero]
    · have several := some.card_pos
      have nine : MAXOPBLOCKS - 1 - 0 = 9 := rfl
      rw [nine]
      simp only [LOGSIZE, MAXOPBLOCKS] at fits bound ⊢
      omega

theorem sum_insert (used : Slot → Finset BlockNo) (b : BlockNo) {slots : Finset Slot}
    (mem : slot ∈ slots) :
    ∑ other ∈ slots, (MAXOPBLOCKS - 1 -
        (update used slot (insert b (used slot)) other).card) +
      (MAXOPBLOCKS - 1 - (used slot).card) =
    ∑ other ∈ slots, (MAXOPBLOCKS - 1 - (used other).card) +
      (MAXOPBLOCKS - 1 - (insert b (used slot)).card) := by
  have others : ∑ other ∈ slots.erase slot, (MAXOPBLOCKS - 1 -
      (update used slot (insert b (used slot)) other).card) =
      ∑ other ∈ slots.erase slot, (MAXOPBLOCKS - 1 - (used other).card) := by
    apply Finset.sum_congr rfl
    intro other isOther
    rw [update_of_ne (Finset.ne_of_mem_erase isOther)]
  rw [← Finset.add_sum_erase slots _ mem, others, ← Finset.add_sum_erase slots _ mem,
    update_self]
  omega

theorem record {b : BlockNo} {data : Block} (reserved : Reserved used acts log)
    (inv : LogInv written acts log) (before : acts (.proc slot) = .record b data :: rest) :
    Reserved (update used slot (insert b (used slot)))
      (update acts (.proc slot) rest) (logWriteRecord log b data) := by
  rcases inv.inWrite before trivial with ⟨shape, later⟩
  have inside := shape.inOp_iff.mpr rfl
  have stays := later.inOp_iff.mpr rfl
  have same : inOps (update acts (.proc slot) rest) = inOps acts :=
    inOps_update_of_iff ⟨fun _ => inside, fun _ => stays⟩
  have mem : slot ∈ inOps acts := mem_inOps.mpr inside
  have subset : insert b (used slot) ∪ ahead rest ⊆ used slot ∪ ahead (acts (.proc slot)) := by
    rw [before]
    intro other inNew
    simp only [ahead, Finset.mem_union, Finset.mem_insert, List.filterMap_cons, LogAct.block?,
      List.toFinset_cons] at inNew ⊢
    tauto
  have fewer : (insert b (used slot)).card < MAXOPBLOCKS :=
    (Finset.card_le_card (Finset.subset_union_left.trans subset)).trans_lt
      (reserved.slots slot).small
  have inLog : insert b log.lh.blocks.toFinset ⊆ (logWriteRecord log b data).lh.blocks.toFinset := by
    intro block mem
    rw [List.mem_toFinset, mem_logWriteRecord inv.nonneg]
    simpa using mem
  refine ⟨reserved.size, .update ?_ ⟨fun outside => absurd stays outside, ?_, ?_⟩, ?_, ?_⟩
  · intro other
    have usedBy := reserved.slots other
    refine ⟨usedBy.outside, usedBy.logged.trans ?_, usedBy.small⟩
    exact (Finset.subset_insert b _).trans inLog
  · exact (Finset.insert_subset_insert b (reserved.slots slot).logged).trans inLog
  · exact (Finset.card_le_card subset).trans_lt (reserved.slots slot).small
  · rw [same]
    intro none
    simp [none] at mem
  · intro _
    rw [same]
    have room := reserved.room ⟨slot, mem⟩
    have moved := sum_insert used b mem
    have ten : MAXOPBLOCKS = 10 := rfl
    by_cases old : b ∈ used slot
    · have logged := List.mem_toFinset.mp ((reserved.slots slot).logged old)
      rw [Finset.insert_eq_of_mem old] at moved ⊢
      rw [n_logWriteRecord, if_pos logged]
      omega
    · rw [Finset.card_insert_of_notMem old] at moved fewer
      have counted : (logWriteRecord log b data).lh.n ≤ log.lh.n + 1 := by
        rw [n_logWriteRecord]
        split <;> omega
      omega

theorem ended (reserved : Reserved used acts log) (inv : LogInv written acts log)
    (before : acts (.proc slot) = .endBody :: rest) (outside : ¬InOp new) (nothing : ahead new = ∅)
    {after : Log} (size : after.size = log.size) (header : after.lh = log.lh)
    (last : inOps (update acts (.proc slot) new) = ∅ → after.committing = false →
      after.lh.n = 0) :
    Reserved (update used slot ∅) (update acts (.proc slot) new) after := by
  have inside := (inv.inOps_endBody before outside).2.1
  have removed : inOps (update acts (.proc slot) new) = (inOps acts).erase slot := by
    rw [inOps_update, if_neg outside]
  refine ⟨size.trans reserved.size, ?_, last, ?_⟩
  · rw [header]
    exact .update reserved.slots ⟨fun _ => rfl, Finset.empty_subset _, by simp [nothing]⟩
  · intro _
    have room := reserved.room ⟨slot, mem_inOps.mpr inside⟩
    rw [← Finset.add_sum_erase _ _ (mem_inOps.mpr inside)] at room
    have others : ∑ other ∈ (inOps acts).erase slot,
        (MAXOPBLOCKS - 1 - (update used slot ∅ other).card) =
        ∑ other ∈ (inOps acts).erase slot, (MAXOPBLOCKS - 1 - (used other).card) := by
      apply Finset.sum_congr rfl
      intro other isOther
      rw [update_of_ne (Finset.ne_of_mem_erase isOther)]
    rw [removed, header, others]
    omega

theorem ahead_of_committing (shape : LogShape .committing new) : ahead new = ∅ := by
  generalize stageIs : LogStage.committing = stage at shape
  induction shape with
  | endCommit => rfl
  | @commit act rest isCommit later ih =>
      cases act with
      | commit | writeLog | writeHead | installTrans | clearHead => exact ih stageIs
      | _ => exact isCommit.elim
  | _ => simp at stageIs

theorem committed (reserved : Reserved used acts log) (inv : LogInv written acts log)
    (before : acts (.proc slot) = act :: rest) (isCommit : act.IsCommit) {more : List LogAct}
    (parts : ∀ part ∈ more, part.IsCommit) :
    Reserved used (update acts (.proc slot) (more ++ rest)) log := by
  rcases inv.inCommit before isCommit with ⟨shape, later⟩
  have longer := later.append_commits parts
  have notInside : ¬InOp (acts (.proc slot)) := by simp [shape.inOp_iff]
  have unused := (reserved.slots slot).outside notInside
  apply reserved.goOn
  · rw [longer.inOp_iff, shape.inOp_iff]
  · exact ⟨fun _ => unused, by simp [unused], by simp [unused, ahead_of_committing longer]⟩

theorem clearHead (reserved : Reserved used acts log) (inv : LogInv written acts log)
    (before : acts (.proc slot) = .clearHead :: rest) :
    Reserved used (update acts (.proc slot) rest) log.clearHead := by
  have isCommitting := inv.committing_of_clearHead before
  have none : inOps acts = ∅ := by
    have zero := inv.alone isCommitting
    rw [inv.counted] at zero
    exact Finset.card_eq_zero.mp (by exact_mod_cast zero)
  have emptied : Reserved used acts log.clearHead := by
    refine ⟨reserved.size, fun slot => ?_, fun _ _ => rfl, by simp [none]⟩
    have usedBy := reserved.slots slot
    have unused := usedBy.outside (by simp [← mem_inOps, none])
    exact ⟨usedBy.outside, by simp [unused], usedBy.small⟩
  have parts : ∀ part ∈ ([] : List LogAct), part.IsCommit := by simp
  exact emptied.committed (inv.emptied isCommitting) before trivial parts

theorem wroteDisk {program : Log → BlockM Log} {mount : Mount}
    (reserved : Reserved used acts mount.log) (inv : LogInv written acts mount.log)
    (before : acts (.proc slot) = act :: rest) (isCommit : act.IsCommit)
    (onlyDirty : ∃ dirty, (mount.run program).log = { mount.log with dirty }) :
    Reserved used (update acts (.proc slot) rest) (mount.run program).log := by
  rcases onlyDirty with ⟨dirty, logIs⟩
  have parts : ∀ part ∈ ([] : List LogAct), part.IsCommit := by simp
  rw [logIs]
  exact (reserved.committed inv before isCommit parts).dirty dirty

theorem endCommit (reserved : Reserved used acts log) (inv : LogInv written acts log)
    (before : acts (.proc slot) = .endCommit :: rest) :
    Reserved used (update acts (.proc slot) rest) { log with committing := false } := by
  have restIs : rest = [] := by
    rcases inv.shape (.proc slot) with ⟨stage, shape⟩
    rw [before] at shape
    cases shape with
    | endCommit => rfl
    | write isWrite _ => exact isWrite.elim
    | commit isCommit _ => exact isCommit.elim
  subst restIs
  have zero : log.lh.n = 0 :=
    inv.cleared (.proc slot) (by simp [before]) (by simp [before]) (by simp [before])
  have after := reserved.drop before (by simp [InOp, before])
  exact ⟨after.size, after.slots, fun _ _ => zero, after.room⟩

theorem exec {mount next : Mount} {code : LogCode} (reserved : Reserved used acts mount.log)
    (inv : LogInv written acts mount.log) (before : acts thread = act :: rest)
    (execs : mount.Execs act next code) :
    ∃ used, Reserved used (update acts thread (subActs code ++ rest)) next.log := by
  rcases inv.exists_proc before with ⟨slot, rfl⟩
  have noParts : ∀ part ∈ ([] : List LogAct), part.IsCommit := by simp
  cases execs with
  | letIn admitted => exact ⟨used, reserved.letIn inv before admitted⟩
  | wait blocked =>
      have same : subActs (sleep .log .log ++ [logAct .beginLoop]) ++ rest = acts (.proc slot) := by
        rw [before, subActs_append, subActs_sleep]
        rfl
      rw [same, update_eq_self]
      exact ⟨used, reserved⟩
  | check checked =>
      rcases inv.inWrite before trivial with ⟨shape, later⟩
      have same : InOp rest ↔ InOp (acts (.proc slot)) := by rw [later.inOp_iff, shape.inOp_iff]
      exact ⟨used, reserved.drop before same⟩
  | record bound => exact ⟨_, reserved.record inv before⟩
  | last idle single =>
      have outside : ¬InOp [.commit, .endCommit] := by simp [InOp]
      rcases inv.inOps_endBody before outside with ⟨rfl, _, _⟩
      exact ⟨_, reserved.ended inv before outside rfl rfl rfl (by simp)⟩
  | leave idle several =>
      have outside : ¬InOp [] := by simp [InOp]
      rcases inv.inOps_endBody before outside with ⟨rfl, _, counted⟩
      refine ⟨_, reserved.ended inv before outside rfl rfl rfl ?_⟩
      intro none
      rw [none] at counted
      exact absurd counted several
  | commit some_ =>
      refine ⟨used, reserved.committed inv before trivial ?_⟩
      simp [commitCode, subActs, subAct?, LogAct.IsCommit]
  | empty none_ => exact ⟨used, reserved.committed inv before trivial noParts⟩
  | writeLog | installTrans =>
      exact ⟨used, reserved.wroteDisk inv before trivial exists_dirty_copyLoop⟩
  | writeHead => exact ⟨used, reserved.wroteDisk inv before trivial ⟨_, result_writeHead⟩⟩
  | clearHead => exact ⟨used, reserved.clearHead inv before⟩
  | endCommit => exact ⟨used, reserved.endCommit inv before⟩

end Reserved

end Reserved

section Machine

variable {ncpu : ℕ} {state next : LogMachine ncpu} {label : LogLabel ncpu}
  {trace : Trace (LogMachine ncpu) (LogLabel ncpu)} {used : Slot → Finset BlockNo}
  {written : List BlockNo}

theorem ahead_opCode (entry : LogEntry) : ahead (subActs (opCode entry.writes)) = entry.blocks := by
  have blocks : (subActs (opCode entry.writes)).filterMap LogAct.block? =
      entry.writes.map Prod.fst := by
    rw [subActs_opCode, List.cons_append, List.filterMap_cons_none rfl, List.filterMap_append]
    induction entry.writes with
    | nil => rfl
    | cons write writes ih => exact congrArg (write.1 :: ·) ih
  rw [ahead, blocks, LogEntry.blocks]

theorem Reserved.step (reserved : Reserved used (logActs state) state.shared.sub.log)
    (inv : LogInv written (logActs state) state.shared.sub.log)
    (limited : logsAtMost (MAXOPBLOCKS - 1) state label)
    (moves : SubMoves logging state next label) :
    ∃ used, Reserved used (logActs next) next.shared.sub.log := by
  cases moves with
  | still noAct shared keep =>
      rw [shared, show logActs next = logActs state from funext keep]
      exact ⟨used, reserved⟩
  | @call cpu slot entry onCpu shared idle started others =>
      rw [logActs_update started others, shared]
      have outside : ¬InOp (logActs state (.proc slot)) := by simp [logActs, idle, InOp]
      have unused := (reserved.slots slot).outside outside
      refine ⟨used, reserved.goOn ?_ ⟨fun _ => unused, by simp [unused], ?_⟩⟩
      · simp [outside, (logShape_opCode entry.writes).inOp_iff, logging]
      · rw [unused, Finset.empty_union]
        exact (congrArg Finset.card (ahead_opCode entry)).trans_lt (Nat.lt_succ_of_le limited)
  | @intr cpu intr shared started others => exact intr.elim
  | @act cpu choice act rest result head ran shared before after others =>
      rcases logging_exec ran with ⟨mount, code, rfl, execs⟩
      rw [logActs_update after others, shared]
      exact reserved.exec inv before execs

theorem reserved_boot {freePages : List ℕ} {logstart : BlockNo} {image : DiskImage} :
    Reserved (fun _ => ∅) (logActs (boot ncpu freePages (mounted logstart LOGSIZE image)))
      (mounted logstart LOGSIZE image).log := by
  rcases mounted_fresh logstart LOGSIZE image with ⟨size, zero, _⟩
  have none : ∀ thread, logActs (boot ncpu freePages (mounted logstart LOGSIZE image)) thread = [] :=
    subActs_boot
  refine ⟨size, fun slot => ⟨fun _ => rfl, Finset.empty_subset _, ?_⟩, fun _ _ => zero, ?_⟩
  · rw [none]
    decide
  · rintro ⟨slot, mem⟩
    rw [mem_inOps, none] at mem
    simp [InOp] at mem

section Small

variable {freePages : List ℕ} {logstart : BlockNo} {image : DiskImage}
  (run : Run logStep (boot ncpu freePages (mounted logstart LOGSIZE image)) trace state)
  (limited : Trace.All (logsAtMost (MAXOPBLOCKS - 1)) trace)

include run limited

theorem checked_of_run {cpu : Fin ncpu} {act : LogAct} {rest : LogCode}
    (head : state.running cpu = logAct act :: rest) (isWrite : act.IsWrite) :
    logWriteCheck state.shared.sub.log = .ok () := by
  have inv : LogRunInv trace state ∧
      ∃ used, Reserved used (logActs state) state.shared.sub.log := by
    refine Run.invariant (fun trace state => LogRunInv trace state ∧
        ∃ used, Reserved used (logActs state) state.shared.sub.log)
      ⟨⟨lifeInv_boot, logInv_boot, WaitRule.NoneLost.noneLost_boot, WaitRule.underLock_boot⟩,
        _, reserved_boot⟩ ?_ run limited
    rintro trace state label next ⟨inv, used, reserved⟩ _ limitedStep stepped
    exact ⟨inv.step stepped,
      reserved.step inv.protocol limitedStep (inv.life.subMoves stepped)⟩
  rcases inv with ⟨inv, used, reserved⟩
  have before := logActs_cur head
  rcases inv.protocol.exists_proc before with ⟨slot, onCpu⟩
  rw [onCpu] at before
  have inside := mem_inOps.mpr ((inv.protocol.inWrite before isWrite).1.inOp_iff.mpr rfl)
  have room := reserved.room ⟨slot, inside⟩
  have counted := inv.protocol.counted
  have positive := Finset.card_pos.mpr ⟨slot, inside⟩
  have notFull : ¬(state.shared.sub.log.lh.n ≥ LOGSIZE ∨
      state.shared.sub.log.lh.n ≥ state.shared.sub.log.size - 1) := by
    rw [reserved.size]
    simp only [LOGSIZE, MAXOPBLOCKS] at room ⊢
    omega
  rw [logWriteCheck, if_neg notFull, if_neg (by omega)]

end Small

end Machine

/-- Operations that log fewer than `MAXOPBLOCKS` blocks never fill a log of `LOGSIZE` blocks. -/
theorem small_transactions_fit {ncpu : ℕ} {freePages : List ℕ} {logstart : BlockNo}
    {image : DiskImage} {trace : Trace (LogMachine ncpu) (LogLabel ncpu)} {state : LogMachine ncpu}
    (run : Run logStep (boot ncpu freePages (mounted logstart LOGSIZE image)) trace state)
    (limited : Trace.All (logsAtMost (MAXOPBLOCKS - 1)) trace) {cpu : Fin ncpu} {rest : LogCode}
    (head : state.running cpu = logAct .check :: rest) :
    logWriteCheck state.shared.sub.log ≠ .error "too big a transaction" := by
  rw [checked_of_run run limited head trivial]
  simp

def logsBlocks (first count : ℕ) : LogEntry where
  writes := (List.range count).map fun i => (BitVec.ofNat 32 (first + i), fun _ => 0)

/-- Init logs some blocks; its child begins an operation, init ends its own, begins another one and logs as
many blocks again; the child comes to its last block. -/
def threeTransactions (count : ℕ) : List (LogLabel 1) :=
  [dispatch 0 0, go 0 1, call 0 .fork 15, call 0 (.sub (logsBlocks 100 count)) (3 + 4 * count), preempt 0,
    dispatch 0 1, go 0 1, call 0 (.sub (logsBlocks 200 count)) 3, preempt 0,
    dispatch 0 0, go 0 8, call 0 (.sub (logsBlocks 300 count)) (3 + 4 * count), preempt 0,
    dispatch 0 1, go 0 (4 * count - 2)].flatten

/-- With nine blocks each there is room for the last one: 26 are in the log, and two operations are not
finished. -/
theorem ninth_block_fits : ∃ trace state,
    Run logStep (boot 1 [1] (mounted 2 LOGSIZE fun _ _ => 0)) trace state ∧
      state.shared.sub.log.lh.n = 26 ∧ state.shared.sub.log.outstanding = 2 ∧
      logWriteCheck state.shared.sub.log ≠ .error "too big a transaction" := by
  obtain ⟨trace, state, run, limited, isCount, two, rest, head⟩ :
      ∃ trace state, Run logStep (boot 1 [1] (mounted 2 LOGSIZE fun _ _ => 0)) trace state ∧
      Trace.All (logsAtMost (MAXOPBLOCKS - 1)) trace ∧ state.shared.sub.log.lh.n = 26 ∧
      state.shared.sub.log.outstanding = 2 ∧ ∃ rest, state.running 0 = logAct .check :: rest :=
    exists_run (threeTransactions 9) (by decide +kernel)
  exact ⟨trace, state, run, isCount, two, small_transactions_fit run limited head⟩

/-- With ten blocks each there is none. -/
theorem full_transactions_panic : ∃ trace state rest,
    Run logStep (boot 1 [1] (mounted 2 LOGSIZE fun _ _ => 0)) trace state ∧
      Trace.All (logsAtMost MAXOPBLOCKS) trace ∧ state.running 0 = logAct .check :: rest ∧
      logWriteCheck state.shared.sub.log = .error "too big a transaction" := by
  obtain ⟨trace, state, run, limited, full, size, rest, head⟩ :
      ∃ trace state, Run logStep (boot 1 [1] (mounted 2 LOGSIZE fun _ _ => 0)) trace state ∧
      Trace.All (logsAtMost MAXOPBLOCKS) trace ∧ state.shared.sub.log.lh.n = 29 ∧
      state.shared.sub.log.size = 30 ∧ ∃ rest, state.running 0 = logAct .check :: rest :=
    exists_run (threeTransactions 10) (by decide +kernel)
  refine ⟨trace, state, rest, run, limited, head, ?_⟩
  simp [logWriteCheck, full, size]

end Xv6
