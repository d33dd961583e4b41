import Xv6.Lib.RedoLog
import Xv6.Lib.Run
import Xv6.Log.Model

/-!
# Crashes during a commit

A commit writes the log, then the header, then the home locations, then the header again.
A crash cuts this off between two writes. The log as a `RedoLog.Format` says what a disk
stands for; every write of a commit but the first header leaves that as it is.
-/

namespace Xv6

open Disk RedoLog Transition Function

variable {log : Log} {disk : DiskImage} {b : BlockNo} {data : Block} {lh : LogHeader}

namespace Block

theorem header_setHeader_n {block : Block} (nonneg : 0 ≤ lh.n) (fits : lh.n ≤ LOGSIZE) :
    (block.setHeader lh).header.n = lh.n := by
  have first : (block.setHeader lh).word 0 = BitVec.ofInt 32 lh.n := rfl
  simp only [header, first]
  simp only [LOGSIZE, MAXOPBLOCKS] at fits
  rw [BitVec.toInt_ofInt]
  apply Int.bmod_eq_of_le <;> omega

theorem header_setHeader_block {block : Block} {i : ℕ} (fits : lh.n ≤ LOGSIZE)
    (inUse : i < lh.n.toNat) : (block.setHeader lh).header.block i = lh.block i := by
  simp only [LOGSIZE, MAXOPBLOCKS] at fits
  have bound : i + 1 < BSIZE / 4 := by
    simp only [BSIZE]
    omega
  have used : i + 1 ≤ lh.n.toNat := inUse
  simp only [header, word, setHeader, dif_pos bound, used, if_true]
  simp

end Block

/-! ## What the programs write -/

def Log.view (log : Log) (disk : DiskImage) : DiskImage := fun b => (log.dirty b).getD (disk b)

/-- The log after some buffers were written out. -/
def Log.clean (log : Log) (blocks : List BlockNo) : Log :=
  { log with dirty := fun b => if b ∈ blocks then none else log.dirty b }

@[simp]
theorem Log.start_clean {blocks : List BlockNo} : (log.clean blocks).start = log.start := rfl

@[simp]
theorem Log.lh_clean {blocks : List BlockNo} : (log.clean blocks).lh = log.lh := rfl

@[simp]
theorem writes_bread : (bread log b).writes disk = [] := by
  unfold bread
  split <;> rfl

@[simp]
theorem result_bread : (bread log b).result disk = log.view disk b := by
  unfold bread Log.view
  split
  · next dirty => simp [dirty]
  · next clean => simp [clean, Program.result]

@[simp]
theorem final_bread : (bread log b).final disk = disk := by
  rw [Program.final, writes_bread, store_nil]

theorem Log.clean_nil : log.clean [] = log := by simp [Log.clean]

theorem Log.clean_clean {first second : List BlockNo} :
    (log.clean first).clean second = log.clean (first ++ second) := by
  simp only [Log.clean, List.mem_append]
  congr 1
  funext b
  split_ifs <;> simp_all

@[simp]
theorem writes_bwrite : (bwrite log b data).writes disk = [(b, data)] := rfl

@[simp]
theorem result_bwrite : (bwrite log b data).result disk = log.clean [b] := by
  simp only [bwrite, Program.result, Log.clean, List.mem_singleton]
  congr 1
  funext other
  by_cases same : other = b <;> simp [same]

@[simp]
theorem final_bwrite : (bwrite log b data).final disk = update disk b data := rfl

theorem Log.view_clean : (log.clean [b]).view (update disk b data) =
    update (log.view disk) b data := by
  funext other
  by_cases same : other = b
  · subst same
    simp [Log.view, Log.clean]
  · simp [Log.view, Log.clean, same]

@[simp]
theorem writes_copyBlock {source target : BlockNo} :
    (copyBlock source target log).writes disk = [(target, log.view disk source)] := by
  simp [copyBlock]

@[simp]
theorem result_copyBlock {source target : BlockNo} :
    (copyBlock source target log).result disk = log.clean [target] := by
  simp [copyBlock]

@[simp]
theorem final_copyBlock {source target : BlockNo} : (copyBlock source target log).final disk =
    update disk target (log.view disk source) := by
  simp [copyBlock]

theorem copyRounds {source target : ℕ → BlockNo} {tails : List ℕ}
    (apart : ∀ tail ∈ tails, ∀ other ∈ tails, source tail ≠ target other) :
    let rounds := tails.foldlM (fun log tail => copyBlock (source tail) (target tail) log) log
    rounds.writes disk = tails.map (fun tail => (target tail, log.view disk (source tail))) ∧
      rounds.result disk = log.clean (tails.map target) := by
  induction tails generalizing log disk with
  | nil => exact ⟨rfl, Log.clean_nil.symm⟩
  | cons tail tails ih =>
      have apartRest : ∀ tail ∈ tails, ∀ other ∈ tails, source tail ≠ target other :=
        fun tail mem other otherMem =>
          apart tail (List.mem_cons_of_mem _ mem) other (List.mem_cons_of_mem _ otherMem)
      have unchanged : ∀ later ∈ tails, ∀ data,
          update (log.view disk) (target tail) data (source later) =
            log.view disk (source later) := by
        intro later mem data
        apply update_of_ne
        exact apart later (List.mem_cons_of_mem _ mem) tail List.mem_cons_self
      rcases @ih (log.clean [target tail])
        (update disk (target tail) (log.view disk (source tail))) apartRest
        with ⟨writes, result⟩
      constructor
      · simp only [List.foldlM_cons, Program.writes_bind, writes_copyBlock, result_copyBlock,
          final_copyBlock, writes, List.map_cons, List.singleton_append, List.cons.injEq, true_and]
        apply List.map_congr_left
        intro later mem
        rw [Log.view_clean, unchanged later mem]
      · simp only [List.foldlM_cons, Program.result_bind, result_copyBlock, final_copyBlock, result,
          List.map_cons]
        rw [Log.clean_clean, List.singleton_append]

/-! ## The log as a format -/

/-- The blocks of the log: the header and the entries. -/
def logArea (start : BlockNo) (size : ℤ) : Set BlockNo :=
  { b | ∃ i : ℕ, i < size ∧ b = start + BitVec.ofNat 32 i }

/-- The header names home locations outside the log, not more than there are entries. -/
structure ValidHeader (start : BlockNo) (size : ℤ) (lh : LogHeader) : Prop where
  positive : 0 < size
  fits : lh.n ≤ LOGSIZE
  inLog : lh.n < size
  outside : ∀ i < lh.n.toNat, lh.block i ∉ logArea start size

def redoWrites (start : BlockNo) (lh : LogHeader) (disk : DiskImage) : List (BlockNo × Block) :=
  (List.range lh.n.toNat).map fun tail => (lh.block tail, disk (logBlock start tail))

variable {start : BlockNo} {size : ℤ}

theorem start_mem_logArea (positive : 0 < size) : start ∈ logArea start size :=
  ⟨0, by exact_mod_cast positive, by simp⟩

theorem logBlock_mem_logArea {tail : ℕ} (inLog : (tail : ℤ) + 1 < size) :
    logBlock start tail ∈ logArea start size := by
  refine ⟨tail + 1, by exact_mod_cast inLog, ?_⟩
  rw [logBlock, BitVec.add_assoc]
  congr 1
  bv_omega

namespace ValidHeader

theorem logBlock_mem (valid : ValidHeader start size lh) {tail : ℕ} (inUse : tail < lh.n.toNat) :
    logBlock start tail ∈ logArea start size := by
  apply logBlock_mem_logArea
  have := valid.inLog
  omega

theorem logBlock_ne_start (valid : ValidHeader start size lh) {tail : ℕ}
    (inUse : tail < lh.n.toNat) : logBlock start tail ≠ start := by
  have small : tail < 30 := by
    have := valid.fits
    simp only [LOGSIZE, MAXOPBLOCKS] at this
    omega
  intro same
  have zero : BitVec.ofNat 32 tail + 1 = 0#32 := by
    rw [logBlock, BitVec.add_assoc] at same
    simpa using same
  bv_omega

theorem logBlock_inj (valid : ValidHeader start size lh) {tail other : ℕ}
    (inUse : tail < lh.n.toNat) (otherInUse : other < lh.n.toNat)
    (same : logBlock start tail = logBlock start other) : tail = other := by
  have := valid.fits
  simp only [LOGSIZE, MAXOPBLOCKS] at this
  have smallTail : tail < 30 := by omega
  have smallOther : other < 30 := by omega
  simp only [logBlock] at same
  bv_omega

end ValidHeader

def logFormat (start : BlockNo) (size : ℤ) : Format BlockNo Block where
  area := logArea start size
  Valid disk := ValidHeader start size (disk start).header
  redo disk := redoWrites start (disk start).header disk
  valid_congr := by
    intro disk other agree valid
    rw [agree start (start_mem_logArea valid.positive)]
    exact valid
  redo_congr := by
    intro disk other agree valid
    rw [agree start (start_mem_logArea valid.positive)]
    apply List.map_congr_left
    intro tail mem
    rw [agree _ (valid.logBlock_mem (List.mem_range.mp mem))]
  redo_outside := by
    intro disk valid write mem
    rcases List.mem_map.mp mem with ⟨tail, tailMem, rfl⟩
    exact valid.outside tail (List.mem_range.mp tailMem)

theorem redo_of_zero (zero : (disk start).header.n = 0) : (logFormat start size).redo disk = [] := by
  show redoWrites start (disk start).header disk = []
  rw [redoWrites, zero]
  rfl

theorem valid_of_zero (positive : 0 < size) (zero : lh.n = 0) : ValidHeader start size lh where
  positive := positive
  fits := by
    rw [zero]
    decide
  inLog := by
    rw [zero]
    exact positive
  outside := by
    rw [zero]
    simp

/-! ## Installing and clearing

What recovery writes, and a commit after its first header: the entries to their home
locations, then a header without entries. -/

/-- The writes that install the log on a disk and clear it. -/
def clearWrites (start : BlockNo) (disk : DiskImage) (lh : LogHeader) : List (BlockNo × Block) :=
  redoWrites start (disk start).header disk ++ [(start, (disk start).setHeader lh)]

theorem clearWrites_header (zero : lh.n = 0) :
    (store disk (clearWrites start disk lh) start).header.n = 0 := by
  rw [clearWrites, store_append, store_cons, store_nil, update_self,
    Block.header_setHeader_n (by omega) (by rw [zero]; decide), zero]

theorem clearWrites_redo (zero : lh.n = 0) :
    (logFormat start size).redo (store disk (clearWrites start disk lh)) = [] :=
  redo_of_zero (clearWrites_header zero)

theorem clearWrites_same (valid : (logFormat start size).Valid disk) (zero : lh.n = 0) :
    (logFormat start size).Same (store disk (clearWrites start disk lh)) disk := by
  intro addr outside
  have notStart : addr ≠ start := by
    intro same
    exact outside (same ▸ start_mem_logArea valid.positive)
  rw [Format.contents_of_clear (clearWrites_redo zero), clearWrites, store_append, store_cons,
    store_nil, update_of_ne notStart]
  rfl

theorem clearWrites_take (count : ℕ) :
    (∀ write ∈ (clearWrites start disk lh).take count,
      write ∈ (logFormat start size).redo disk) ∨
    (clearWrites start disk lh).take count = clearWrites start disk lh := by
  by_cases short : count ≤ (redoWrites start (disk start).header disk).length
  · left
    rw [clearWrites, List.take_append_of_le_length short]
    intro write mem
    exact List.mem_of_mem_take mem
  · right
    apply List.take_of_length_le
    rw [clearWrites, List.length_append, List.length_singleton]
    omega

theorem clearWrites_crash (valid : (logFormat start size).Valid disk) (zero : lh.n = 0)
    (count : ℕ) :
    (logFormat start size).Valid (store disk ((clearWrites start disk lh).take count)) ∧
      (logFormat start size).Same (store disk ((clearWrites start disk lh).take count)) disk := by
  rcases clearWrites_take count with redone | whole
  · refine ⟨(valid.store_redo redone).1, ?_⟩
    intro addr _
    rw [valid.contents_store_redo redone]
  · rw [whole]
    exact ⟨valid_of_zero valid.positive (clearWrites_header zero),
      clearWrites_same valid zero⟩

theorem writes_installTrans (valid : ValidHeader log.start size log.lh) :
    (installTrans log).writes disk = (List.range log.lh.n.toNat).map
        (fun tail => (log.lh.block tail, log.view disk (logBlock log.start tail))) ∧
      (installTrans log).result disk =
        log.clean ((List.range log.lh.n.toNat).map log.lh.block) := by
  apply copyRounds
  intro tail mem other otherMem same
  apply valid.outside other (List.mem_range.mp otherMem)
  exact same ▸ valid.logBlock_mem (List.mem_range.mp mem)

theorem writes_writeLog (valid : ValidHeader log.start size log.lh) :
    (writeLog log).writes disk = (List.range log.lh.n.toNat).map
        (fun tail => (logBlock log.start tail, log.view disk (log.lh.block tail))) ∧
      (writeLog log).result disk =
        log.clean ((List.range log.lh.n.toNat).map (logBlock log.start)) := by
  apply copyRounds
  intro tail mem other otherMem same
  apply valid.outside tail (List.mem_range.mp mem)
  exact same ▸ valid.logBlock_mem (List.mem_range.mp otherMem)

@[simp]
theorem writes_writeHead : (writeHead log).writes disk =
    [(log.start, (log.view disk log.start).setHeader log.lh)] := by
  simp [writeHead]

@[simp]
theorem result_writeHead : (writeHead log).result disk = log.clean [log.start] := by
  simp [writeHead]

theorem Log.view_of_clean (clean : log.dirty b = none) : log.view disk b = disk b := by
  rw [Log.view, clean, Option.getD_none]

theorem Log.dirty_clean {blocks : List BlockNo} (clean : log.dirty b = none) :
    (log.clean blocks).dirty b = none := by
  simp [Log.clean, clean]

/-- Memory and disk agree on the log: the disk has the header, the entries are not in dirty
buffers. -/
structure Log.OnDisk (log : Log) (size : ℤ) (disk : DiskImage) : Prop where
  valid : ValidHeader log.start size log.lh
  count : (disk log.start).header.n = log.lh.n
  blocks : ∀ i < log.lh.n.toNat, (disk log.start).header.block i = log.lh.block i
  clean : ∀ b ∈ logArea log.start size, log.dirty b = none

namespace Log.OnDisk

variable (onDisk : log.OnDisk size disk)
include onDisk

theorem validDisk : (logFormat log.start size).Valid disk where
  positive := onDisk.valid.positive
  fits := onDisk.count ▸ onDisk.valid.fits
  inLog := onDisk.count ▸ onDisk.valid.inLog
  outside := by
    intro i inUse
    rw [onDisk.count] at inUse
    rw [onDisk.blocks i inUse]
    exact onDisk.valid.outside i inUse

theorem writes_installTrans : (installTrans log).writes disk =
    redoWrites log.start (disk log.start).header disk := by
  rw [(Xv6.writes_installTrans onDisk.valid).1, redoWrites, onDisk.count]
  apply List.map_congr_left
  intro tail mem
  have inUse : tail < log.lh.n.toNat := List.mem_range.mp mem
  rw [onDisk.blocks tail inUse,
    Log.view_of_clean (onDisk.clean _ (onDisk.valid.logBlock_mem inUse))]

theorem writes_clear : (installTrans log >>= fun log => writeHead log.clearHead).writes disk =
    clearWrites log.start disk log.clearHead.lh := by
  rw [Program.writes_bind, onDisk.writes_installTrans, Program.final, onDisk.writes_installTrans,
    (Xv6.writes_installTrans onDisk.valid).2, writes_writeHead, clearWrites]
  have inArea : log.start ∈ logArea log.start size := start_mem_logArea onDisk.valid.positive
  have kept : store disk (redoWrites log.start (disk log.start).header disk) log.start =
      disk log.start :=
    Format.store_agree_area ((logFormat log.start size).redo_outside onDisk.validDisk) _ inArea
  have dirty : ((log.clean ((List.range log.lh.n.toNat).map log.lh.block)).clearHead).dirty
      log.start = none := Log.dirty_clean (onDisk.clean _ inArea)
  have view : ((log.clean ((List.range log.lh.n.toNat).map log.lh.block)).clearHead).view
      (store disk (redoWrites log.start (disk log.start).header disk)) log.start =
        disk log.start := by
    rw [Log.view_of_clean dirty, kept]
  exact congrArg (fun block => _ ++ [(log.start, Block.setHeader block log.clearHead.lh)]) view

theorem result_clear :
    (installTrans log >>= fun log => writeHead log.clearHead).result disk =
      (log.clean ((List.range log.lh.n.toNat).map log.lh.block ++ [log.start])).clearHead := by
  rw [Program.result_bind, (Xv6.writes_installTrans onDisk.valid).2, result_writeHead,
    ← Log.clean_clean]
  rfl

end Log.OnDisk

/-! ## Recovery -/

variable {nlog : ℤ}

theorem readHead_onDisk (valid : (logFormat start nlog).Valid disk) :
    ((readHead (initlog start nlog)).result disk).OnDisk nlog disk := by
  have read : ((initlog start nlog).view disk start) = disk start := rfl
  have blocks : ∀ i < (disk start).header.n.toNat, (disk start).header.block i =
      if i < (disk start).header.n.toNat then (disk start).header.block i else 0 := by
    intro i inUse
    rw [if_pos inUse]
  simp only [readHead, Program.result_bind, result_bread, Program.result_pure]
  constructor
  · refine ⟨valid.positive, valid.fits, valid.inLog, ?_⟩
    intro i inUse
    have outside := valid.outside i inUse
    rw [blocks i inUse] at outside
    exact outside
  · rfl
  · exact blocks
  · intro b _
    rfl

theorem writes_recoverFromLog (valid : (logFormat start nlog).Valid disk) :
    (recoverFromLog (initlog start nlog)).writes disk =
      clearWrites start disk ((readHead (initlog start nlog)).result disk).clearHead.lh := by
  have reads : (readHead (initlog start nlog)).writes disk = [] := by
    rw [readHead, Program.writes_bind, writes_bread]
    rfl
  rw [recoverFromLog, Program.writes_bind, reads, List.nil_append, Program.final, reads, store_nil]
  exact (readHead_onDisk valid).writes_clear

theorem recoverFromLog_recovers :
    (logFormat start nlog).Recovers (recoverFromLog (initlog start nlog)) where
  valid := by
    intro disk valid count
    rw [Program.crash, writes_recoverFromLog valid]
    exact (clearWrites_crash valid rfl count).1
  same := by
    intro disk valid count
    rw [Program.crash, writes_recoverFromLog valid]
    exact (clearWrites_crash valid rfl count).2
  clears := by
    intro disk valid
    rw [Program.final, writes_recoverFromLog valid]
    exact clearWrites_redo rfl

/-! ## The commit -/

/-- A group of updates that is in the cache and named by the header, while the log on disk
is empty. -/
structure Log.Holds (log : Log) (disk : DiskImage) (updates : List (BlockNo × Block)) : Prop where
  valid : ValidHeader log.start log.size log.lh
  nonneg : 0 ≤ log.lh.n
  clear : (disk log.start).header.n = 0
  logged : ∀ b, log.dirty b ≠ none ↔ ∃ i < log.lh.n.toNat, log.lh.block i = b
  view : log.view disk = store disk updates

def Log.logWrites (log : Log) (disk : DiskImage) : List (BlockNo × Block) :=
  (List.range log.lh.n.toNat).map
    fun tail => (logBlock log.start tail, log.view disk (log.lh.block tail))

/-- The disk right after the first header of a commit. -/
def Log.committed (log : Log) (disk : DiskImage) : DiskImage :=
  Function.update (store disk (log.logWrites disk)) log.start
    ((disk log.start).setHeader log.lh)

/-- The memory right after the first header of a commit. -/
def Log.afterHead (log : Log) : Log :=
  (log.clean ((List.range log.lh.n.toNat).map (logBlock log.start))).clean [log.start]

theorem Log.holds_of_clean (positive : 0 < log.size) (zero : log.lh.n = 0)
    (clean : ∀ b, log.dirty b = none) (clear : (disk log.start).header.n = 0) :
    log.Holds disk [] := by
  refine ⟨valid_of_zero positive zero, zero.ge, clear, ?_, ?_⟩
  · intro b
    simp [clean b, zero]
  · funext b
    rw [Log.view_of_clean (clean b), store_nil]

namespace Log.Holds

variable {updates : List (BlockNo × Block)} (holds : log.Holds disk updates)
include holds

theorem clean_area (inArea : b ∈ logArea log.start log.size) : log.dirty b = none := by
  by_contra dirty
  rcases (holds.logged b).mp dirty with ⟨i, inUse, rfl⟩
  exact holds.valid.outside i inUse inArea

theorem logWrites_mem {write : BlockNo × Block} (mem : write ∈ log.logWrites disk) :
    write.1 ∈ logArea log.start log.size ∧ write.1 ≠ log.start := by
  rcases List.mem_map.mp mem with ⟨tail, tailMem, rfl⟩
  have inUse : tail < log.lh.n.toNat := List.mem_range.mp tailMem
  exact ⟨holds.valid.logBlock_mem inUse, holds.valid.logBlock_ne_start inUse⟩

theorem store_logWrites_start {part : List (BlockNo × Block)}
    (partMem : ∀ write ∈ part, write ∈ log.logWrites disk) :
    store disk part log.start = disk log.start :=
  store_of_notMem fun write mem => (holds.logWrites_mem (partMem write mem)).2

theorem committed_logBlock {tail : ℕ} (inUse : tail < log.lh.n.toNat) :
    log.committed disk (logBlock log.start tail) = log.view disk (log.lh.block tail) := by
  rw [Log.committed, update_of_ne (holds.valid.logBlock_ne_start inUse)]
  apply store_of_only
  · exact ⟨_, List.mem_map.mpr ⟨tail, List.mem_range.mpr inUse, rfl⟩, rfl⟩
  · intro write mem same
    rcases List.mem_map.mp mem with ⟨other, otherMem, rfl⟩
    rw [holds.valid.logBlock_inj (List.mem_range.mp otherMem) inUse same]

theorem committed_outside (outside : b ∉ logArea log.start log.size) :
    log.committed disk b = disk b := by
  have notStart : b ≠ log.start := by
    rintro rfl
    exact outside (start_mem_logArea holds.valid.positive)
  rw [Log.committed, update_of_ne notStart]
  apply store_of_notMem
  rintro write mem rfl
  exact outside (holds.logWrites_mem mem).1

theorem onDisk_afterHead : log.afterHead.OnDisk log.size (log.committed disk) := by
  have head : (log.committed disk) log.start = (disk log.start).setHeader log.lh :=
    update_self _ _ _
  refine ⟨holds.valid, ?_, ?_, ?_⟩
  · show ((log.committed disk) log.start).header.n = log.lh.n
    rw [head, Block.header_setHeader_n holds.nonneg holds.valid.fits]
  · intro i inUse
    show ((log.committed disk) log.start).header.block i = log.lh.block i
    rw [head, Block.header_setHeader_block holds.valid.fits inUse]
  · intro b inArea
    exact Log.dirty_clean (Log.dirty_clean (holds.clean_area inArea))

theorem contents_committed (outside : b ∉ logArea log.start log.size) :
    (logFormat log.start log.size).contents (log.committed disk) b = store disk updates b := by
  have redo : (logFormat log.start log.size).redo (log.committed disk) =
      (List.range log.lh.n.toNat).map
        fun tail => (log.lh.block tail, log.view disk (log.lh.block tail)) := by
    apply holds.onDisk_afterHead.writes_installTrans.symm.trans
    rw [(writes_installTrans holds.onDisk_afterHead.valid).1]
    apply List.map_congr_left
    intro tail mem
    have inUse : tail < log.lh.n.toNat := List.mem_range.mp mem
    have clean : log.afterHead.dirty (logBlock log.start tail) = none :=
      holds.onDisk_afterHead.clean _ (holds.valid.logBlock_mem inUse)
    exact congrArg (Prod.mk (log.lh.block tail))
      ((Log.view_of_clean clean).trans (holds.committed_logBlock inUse))
  rw [Format.contents, redo, ← holds.view]
  by_cases dirty : log.dirty b = none
  · rw [store_of_notMem, holds.committed_outside outside, Log.view_of_clean dirty]
    rintro write mem rfl
    rcases List.mem_map.mp mem with ⟨tail, tailMem, rfl⟩
    exact (holds.logged _).mpr ⟨tail, List.mem_range.mp tailMem, rfl⟩ dirty
  · rcases (holds.logged b).mp dirty with ⟨tail, inUse, rfl⟩
    apply store_of_only
    · exact ⟨_, List.mem_map.mpr ⟨tail, List.mem_range.mpr inUse, rfl⟩, rfl⟩
    · intro write mem same
      rcases List.mem_map.mp mem with ⟨other, _, rfl⟩
      exact congrArg (log.view disk) same

theorem run_head : (writeLog log >>= writeHead).writes disk =
      log.logWrites disk ++ [(log.start, (disk log.start).setHeader log.lh)] ∧
    (writeLog log >>= writeHead).result disk = log.afterHead ∧
    (writeLog log >>= writeHead).final disk = log.committed disk := by
  have wrote : (writeLog log).writes disk = log.logWrites disk := (writes_writeLog holds.valid).1
  have kept : store disk (log.logWrites disk) log.start = disk log.start :=
    holds.store_logWrites_start fun _ mem => mem
  have inArea : log.start ∈ logArea log.start log.size := start_mem_logArea holds.valid.positive
  have head : (writeLog log >>= writeHead).writes disk =
      log.logWrites disk ++ [(log.start, (disk log.start).setHeader log.lh)] := by
    rw [Program.writes_bind, wrote, Program.final, wrote, (writes_writeLog holds.valid).2,
      writes_writeHead, Log.start_clean, Log.lh_clean,
      Log.view_of_clean (Log.dirty_clean (holds.clean_area inArea)), kept]
  refine ⟨head, ?_, ?_⟩
  · rw [Program.result_bind, (writes_writeLog holds.valid).2, result_writeHead]
    rfl
  · rw [Program.final, head, store_append]
    rfl

omit holds in
theorem commit_eq (some_ : 0 < log.lh.n) : commit log =
    (writeLog log >>= writeHead) >>= fun log =>
      installTrans log >>= fun log => writeHead log.clearHead := by
  rw [commit, if_pos some_, bind_assoc]

theorem writes_commit (some_ : 0 < log.lh.n) : (commit log).writes disk =
    log.logWrites disk ++ [(log.start, (disk log.start).setHeader log.lh)] ++
      clearWrites log.start (log.committed disk) log.clearHead.lh := by
  rcases holds.run_head with ⟨wrote, result, final⟩
  rw [commit_eq some_, Program.writes_bind, wrote, result, final,
    holds.onDisk_afterHead.writes_clear]
  rfl

theorem result_commit (some_ : 0 < log.lh.n) :
    (commit log).result disk = (log.afterHead.clean
      ((List.range log.lh.n.toNat).map log.lh.block ++ [log.start])).clearHead := by
  rcases holds.run_head with ⟨_, result, final⟩
  rw [commit_eq some_, Program.result_bind, result, final, holds.onDisk_afterHead.result_clear]
  rfl

theorem final_commit (some_ : 0 < log.lh.n) : (commit log).final disk =
    store (log.committed disk) (clearWrites log.start (log.committed disk) log.clearHead.lh) := by
  rcases holds.run_head with ⟨_, result, final⟩
  rw [commit_eq some_, Program.final_bind, result, final, Program.final,
    holds.onDisk_afterHead.writes_clear]
  rfl

omit holds in
theorem commit_of_not_pos (empty : ¬0 < log.lh.n) : commit log = pure log := by
  rw [commit, if_neg empty]

theorem clean_of_not_pos (empty : ¬0 < log.lh.n) : log.dirty b = none := by
  by_contra dirty
  rcases (holds.logged b).mp dirty with ⟨i, inUse, _⟩
  omega

theorem commit_place : ((commit log).result disk).start = log.start ∧
    ((commit log).result disk).size = log.size := by
  by_cases some_ : 0 < log.lh.n
  · rw [holds.result_commit some_]
    exact ⟨rfl, rfl⟩
  · rw [commit_of_not_pos some_]
    exact ⟨rfl, rfl⟩

theorem committed_holds : ((commit log).result disk).Holds ((commit log).final disk) [] := by
  rcases holds.commit_place with ⟨sameStart, sameSize⟩
  by_cases some_ : 0 < log.lh.n
  · apply Log.holds_of_clean
    · rw [sameSize]
      exact holds.valid.positive
    · rw [holds.result_commit some_]
      rfl
    · intro b
      rw [holds.result_commit some_]
      by_cases dirty : log.dirty b = none
      · exact Log.dirty_clean (Log.dirty_clean (Log.dirty_clean dirty))
      · rcases (holds.logged b).mp dirty with ⟨i, inUse, rfl⟩
        simp only [Log.clearHead, Log.clean]
        rw [if_pos]
        exact List.mem_append_left _ (List.mem_map.mpr ⟨i, List.mem_range.mpr inUse, rfl⟩)
    · rw [sameStart, holds.final_commit some_]
      exact clearWrites_header rfl
  · rw [commit_of_not_pos some_, Program.result_pure, Program.final_pure]
    refine ⟨holds.valid, holds.nonneg, holds.clear, holds.logged, ?_⟩
    funext b
    rw [Log.view_of_clean (holds.clean_of_not_pos some_), store_nil]

theorem contents_crash (count : ℕ) (outside : b ∉ logArea log.start log.size) :
    (logFormat log.start log.size).Valid ((commit log).crash disk count) ∧
    (logFormat log.start log.size).contents ((commit log).crash disk count) b =
      if log.start ∈ (((commit log).writes disk).take count).map Prod.fst then
        store disk updates b
      else disk b := by
  have clear : (logFormat log.start log.size).contents disk b = disk b := by
    rw [Format.contents_of_clear (redo_of_zero holds.clear)]
  have valid : (logFormat log.start log.size).Valid disk :=
    valid_of_zero holds.valid.positive holds.clear
  by_cases some_ : 0 < log.lh.n
  · rw [Program.crash, holds.writes_commit some_]
    by_cases before : count ≤ (log.logWrites disk).length
    · -- only entries of the log have been written
      rw [List.append_assoc, List.take_append_of_le_length before]
      have part : ∀ write ∈ (log.logWrites disk).take count, write ∈ log.logWrites disk :=
        fun write mem => List.mem_of_mem_take mem
      have kept := holds.store_logWrites_start part
      have stillClear : (store disk ((log.logWrites disk).take count) log.start).header.n = 0 := by
        rw [kept, holds.clear]
      refine ⟨valid_of_zero holds.valid.positive stillClear, ?_⟩
      rw [if_neg]
      · rw [Format.same_store_area (fun write mem => (holds.logWrites_mem (part write mem)).1) _
          b outside, clear]
        rw [redo_of_zero stillClear, redo_of_zero holds.clear]
      · intro mem
        rcases List.mem_map.mp mem with ⟨write, writeMem, same⟩
        exact (holds.logWrites_mem (part _ writeMem)).2 same
    · -- the header is written, what follows installs the group
      have cut : (log.logWrites disk ++ [(log.start, (disk log.start).setHeader log.lh)] ++
          clearWrites log.start (log.committed disk) log.clearHead.lh).take count =
          log.logWrites disk ++ [(log.start, (disk log.start).setHeader log.lh)] ++
          (clearWrites log.start (log.committed disk) log.clearHead.lh).take
            (count - ((log.logWrites disk).length + 1)) := by
        rw [List.take_append, List.take_of_length_le, List.length_append, List.length_singleton]
        rw [List.length_append, List.length_singleton]
        omega
      have reached : store disk
          (log.logWrites disk ++ [(log.start, (disk log.start).setHeader log.lh)]) =
            log.committed disk := by
        rw [store_append]
        rfl
      have crash := clearWrites_crash holds.onDisk_afterHead.validDisk
        (show log.clearHead.lh.n = 0 from rfl) (count - ((log.logWrites disk).length + 1))
      rw [cut, store_append, reached, if_pos]
      · exact ⟨crash.1, (crash.2 b outside).trans (holds.contents_committed outside)⟩
      · simp
  · rw [Program.crash, commit_of_not_pos some_, Program.writes_pure, List.take_nil, store_nil]
    exact ⟨valid, by simp [clear]⟩

theorem counters (outstanding : ℤ) (committing : Bool) :
    { log with outstanding, committing }.Holds disk updates :=
  ⟨holds.valid, holds.nonneg, holds.clear, holds.logged, holds.view⟩

end Log.Holds

theorem LogHeader.slot_spec (lh : LogHeader) (b : BlockNo) :
    lh.slot b < lh.n.toNat ∧ lh.block (lh.slot b) = b ∨
      lh.slot b = lh.n.toNat ∧ ∀ i < lh.n.toNat, lh.block i ≠ b := by
  unfold LogHeader.slot
  cases found : (List.range lh.n.toNat).find? fun i => lh.block i = b with
  | none =>
      right
      simpa using found
  | some i =>
      left
      have inUse := List.mem_of_find?_eq_some found
      have same := List.find?_some found
      simp only [List.mem_range] at inUse
      simp only [decide_eq_true_eq] at same
      exact ⟨inUse, same⟩

theorem LogHeader.exists_update_slot (nonneg : 0 ≤ lh.n) (b other : BlockNo) :
    (∃ i < (if lh.slot b = lh.n.toNat then lh.n + 1 else lh.n).toNat,
      update lh.block (lh.slot b) b i = other) ↔
    other = b ∨ ∃ i < lh.n.toNat, lh.block i = other := by
  rcases lh.slot_spec b with ⟨inUse, same⟩ | ⟨atEnd, fresh⟩
  · have unchanged : update lh.block (lh.slot b) b = lh.block :=
      (congrArg (update lh.block (lh.slot b)) same).symm.trans (update_eq_self _ _)
    rw [if_neg (by omega), unchanged]
    constructor
    · exact Or.inr
    · rintro (rfl | found)
      · exact ⟨_, inUse, same⟩
      · exact found
  · rw [if_pos atEnd, atEnd]
    constructor
    · rintro ⟨i, bound, value⟩
      by_cases last : i = lh.n.toNat
      · subst last
        rw [update_self] at value
        exact Or.inl value.symm
      · rw [update_of_ne last] at value
        exact Or.inr ⟨i, by omega, value⟩
    · rintro (rfl | ⟨i, bound, value⟩)
      · exact ⟨lh.n.toNat, by omega, update_self ..⟩
      · refine ⟨i, by omega, ?_⟩
        rw [update_of_ne (by omega), value]

theorem Log.Holds.record {updates : List (BlockNo × Block)} (holds : log.Holds disk updates)
    (checked : logWriteCheck log = .ok ()) (outside : b ∉ logArea log.start log.size) :
    (logWriteRecord log b data).Holds disk (updates ++ [(b, data)]) := by
  have room : log.lh.n < LOGSIZE ∧ log.lh.n < log.size - 1 := by
    unfold logWriteCheck at checked
    split at checked
    · contradiction
    · rename_i room
      simp only [ge_iff_le, not_or, not_le] at room
      exact room
  have nonneg := holds.nonneg
  have inUse := LogHeader.exists_update_slot nonneg b
  refine ⟨⟨holds.valid.positive, ?_, ?_, ?_⟩, ?_, holds.clear, ?_, ?_⟩
  · simp only [logWriteRecord]
    split <;> omega
  · simp only [logWriteRecord]
    split <;> omega
  · intro i bound inArea
    rcases (inUse _).mp ⟨i, bound, rfl⟩ with same | ⟨j, jInUse, same⟩
    · exact outside (same ▸ inArea)
    · exact holds.valid.outside j jInUse (same ▸ inArea)
  · simp only [logWriteRecord]
    split <;> omega
  · intro other
    refine Iff.trans ?_ (inUse other).symm
    rw [← holds.logged other]
    by_cases same : other = b <;> simp [logWriteRecord, same]
  · rw [store_append, store_cons, store_nil, ← holds.view]
    funext other
    by_cases same : other = b <;> simp [logWriteRecord, Log.view, same]

/-! ## Runs of the log

The calls that the file system makes, in any order. A call of `end_op` that is to commit
does so, since nobody can begin an operation before it is done. -/

/-- The memory and the disk of a mounted file system. -/
structure Mount where
  log : Log
  disk : DiskImage

inductive LogCall where
  | beginOp
  | logWrite (b : BlockNo) (data : Block)
  | endOp

/-- One call. There is no step where `begin_op` would sleep or a call would panic. -/
def callStep (mount : Mount) : LogCall → Option Mount
  | .beginOp => (beginOp mount.log).map fun log => { mount with log }
  | .logWrite b data => (logWrite mount.log b data).toOption.map fun log => { mount with log }
  | .endOp =>
      match endOp mount.log with
      | .error _ => none
      | .ok (log, false) => some { mount with log }
      | .ok (log, true) => some
          { log := { (commit log).result mount.disk with committing := false }
            disk := (commit log).final mount.disk }

/-- The state after a recovery that has come to its end. -/
def mounted (logstart : BlockNo) (nlog : ℤ) (image : DiskImage) : Mount where
  log := (recoverFromLog (initlog logstart nlog)).result image
  disk := (recoverFromLog (initlog logstart nlog)).final image

def group : Trace Mount LogCall → List (BlockNo × Block)
  | [] => []
  | (_, .beginOp) :: trace => group trace
  | (_, .logWrite b data) :: trace => group trace ++ [(b, data)]
  | (mount, .endOp) :: trace =>
      match endOp mount.log with
      | .ok (_, true) => []
      | _ => group trace

/-- Logged blocks are not blocks of the log. -/
def homeOutside (start : BlockNo) (size : ℤ) (_ : Mount) : LogCall → Prop
  | .logWrite b _ => b ∉ logArea start size
  | _ => True

structure Mount.Logs (mount : Mount) (start : BlockNo) (size : ℤ)
    (updates : List (BlockNo × Block)) : Prop where
  start_eq : mount.log.start = start
  size_eq : mount.log.size = size
  holds : mount.log.Holds mount.disk updates

theorem logs_mounted {image : DiskImage} (valid : (logFormat start nlog).Valid image) :
    (mounted start nlog image).Logs start nlog [] := by
  have onDisk := readHead_onDisk valid
  have result : (mounted start nlog image).log =
      (((readHead (initlog start nlog)).result image).clean
        ((List.range ((readHead (initlog start nlog)).result image).lh.n.toNat).map
          ((readHead (initlog start nlog)).result image).lh.block ++ [start])).clearHead := by
    have reads : (readHead (initlog start nlog)).final image = image := by
      rw [readHead, Program.final_bind, final_bread]
      rfl
    rw [mounted, recoverFromLog, Program.result_bind, reads]
    exact onDisk.result_clear
  have sameStart : (mounted start nlog image).log.start = start := by
    rw [result]
    rfl
  have sameSize : (mounted start nlog image).log.size = nlog := by
    rw [result]
    rfl
  refine ⟨sameStart, sameSize, Log.holds_of_clean ?_ ?_ ?_ ?_⟩
  · rw [sameSize]
    exact valid.positive
  · rw [result]
    rfl
  · intro b
    rw [result]
    exact Log.dirty_clean rfl
  · rw [sameStart, mounted, Program.final, writes_recoverFromLog valid]
    exact clearWrites_header rfl

theorem Mount.Logs.of_end {mount : Mount} {updates : List (BlockNo × Block)} {commits : Bool}
    {log : Log} (logs : mount.Logs start size updates)
    (ended : Xv6.endOp mount.log = .ok (log, commits)) :
    log.start = start ∧ log.size = size ∧ log.Holds mount.disk updates := by
  unfold Xv6.endOp at ended
  dsimp only at ended
  split at ended
  · contradiction
  · split at ended <;> cases ended <;>
      exact ⟨logs.start_eq, logs.size_eq, logs.holds.counters _ _⟩

theorem Mount.Logs.step {mount next : Mount} {trace : Trace Mount LogCall} {call : LogCall}
    (logs : mount.Logs start size (group trace)) (outside : homeOutside start size mount call)
    (stepped : callStep mount call = some next) :
    next.Logs start size (group ((mount, call) :: trace)) := by
  cases call with
  | beginOp =>
      simp only [callStep, Option.map_eq_some_iff, Xv6.beginOp] at stepped
      rcases stepped with ⟨log, begun, rfl⟩
      split at begun
      · cases begun
        exact ⟨logs.start_eq, logs.size_eq, logs.holds.counters _ _⟩
      · contradiction
  | logWrite b data =>
      simp only [callStep, Option.map_eq_some_iff, logWrite] at stepped
      rcases stepped with ⟨log, written, rfl⟩
      cases checked : logWriteCheck mount.log with
      | error message =>
          rw [checked] at written
          contradiction
      | ok done =>
          rw [checked] at written
          cases written
          refine ⟨logs.start_eq, logs.size_eq, logs.holds.record checked ?_⟩
          rw [logs.start_eq, logs.size_eq]
          exact outside
  | endOp =>
      simp only [callStep] at stepped
      cases ended : Xv6.endOp mount.log with
      | error message => simp [ended] at stepped
      | ok result =>
          rcases result with ⟨log, commits⟩
          rcases logs.of_end ended with ⟨sameStart, sameSize, holds⟩
          cases commits with
          | false =>
              simp only [ended, Option.some.injEq] at stepped
              subst stepped
              simp only [group, ended]
              exact ⟨sameStart, sameSize, holds⟩
          | true =>
              simp only [ended, Option.some.injEq] at stepped
              subst stepped
              simp only [group, ended]
              rcases holds.commit_place with ⟨keptStart, keptSize⟩
              exact ⟨keptStart.trans sameStart, keptSize.trans sameSize,
                holds.committed_holds.counters _ _⟩

theorem logs_of_run {image : DiskImage} {trace : Trace Mount LogCall} {mount : Mount}
    (valid : (logFormat start nlog).Valid image)
    (run : Run callStep (mounted start nlog image) trace mount)
    (outside : Trace.All (homeOutside start nlog) trace) : mount.Logs start nlog (group trace) :=
  Run.invariant (fun trace mount => mount.Logs start nlog (group trace)) (logs_mounted valid)
    (fun logs _ outside stepped => logs.step outside stepped) run outside

/-- Wherever a commit is cut off, and however often the recovery is cut off after it, the
recovery that comes to its end leaves all of the group outside the log, or nothing of it:
all of it exactly when the first header has been written. -/
theorem commit_crash_atomic {logstart : BlockNo} {nlog : ℤ} {image : DiskImage}
    {trace : Trace Mount LogCall} {mount : Mount} {log : Log}
    (valid : (logFormat logstart nlog).Valid image)
    (run : Run callStep (mounted logstart nlog image) trace mount)
    (outside : Trace.All (homeOutside logstart nlog) trace)
    (ended : endOp mount.log = .ok (log, true)) (count : ℕ) (counts : List ℕ) :
    let recovery := recoverFromLog (initlog logstart nlog)
    let written := ((commit log).writes mount.disk).take count
    ∀ b ∉ logArea logstart nlog,
      recovery.final (crashes recovery (store mount.disk written) counts) b =
        if logstart ∈ written.map Prod.fst then store mount.disk (group trace) b
        else mount.disk b := by
  intro recovery written b outsideLog
  rcases (logs_of_run valid run outside).of_end ended with ⟨rfl, rfl, holds⟩
  rcases holds.contents_crash count outsideLog with ⟨validCrash, contents⟩
  exact (recoverFromLog_recovers.final_crashes validCrash counts outsideLog).trans contents

/-- The calls of the run below are on blocks behind the log, its end is about to commit, the
header is the third write, and the group has the second block. -/
def logsTwo (result : Trace Mount LogCall × Mount) : Bool :=
  (result.1.all fun entry =>
    match entry.2 with
    | .logWrite b _ => 32 ≤ b.toNat
    | _ => true) &&
  match endOp result.2.log with
  | .ok (log, true) =>
      decide (2 ∈ (((commit log).writes result.2.disk).take 4).map Prod.fst) &&
        decide (Block.word (store result.2.disk (group result.1) 101) 0 = 8)
  | _ => false

/-- Two blocks are logged in one operation; the crash comes after the header, in the middle
of the installation, and recovery is cut off twice. -/
theorem second_block_recovered :
    ∃ trace mount log, Run callStep (mounted 2 30 fun _ _ => 0) trace mount ∧
      Trace.All (homeOutside 2 30) trace ∧ endOp mount.log = .ok (log, true) ∧
      let recovery := recoverFromLog (initlog 2 30)
      Block.word (recovery.final (crashes recovery
        (store mount.disk (((commit log).writes mount.disk).take 4)) [0, 1]) 101) 0 = 8 := by
  have apart : ∀ b : BlockNo, 32 ≤ b.toNat → b ∉ logArea 2 30 := by
    rintro b large ⟨i, small, rfl⟩
    bv_omega
  have found : ∃ trace mount, Run callStep (mounted 2 30 fun _ _ => 0) trace mount ∧
      logsTwo (trace, mount) = true :=
    exists_run [.beginOp, .logWrite 100 fun _ => 7, .logWrite 101 fun _ => 8] (by decide +kernel)
  rcases found with ⟨trace, mount, run, checked⟩
  simp only [logsTwo, Bool.and_eq_true, List.all_eq_true] at checked
  rcases checked with ⟨far, ends⟩
  have outside : Trace.All (homeOutside 2 30) trace := by
    intro entry mem
    have farHere := far entry mem
    rcases entry with ⟨before, call⟩
    cases call with
    | logWrite b data => exact apart b (by simpa using farHere)
    | _ => trivial
  split at ends
  · rename_i log ended
    simp only [Bool.and_eq_true, decide_eq_true_eq] at ends
    have valid : (logFormat 2 30).Valid fun _ _ => 0 := valid_of_zero (by decide) rfl
    refine ⟨trace, mount, log, run, outside, ended, ?_⟩
    have recovered := commit_crash_atomic valid run outside ended 4 [0, 1] 101
      (apart 101 (by decide))
    rw [if_pos ends.1] at recovered
    exact (congrArg (Block.word · 0) recovered).trans ends.2
  · contradiction

end Xv6
