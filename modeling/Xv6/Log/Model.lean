import Xv6.Lib.Disk
import Xv6.Param

/-!
# The log

`log.c`, over a disk of blocks of 32-bit words. Of the buffer cache only the dirty buffers
matter: a buffer that is not dirty holds what is on disk, so it is kept or dropped without
a difference.
-/

namespace Xv6

open Disk

abbrev BlockNo := BitVec 32

/-- The contents of a block, as its words. -/
abbrev Block := Fin (BSIZE / 4) → BitVec 32

abbrev DiskImage := BlockNo → Block

/-- A program that reads and writes blocks. -/
abbrev BlockM := Program BlockNo Block

structure LogHeader where
  n : ℤ
  block : ℕ → BlockNo

/-- `struct log` without its spin lock, and the dirty buffers of the cache. -/
structure Log where
  start : BlockNo
  size : ℤ
  outstanding : ℤ
  committing : Bool
  lh : LogHeader
  dirty : BlockNo → Option Block

def Block.word (block : Block) (i : ℕ) : BitVec 32 :=
  if bound : i < BSIZE / 4 then block ⟨i, bound⟩ else 0

/-- The header that a block holds: the count, and the numbers after it. -/
def Block.header (block : Block) : LogHeader where
  n := (block.word 0).toInt
  block := fun i => block.word (i + 1)

/-- The block with a header stored into it; only the numbers in use are stored. -/
def Block.setHeader (block : Block) (lh : LogHeader) : Block := fun i =>
  if i.val = 0 then BitVec.ofInt 32 lh.n
  else if i.val ≤ lh.n.toNat then lh.block (i.val - 1)
  else block i

/-- `bread`: the cached buffer if it is dirty, else what is on disk. -/
def bread (log : Log) (b : BlockNo) : BlockM Block :=
  match log.dirty b with
  | some data => pure data
  | none => .read b .done

/-- `bwrite`: the buffer is written out and no longer dirty. -/
def bwrite (log : Log) (b : BlockNo) (data : Block) : BlockM Log :=
  .write b data (.done { log with dirty := Function.update log.dirty b none })

/-- The block `log.start+tail+1` that holds entry `tail`. -/
def logBlock (start : BlockNo) (tail : ℕ) : BlockNo := start + BitVec.ofNat 32 tail + 1

/-- One round of the copying loops: read both buffers, copy and write. -/
def copyBlock (source target : BlockNo) (log : Log) : BlockM Log := do
  let _ ← bread log target
  let data ← bread log source
  bwrite log target data

/-- A loop over the entries of the header that copies a block for each. -/
def copyLoop (source target : ℕ → BlockNo) (log : Log) : BlockM Log :=
  (List.range log.lh.n.toNat).foldlM
    (fun log tail => copyBlock (source tail) (target tail) log) log

/-- `install_trans`: from the log to the home locations. -/
def installTrans (log : Log) : BlockM Log := copyLoop (logBlock log.start) log.lh.block log

/-- `write_log`: from the cache to the log. -/
def writeLog (log : Log) : BlockM Log := copyLoop log.lh.block (logBlock log.start) log

def readHead (log : Log) : BlockM Log := do
  let buf ← bread log log.start
  let n := buf.header.n
  pure { log with lh := { n, block := fun i =>
    if i < n.toNat then buf.header.block i else log.lh.block i } }

def writeHead (log : Log) : BlockM Log := do
  let buf ← bread log log.start
  bwrite log log.start (buf.setHeader log.lh)

def Log.clearHead (log : Log) : Log := { log with lh := { log.lh with n := 0 } }

def recoverFromLog (log : Log) : BlockM Log := do
  let log ← readHead log
  let log ← installTrans log
  writeHead log.clearHead

def commit (log : Log) : BlockM Log :=
  if 0 < log.lh.n then do
    let log ← writeLog log
    let log ← writeHead log
    let log ← installTrans log
    writeHead log.clearHead
  else
    pure log

/-- `initlog` with the superblock's `logstart` and `nlog`: the memory after a boot. -/
def initlog (logstart : BlockNo) (nlog : ℤ) : Log where
  start := logstart
  size := nlog
  outstanding := 0
  committing := false
  lh := { n := 0, block := fun _ => 0 }
  dirty := fun _ => none

/-- The test of the loop of `begin_op`: whether the operation is let in, or sleeps. -/
def Log.admits (log : Log) : Bool :=
  !log.committing && log.lh.n + (log.outstanding + 1) * MAXOPBLOCKS ≤ LOGSIZE

def beginOp (log : Log) : Option Log :=
  if log.admits then some { log with outstanding := log.outstanding + 1 } else none

/-- The checks of `log_write`, made before it takes the lock. -/
def logWriteCheck (log : Log) : Except String Unit :=
  if log.lh.n ≥ LOGSIZE ∨ log.lh.n ≥ log.size - 1 then .error "too big a transaction"
  else if log.outstanding < 1 then .error "log_write outside of trans"
  else .ok ()

/-- Where the loop of `log_write` ends: at the entry of the block, or behind the last. -/
def LogHeader.slot (lh : LogHeader) (b : BlockNo) : ℕ :=
  ((List.range lh.n.toNat).find? fun i => lh.block i = b).getD lh.n.toNat

/-- What `log_write` does under the lock, for a buffer that holds `data`. -/
def logWriteRecord (log : Log) (b : BlockNo) (data : Block) : Log :=
  let i := log.lh.slot b
  { log with
    lh := { n := if i = log.lh.n.toNat then log.lh.n + 1 else log.lh.n
            block := Function.update log.lh.block i b }
    dirty := Function.update log.dirty b (some data) }

def logWrite (log : Log) (b : BlockNo) (data : Block) : Except String Log := do
  logWriteCheck log
  pure (logWriteRecord log b data)

/-- The first part of `end_op`, under the lock; true when it is to commit. -/
def endOp (log : Log) : Except String (Log × Bool) :=
  let log := { log with outstanding := log.outstanding - 1 }
  if log.committing then .error "log.committing"
  else if log.outstanding = 0 then .ok ({ log with committing := true }, true)
  else .ok (log, false)

end Xv6
