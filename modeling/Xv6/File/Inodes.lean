import Xv6.Fs.Icache

/-!
# Open files over inodes

`fileread`, `filewrite` and `filechangesize` of `file.c`, for files of type `FD_INODE`. They use the
inode under its lock, and the functions that change it are in a transaction.
-/

namespace Xv6

/-- `struct file` for an inode, without its reference count. -/
structure InodeFile where
  readable : Bool
  writable : Bool
  ip : InodeId
  off : UInt32
  deriving DecidableEq

def uintOfInt (n : ℤ) : ℕ := (n % 2 ^ 32).toNat

namespace FsState

/-- `begin_op`. From here on the blocks that are passed to `log_write` are those of this operation. -/
def beginOp (state : FsState) : FsState :=
  { state with device := fun dev => { state.device dev with logged := [] } }

/-- A function of an inode, between `ilock` and `iunlock`. -/
def underLock {α : Type} (sb : Superblock) (state : FsState) (p : Slot) (i : InodeId)
    (call : Inode → Device → Option (α × Inode × Device)) : Except FsStop (α × FsState) := do
  let state ← state.ilock sb p i
  match call (state.icache i) (state.deviceOf i) with
  | none => .error .blocks
  | some (r, ip, device) =>
      let state ← (state.store i ip device).iunlock p i
      return (r, state)

end FsState

namespace InodeFile

variable (sb : Superblock) (devsw : Devsw) (p : Slot)

/-- `f->off += r` for a call that has handled bytes. -/
def advance (f : InodeFile) (r : ℤ) : InodeFile :=
  if 0 < r then { f with off := f.off + UInt32.ofNat r.toNat } else f

def fileread (f : InodeFile) (n : ℤ) (state : FsState) :
    Except FsStop ((ℤ × List UInt8) × InodeFile × FsState) :=
  if f.readable = false then .ok ((-1, []), f, state)
  else do
    let (r, state) ← state.underLock sb p f.ip fun ip device =>
      ip.readi sb devsw f.off.toNat (uintOfInt n) device
    return (r, f.advance r.1, state)

/-- The number of bytes that are written at a time. -/
abbrev writeMax : ℕ := (MAXOPBLOCKS - 1 - 1 - 2) / 2 * 512

/-- The transaction of an iteration of the loop of `filewrite`. -/
def writeChunk (src : ℕ → UInt8) (n1 : ℕ) (f : InodeFile) (state : FsState) :
    Except FsStop (ℤ × InodeFile × FsState) := do
  let (r, state) ← state.beginOp.underLock sb p f.ip fun ip device =>
    ip.writei sb devsw src f.off.toNat n1 device
  return (r, f.advance r, state)

/-- The loop. Each iteration that goes on writes a byte at least, so that one more than `n` of them
are enough; they are counted by the first argument. -/
def writeLoop (src : ℕ → UInt8) (n : ℕ) :
    ℕ → ℕ → InodeFile → FsState → Except FsStop (ℕ × InodeFile × FsState)
  | 0, _, _, _ => .error .looping
  | fuel + 1, i, f, state =>
      if i < n then do
        let n1 := min (n - i) writeMax
        let (r, f, state) ← f.writeChunk sb devsw p (fun j => src (i + j)) n1 state
        if r < 0 then return (i, f, state)
        else if r ≠ n1 then .error (.panic "short filewrite")
        else writeLoop src n fuel (i + n1) f state
      else return (i, f, state)

def filewrite (f : InodeFile) (src : ℕ → UInt8) (n : ℤ) (state : FsState) :
    Except FsStop (ℤ × InodeFile × FsState) :=
  if f.writable = false then .ok (-1, f, state)
  else do
    let (i, f, state) ← writeLoop sb devsw p src n.toNat (n.toNat + 1) 0 f state
    return (if (i : ℤ) = n then n else -1, f, state)

def filechangesize (f : InodeFile) (n : ℤ) (state : FsState) :
    Except FsStop (ℤ × InodeFile × FsState) :=
  if f.writable = false then .ok (-1, f, state)
  else do
    let (r, state) ← state.beginOp.underLock sb p f.ip fun ip device =>
      ip.changesize sb (uintOfInt n) device
    return (r, if 0 < r then { f with off := UInt32.ofNat r.toNat } else f, state)

end InodeFile

end Xv6
