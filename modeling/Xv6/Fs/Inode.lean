import Xv6.Fs.Blocks
import Xv6.Kernel.Basic

/-!
# Inodes and their contents

The functions of `fs.c` that a process calls with the inode locked: `bmap`, `itrunc`,
`iupdate`, `readi`, `writei` and `changesize`. They pass on the inode in memory and the device;
a result of `none` is a panic.
-/

namespace Xv6

/-- `struct inode`: the copy of the inode on disk, and what only the cache has. The holder is
that of the sleep lock. -/
structure Inode extends Dinode where
  dev : ℕ
  inum : ℕ
  ref : ℕ
  holder : Option Slot
  valid : Bool
  deriving DecidableEq

/-- The device functions of `devsw`, by major number: what they return for a count, and the
bytes that a read gives. -/
structure Devsw where
  read : ℕ → Option (ℕ → ℤ × List UInt8)
  write : ℕ → Option ((ℕ → UInt8) → ℕ → ℤ)

namespace Inode

variable (sb : Superblock)

def setAddr (ip : Inode) (i : Fin (NDIRECT + 1)) (addr : UInt32) : Inode :=
  { ip with addrs := Function.update ip.addrs i addr }

def iupdate (ip : Inode) (device : Device) : Device := device.setDinode sb ip.inum ip.toDinode

/-- An address of the inode, allocating a block if there is none. -/
def bmapAddr (ip : Inode) (i : Fin (NDIRECT + 1)) (device : Device) :
    Option (ℕ × Inode × Device) :=
  if ip.addrs i = 0 then
    (device.balloc sb).map fun (addr, device) =>
      (addr, ip.setAddr i (UInt32.ofNat addr), device)
  else some ((ip.addrs i).toNat, ip, device)

/-- An entry of the indirect block, allocating a block if there is none. -/
def bmapEntry (addr bn : ℕ) (device : Device) : Option (ℕ × Device) :=
  let entry := uint (device.block addr) (4 * bn)
  if entry = 0 then
    (device.balloc sb).map fun (b, device) =>
      (b, device.logWrite addr (Bytes.store (device.block addr) (4 * bn) 4 (Bytes.byte b)))
  else some (entry.toNat, device)

def bmap (ip : Inode) (bn : ℕ) (device : Device) : Option (ℕ × Inode × Device) :=
  if direct : bn < NDIRECT then ip.bmapAddr sb ⟨bn, Nat.lt_succ_of_lt direct⟩ device
  else if bn - NDIRECT < NINDIRECT then do
    let (addr, ip, device) ← ip.bmapAddr sb (Fin.last NDIRECT) device
    let (b, device) ← bmapEntry sb addr (bn - NDIRECT) device
    return (b, ip, device)
  else none

/-- The first loop of `itrunc`, for one address. -/
def truncAddr (state : Inode × Device) (i : Fin NDIRECT) : Option (Inode × Device) :=
  if state.1.addrs i.castSucc = 0 then some state
  else (state.2.bfree sb (state.1.addrs i.castSucc).toNat).map fun device =>
    (state.1.setAddr i.castSucc 0, device)

/-- The second loop, for one entry of the indirect block. -/
def truncEntry (addr : ℕ) (device : Device) (j : Fin NINDIRECT) : Option Device :=
  let entry := uint (device.block addr) (4 * j.val)
  if entry = 0 then some device else device.bfree sb entry.toNat

def truncIndirect (ip : Inode) (device : Device) : Option (Inode × Device) :=
  if ip.addrs (Fin.last NDIRECT) = 0 then some (ip, device)
  else do
    let addr := (ip.addrs (Fin.last NDIRECT)).toNat
    let device ← (List.finRange NINDIRECT).foldlM (truncEntry sb addr) device
    let device ← device.bfree sb addr
    return (ip.setAddr (Fin.last NDIRECT) 0, device)

def itrunc (ip : Inode) (device : Device) : Option (Inode × Device) := do
  let (ip, device) ← (List.finRange NDIRECT).foldlM (truncAddr sb) (ip, device)
  let (ip, device) ← ip.truncIndirect sb device
  let ip := { ip with size := 0 }
  return (ip, ip.iupdate sb device)

/-! ## Reading and writing -/

/-- The number of bytes that one iteration of a loop over the contents handles. -/
def chunk (n tot off : ℕ) : ℕ := min (n - tot) (BSIZE - off % BSIZE)

/-- The loop of `readi`. Each iteration handles a byte at least, so that `n` of them are enough;
they are counted by the first argument. -/
def copyOut (n : ℕ) : ℕ → ℕ → ℕ → Inode → Device → Option (List UInt8 × Inode × Device)
  | 0, _, _, ip, device => some ([], ip, device)
  | fuel + 1, tot, off, ip, device =>
      if tot < n then do
        let (addr, ip, device) ← ip.bmap sb (off / BSIZE) device
        let m := chunk n tot off
        let bytes := Bytes.load (device.block addr) (off % BSIZE) m
        let (rest, ip, device) ← copyOut n fuel (tot + m) (off + m) ip device
        return (bytes ++ rest, ip, device)
      else some ([], ip, device)

/-- The body of the loops of `writei` and `changesize`; the latter writes zeros. -/
def copyChunk (src : ℕ → UInt8) (n tot off : ℕ) (ip : Inode) (device : Device) :
    Option (Inode × Device) := do
  let (addr, ip, device) ← ip.bmap sb (off / BSIZE) device
  let m := chunk n tot off
  return (ip, device.logWrite addr
    (Bytes.store (device.block addr) (off % BSIZE) m fun i => src (tot + i)))

def copyIn (src : ℕ → UInt8) (n : ℕ) :
    ℕ → ℕ → ℕ → Inode → Device → Option (Inode × Device)
  | 0, _, _, ip, device => some (ip, device)
  | fuel + 1, tot, off, ip, device =>
      if tot < n then do
        let m := chunk n tot off
        let (ip, device) ← copyChunk sb src n tot off ip device
        copyIn src n fuel (tot + m) (off + m) ip device
      else some (ip, device)

variable (devsw : Devsw)

/-- What `readi` returns, the bytes that it copies, and the inode and the device. -/
def readi (ip : Inode) (off n : ℕ) (device : Device) :
    Option ((ℤ × List UInt8) × Inode × Device) :=
  if ip.type = T_DEV then
    -- a negative major number has the top bit set
    match (if ip.major.toNat < NDEV then devsw.read ip.major.toNat else none) with
    | none => some ((-1, []), ip, device)
    | some read => some (read n, ip, device)
  else if ip.size.toNat < off ∨ (off + n) % 2 ^ 32 < off then some ((-1, []), ip, device)
  else
    let n := if ip.size.toNat < (off + n) % 2 ^ 32 then ip.size.toNat - off else n
    (copyOut sb n n 0 off ip device).map fun (bytes, ip, device) => ((toInt n, bytes), ip, device)

/-- The end of `writei`, where `off` is past the last byte written. -/
def writeEnd (n off : ℕ) (ip : Inode) (device : Device) : Inode × Device :=
  if 0 < n ∧ ip.size.toNat < off then
    let ip := { ip with size := UInt32.ofNat off }
    (ip, ip.iupdate sb device)
  else (ip, device)

def writei (ip : Inode) (src : ℕ → UInt8) (off n : ℕ) (device : Device) :
    Option (ℤ × Inode × Device) :=
  if ip.type = T_DEV then
    match (if ip.major.toNat < NDEV then devsw.write ip.major.toNat else none) with
    | none => some (-1, ip, device)
    | some write => some (write src n, ip, device)
  else if ip.size.toNat < off ∨ (off + n) % 2 ^ 32 < off then some (-1, ip, device)
  else if MAXFILE * BSIZE < (off + n) % 2 ^ 32 then some (-1, ip, device)
  else do
    let (ip, device) ← copyIn sb src n n 0 off ip device
    let (ip, device) := writeEnd sb n (off + n) ip device
    return (toInt n, ip, device)

/-- The bytes that `changesize` fills with zeros: how many, and from where. -/
def resized (ip : Inode) (size : ℕ) : ℕ × ℕ :=
  if ip.size.toNat < size then (size - ip.size.toNat, ip.size.toNat)
  else (ip.size.toNat - size, size)

def resizeEnd (size : ℕ) (ip : Inode) (device : Device) : Inode × Device :=
  let ip := { ip with size := UInt32.ofNat size }
  (ip, ip.iupdate sb device)

def changesize (ip : Inode) (size : ℕ) (device : Device) : Option (ℤ × Inode × Device) :=
  if ip.type ≠ T_FILE then some (-1, ip, device)
  else do
    let (n, off) := ip.resized size
    let (ip, device) ← copyIn sb (fun _ => 0) n n 0 off ip device
    let (ip, device) := resizeEnd sb size ip device
    return (toInt size, ip, device)

end Inode

end Xv6
