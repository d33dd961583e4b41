import Xv6.Fs.Directory

/-!
# mkfs

`mkfs.c` writes an image of a disk sector by sector: the super block, the inodes from `freeinode`
on, data blocks from `freeblock` on, and at the end the bit map. A result of `none` is an exit with
an error or a failed assertion. The structures that the program writes have their numbers in Intel
byte order, as `xshort` and `xint` give them.
-/

namespace Xv6

/-! ## The super block -/

namespace Superblock

def byte (sb : Superblock) (i : ℕ) : UInt8 :=
  Bytes.byte ([sb.size, sb.nblocks, sb.ninodes, sb.nlog, sb.logstart, sb.inodestart,
    sb.bmapstart].getD (i / 4) 0) (i % 4)

/-- `readsb`: the super block in a sector. -/
def read (data : BlockData) : Superblock where
  size := Bytes.number data 0 4
  nblocks := Bytes.number data 4 4
  ninodes := Bytes.number data 8 4
  nlog := Bytes.number data 12 4
  logstart := Bytes.number data 16 4
  inodestart := Bytes.number data 20 4
  bmapstart := Bytes.number data 24 4

end Superblock

namespace Mkfs

abbrev NINODES : ℕ := 200

abbrev nbitmap : ℕ := FSSIZE / (BSIZE * 8) + 1
abbrev ninodeblocks : ℕ := NINODES / IPB + 1
abbrev nlog : ℕ := LOGSIZE
abbrev nmeta : ℕ := 2 + nlog + ninodeblocks + nbitmap

def sb : Superblock where
  size := FSSIZE
  nblocks := FSSIZE - nmeta
  ninodes := NINODES
  nlog := nlog
  logstart := 2
  inodestart := 2 + nlog
  bmapstart := 2 + nlog + ninodeblocks

/-- The image, with its length in sectors, and the two counters. -/
structure State where
  sectors : ℕ → BlockData
  length : ℕ
  freeinode : ℕ
  freeblock : ℕ

/-- An input file: its name on the command line, and what the calls of `read` on it return, if it can
be opened. -/
structure File where
  arg : List UInt8
  reads : Option (List (List UInt8))

/-- The name of a file without a leading `_`. -/
def File.name (file : File) : List UInt8 :=
  match file.arg with
  | 95 :: name => name
  | name => name

namespace State

/-- Writing past the end makes the image longer. -/
def wsect (s : State) (sec : ℕ) (buf : BlockData) : State :=
  { s with sectors := Function.update s.sectors sec buf, length := max s.length (sec + 1) }

/-- Reading past the end does not return `BSIZE` bytes. -/
def rsect (s : State) (sec : ℕ) : Option BlockData :=
  if sec < s.length then some (s.sectors sec) else none

def winode (s : State) (inum : ℕ) (dip : Dinode) : Option State := do
  let bn := sb.iblock inum
  let buf ← s.rsect bn
  return s.wsect bn (Bytes.store buf (inum % IPB * DINODESIZE) DINODESIZE dip.byte)

def rinode (s : State) (inum : ℕ) : Option Dinode := do
  let buf ← s.rsect (sb.iblock inum)
  return Dinode.read buf (inum % IPB * DINODESIZE)

def ialloc (s : State) (type : UInt16) : Option (ℕ × State) := do
  let inum := s.freeinode
  let s := { s with freeinode := inum + 1 }
  let din : Dinode :=
    { type := type, major := 0, minor := 0, nlink := 1, size := 0, addrs := fun _ => 0 }
  let s ← s.winode inum din
  return (inum, s)

def bitmap (used : ℕ) : BlockData := (List.range used).foldl Bytes.setBit fun _ => 0

def balloc (s : State) (used : ℕ) : Option State :=
  if used < BSIZE * 8 then some (s.wsect sb.bmapstart (bitmap used)) else none

/-! ## Appending -/

/-- `freeblock++` for an address that is 0. -/
def takeAddr (s : State) (din : Dinode) (i : Fin (NDIRECT + 1)) : Dinode × State :=
  if din.addrs i = 0 then
    ({ din with addrs := Function.update din.addrs i (UInt32.ofNat s.freeblock) },
      { s with freeblock := s.freeblock + 1 })
  else (din, s)

/-- The same for an entry of the indirect block. -/
def takeEntry (s : State) (addr i : ℕ) : Option (ℕ × State) := do
  let indirect ← s.rsect addr
  let entry := uint indirect (4 * i)
  if entry = 0 then
    let x := s.freeblock
    let s := { s with freeblock := x + 1 }
    return (x, s.wsect addr (Bytes.store indirect (4 * i) 4 (Bytes.byte x)))
  else return (entry.toNat, s)

/-- The sector of a block of the file, and a copy of it. -/
def locate (s : State) (din : Dinode) (fbn : ℕ) : Option ((ℕ × BlockData) × Dinode × State) :=
  if direct : fbn < NDIRECT then do
    let (din, s) := s.takeAddr din ⟨fbn, Nat.lt_succ_of_lt direct⟩
    let x := (din.addrs ⟨fbn, Nat.lt_succ_of_lt direct⟩).toNat
    let buf ← s.rsect x
    return ((x, buf), din, s)
  else do
    let (din, s) := s.takeAddr din (Fin.last NDIRECT)
    let (x, s) ← s.takeEntry (din.addrs (Fin.last NDIRECT)).toNat (fbn - NDIRECT)
    let buf ← s.rsect x
    return ((x, buf), din, s)

/-- The loop of `iappend`. Each iteration takes a byte at least, so that as many as there are bytes are
enough; they are counted by the first argument. -/
def appendLoop : ℕ → List UInt8 → ℕ → Dinode → State → Option (ℕ × Dinode × State)
  | 0, _, off, din, s => some (off, din, s)
  | fuel + 1, p, off, din, s =>
      if p.length = 0 then some (off, din, s)
      else do
        let fbn := off / BSIZE
        if fbn < MAXFILE then
          let ((x, buf), din, s) ← s.locate din fbn
          let n1 := min p.length ((fbn + 1) * BSIZE - off)
          let s := s.wsect x (Bytes.store buf (off - fbn * BSIZE) n1 fun i => p.getD i 0)
          appendLoop fuel (p.drop n1) (off + n1) din s
        else none

def iappend (s : State) (inum : ℕ) (p : List UInt8) : Option State := do
  let din ← s.rinode inum
  let (off, din, s) ← appendLoop p.length p din.size.toNat din s
  s.winode inum { din with size := UInt32.ofNat off }

/-! ## The program -/

def entry (inum : ℕ) (name : List UInt8) : List UInt8 :=
  let de : Dirent := { inum := inum % 2 ^ 16, name := strncpy DIRSIZ fun i => name.getD i 0 }
  (List.range DIRENTSIZE).map de.byte

/-- The loop around `read`, which ends when `read` returns nothing. -/
def appendAll (inum : ℕ) : List (List UInt8) → State → Option State
  | [], s => some s
  | buf :: reads, s =>
      if buf.length = 0 then some s else (s.iappend inum buf).bind (appendAll inum reads)

def addFile (s : State) (file : File) : Option State :=
  if 47 ∈ file.arg then none
  else do
    let reads ← file.reads
    let (inum, s) ← s.ialloc T_FILE
    let s ← s.iappend ROOTINO (entry inum file.name)
    appendAll inum reads s

def blank : State :=
  let s : State := { sectors := fun _ _ => 0, length := 0, freeinode := 1, freeblock := nmeta }
  let s := (List.range FSSIZE).foldl (fun s i => s.wsect i fun _ => 0) s
  s.wsect 1 (Bytes.store (fun _ => 0) 0 28 sb.byte)

def makeRoot (s : State) : Option State := do
  let (rootino, s) ← s.ialloc T_DIR
  if rootino = ROOTINO then
    let s ← s.iappend rootino (entry rootino [46])
    s.iappend rootino (entry rootino [46, 46])
  else none

def fixRoot (s : State) : Option State := do
  let din ← s.rinode ROOTINO
  let off := din.size.toNat
  s.winode ROOTINO { din with size := UInt32.ofNat ((off / BSIZE + 1) * BSIZE) }

def main (files : List File) : Option State := do
  let s ← blank.makeRoot
  let s ← files.foldlM addFile s
  let s ← s.fixRoot
  s.balloc s.freeblock

end State

end Mkfs

end Xv6
