import Mathlib

/-!
# Constants of the kernel

The numbers of `param.h`, `fs.h`, `proc.h` and `stat.h` that the model reads.
-/

namespace Xv6

abbrev NPROC : Nat := 10

instance : NeZero NPROC := ⟨by decide⟩

abbrev NSEMS : Nat := 6

instance : NeZero NSEMS := ⟨by decide⟩

/-- Numbers of processors. -/
instance neZeroOne : NeZero 1 := ⟨by decide⟩

instance neZeroTwo : NeZero 2 := ⟨by decide⟩

/-- Maximum number of blocks that a file-system operation writes. -/
abbrev MAXOPBLOCKS : Nat := 10

/-- Maximum number of data blocks in the on-disk log. -/
abbrev LOGSIZE : Nat := MAXOPBLOCKS * 3

abbrev NBUF : Nat := MAXOPBLOCKS * 3

abbrev NINODE : Nat := 50

instance : NeZero NINODE := ⟨by decide⟩

abbrev NDEV : Nat := 10

abbrev ROOTDEV : Nat := 1

abbrev BSIZE : Nat := 512

abbrev FSSIZE : Nat := 1000

abbrev ROOTINO : Nat := 1

abbrev DIRSIZ : Nat := 14

/-- Direct block addresses of an inode, and entries of an indirect block. -/
abbrev NDIRECT : Nat := 12
abbrev NINDIRECT : Nat := BSIZE / 4

instance (priority := high) : NeZero (NDIRECT + 1) := ⟨by decide⟩

abbrev MAXFILE : Nat := NDIRECT + NINDIRECT

abbrev T_DIR : UInt16 := 1
abbrev T_FILE : UInt16 := 2
abbrev T_DEV : UInt16 := 3

/-- `BJF_PRIORITY_DEF`: the priority a process starts with. -/
abbrev BJF_PRIORITY_DEF : Int := 3

/-- `AGING_THRESHOLD`: the number of ticks after which a waiting process is promoted. -/
abbrev AGING_THRESHOLD : Int := 8000

/-- Queue numbers of the multi-level scheduler. -/
abbrev UNSET : Int := 0
abbrev ROUND_ROBIN : Int := 1
abbrev LCFS : Int := 2
abbrev BJF : Int := 3

end Xv6
