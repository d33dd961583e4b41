import Xv6.Lib.Bytes
import Xv6.Param

/-!
# The file system on disk

`fs.h`: a disk begins with its metadata, the inodes and the bit map of the blocks in use among
them; data blocks follow. Here are the formats and the allocator of blocks (`balloc`, `bfree`),
over the blocks of a device as the buffer cache shows them.
-/

namespace Xv6

abbrev BPB : ℕ := BSIZE * 8

/-- Bytes of `struct dinode`, and how many of them are in a block. -/
abbrev DINODESIZE : ℕ := 64
abbrev IPB : ℕ := BSIZE / DINODESIZE

abbrev BlockData := Bytes.Memory

structure Superblock where
  size : ℕ
  nblocks : ℕ
  ninodes : ℕ
  nlog : ℕ
  logstart : ℕ
  inodestart : ℕ
  bmapstart : ℕ
  deriving DecidableEq, Repr

namespace Superblock

variable (sb : Superblock)

def iblock (inum : ℕ) : ℕ := inum / IPB + sb.inodestart

/-- The block of the bit map that has the bit of a block. -/
def bblock (b : ℕ) : ℕ := b / BPB + sb.bmapstart

/-- The number of blocks before the data blocks. -/
def nmeta : ℕ := sb.bmapstart + sb.size / BPB + 1

/-- The inodes stand before the bit map and the bit map before the data. -/
structure Valid : Prop where
  inodes : ∀ inum < sb.ninodes, sb.iblock inum < sb.bmapstart
  fits : sb.nmeta ≤ sb.size
  small : sb.size < 2 ^ 32

end Superblock

/-! ## Inodes -/

/-- `struct dinode`; a short is given by its bits. -/
@[ext]
structure Dinode where
  type : UInt16
  major : UInt16
  minor : UInt16
  nlink : UInt16
  size : UInt32
  addrs : Fin (NDIRECT + 1) → UInt32
  deriving DecidableEq

def short (data : BlockData) (start : ℕ) : UInt16 := UInt16.ofNat (Bytes.number data start 2)

def uint (data : BlockData) (start : ℕ) : UInt32 := UInt32.ofNat (Bytes.number data start 4)

namespace Dinode

def byte (dip : Dinode) (i : ℕ) : UInt8 :=
  if i < 2 then Bytes.byte dip.type.toNat i
  else if i < 4 then Bytes.byte dip.major.toNat (i - 2)
  else if i < 6 then Bytes.byte dip.minor.toNat (i - 4)
  else if i < 8 then Bytes.byte dip.nlink.toNat (i - 6)
  else if i < 12 then Bytes.byte dip.size.toNat (i - 8)
  else Bytes.byte (dip.addrs (Fin.ofNat (NDIRECT + 1) ((i - 12) / 4))).toNat ((i - 12) % 4)

def read (data : BlockData) (start : ℕ) : Dinode where
  type := short data start
  major := short data (start + 2)
  minor := short data (start + 4)
  nlink := short data (start + 6)
  size := uint data (start + 8)
  addrs := fun i => uint data (start + 12 + 4 * i.val)

end Dinode

section Formats

variable {data other : BlockData} {start start' : ℕ}

theorem short_congr (agree : ∀ i < 2, data (start + i) = other (start' + i)) :
    short data start = short other start' := by
  rw [short, short, Bytes.number_congr agree]

theorem uint_congr (agree : ∀ i < 4, data (start + i) = other (start' + i)) :
    uint data start = uint other start' := by
  rw [uint, uint, Bytes.number_congr agree]

theorem short_of_bytes {value : UInt16}
    (stored : ∀ i < 2, data (start + i) = Bytes.byte value.toNat i) : short data start = value := by
  have bound := value.toNat_lt
  rw [short, Bytes.number_of_bytes stored, Nat.mod_eq_of_lt (by omega), UInt16.ofNat_toNat]

theorem uint_of_bytes {value : UInt32}
    (stored : ∀ i < 4, data (start + i) = Bytes.byte value.toNat i) : uint data start = value := by
  have bound := value.toNat_lt
  rw [uint, Bytes.number_of_bytes stored, Nat.mod_eq_of_lt (by omega), UInt32.ofNat_toNat]

theorem uint_store {value : UInt32} :
    uint (Bytes.store data start 4 (Bytes.byte value.toNat)) start = value :=
  uint_of_bytes fun _ below => Bytes.store_of_mem below

theorem uint_store_of_disjoint {length : ℕ} {bytes : ℕ → UInt8}
    (apart : start + 4 ≤ start' ∨ start' + length ≤ start) :
    uint (Bytes.store data start' length bytes) start = uint data start :=
  uint_congr fun _ below => Bytes.store_of_not_mem (by omega)

theorem Dinode.read_congr
    (agree : ∀ i < DINODESIZE, data (start + i) = other (start' + i)) :
    Dinode.read data start = Dinode.read other start' := by
  have shorts : ∀ k, k + 2 ≤ DINODESIZE → short data (start + k) = short other (start' + k) := by
    intro k inside
    apply short_congr
    intro i below
    rw [Nat.add_assoc, Nat.add_assoc]
    exact agree (k + i) (by omega)
  have uints : ∀ k, k + 4 ≤ DINODESIZE → uint data (start + k) = uint other (start' + k) := by
    intro k inside
    apply uint_congr
    intro i below
    rw [Nat.add_assoc, Nat.add_assoc]
    exact agree (k + i) (by omega)
  simp only [Dinode.read, Dinode.mk.injEq]
  refine ⟨shorts 0 (by decide), shorts 2 (by decide), shorts 4 (by decide), shorts 6 (by decide),
    uints 8 (by decide), ?_⟩
  funext i
  rw [Nat.add_assoc, Nat.add_assoc]
  apply uints
  have bound := i.isLt
  simp only [NDIRECT, DINODESIZE] at bound ⊢
  omega

theorem Dinode.read_store (dip : Dinode) :
    Dinode.read (Bytes.store data start DINODESIZE dip.byte) start = dip := by
  have stored : ∀ k i, k + i < DINODESIZE →
      Bytes.store data start DINODESIZE dip.byte (start + k + i) = dip.byte (k + i) := by
    intro k i inside
    rw [Nat.add_assoc]
    exact Bytes.store_of_mem inside
  have shorts : ∀ (k : ℕ) (value : UInt16), k + 2 ≤ DINODESIZE →
      (∀ i < 2, dip.byte (k + i) = Bytes.byte value.toNat i) →
      short (Bytes.store data start DINODESIZE dip.byte) (start + k) = value := by
    intro k value inside isByte
    apply short_of_bytes
    intro i below
    rw [stored k i (by omega), isByte i below]
  have uints : ∀ (k : ℕ) (value : UInt32), k + 4 ≤ DINODESIZE →
      (∀ i < 4, dip.byte (k + i) = Bytes.byte value.toNat i) →
      uint (Bytes.store data start DINODESIZE dip.byte) (start + k) = value := by
    intro k value inside isByte
    apply uint_of_bytes
    intro i below
    rw [stored k i (by omega), isByte i below]
  apply Dinode.ext
  · apply shorts 0 _ (by decide)
    intro i below
    simp [Dinode.byte, below]
  · apply shorts 2 _ (by decide)
    intro i below
    rw [Dinode.byte, if_neg (by omega), if_pos (by omega), Nat.add_sub_cancel_left]
  · apply shorts 4 _ (by decide)
    intro i below
    rw [Dinode.byte, if_neg (by omega), if_neg (by omega), if_pos (by omega),
      Nat.add_sub_cancel_left]
  · apply shorts 6 _ (by decide)
    intro i below
    rw [Dinode.byte, if_neg (by omega), if_neg (by omega), if_neg (by omega), if_pos (by omega),
      Nat.add_sub_cancel_left]
  · apply uints 8 _ (by decide)
    intro i below
    rw [Dinode.byte, if_neg (by omega), if_neg (by omega), if_neg (by omega), if_neg (by omega),
      if_pos (by omega), Nat.add_sub_cancel_left]
  · funext k
    have bound := k.isLt
    simp only [Dinode.read]
    rw [Nat.add_assoc]
    apply uints
    · simp only [NDIRECT, DINODESIZE] at bound ⊢
      omega
    · intro i below
      have isIndex : (12 + 4 * k.val + i - 12) / 4 = k.val := by omega
      have isByte : (12 + 4 * k.val + i - 12) % 4 = i := by omega
      rw [Dinode.byte, if_neg (by omega), if_neg (by omega), if_neg (by omega),
        if_neg (by omega), if_neg (by omega), isIndex, isByte]
      simp

end Formats

end Xv6
