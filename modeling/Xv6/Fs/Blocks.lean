import Xv6.Fs.Layout

/-!
# The blocks of a device

The allocator of blocks (`balloc`, `bfree`) and the inodes on disk, over the blocks as the
buffer cache shows them. Each operation changes one part of the disk: a bit of the map, an
inode, or a data block.
-/

namespace Xv6

/-- The blocks of a device, and the blocks that have been passed to `log_write`, latest first. -/
structure Device where
  block : ℕ → BlockData
  logged : List ℕ

namespace Device

/-- `log_write` of a buffer with new data. It goes on where the source panics for want of room in the
log: `LogRoom` says that no call has. -/
def logWrite (device : Device) (b : ℕ) (data : BlockData) : Device where
  block := Function.update device.block b data
  logged := b :: device.logged

/-- Each call of `log_write` has found room in the log, which was empty before the first one. The test
is made before the block is looked up, so that only the calls before the last one count. -/
def LogRoom (device : Device) : Prop := device.logged.tail.toFinset.card < LOGSIZE - 1

variable (sb : Superblock)

def inUse (device : Device) (b : ℕ) : Bool := Bytes.bit (device.block (sb.bblock b)) (b % BPB)

def dinode (device : Device) (inum : ℕ) : Dinode :=
  Dinode.read (device.block (sb.iblock inum)) (inum % IPB * DINODESIZE)

def bzero (device : Device) (b : ℕ) : Device :=
  device.logWrite b (Bytes.store (device.block b) 0 BSIZE fun _ => 0)

/-- The loops of `balloc`: the first block that is not in use, as the number of the first block
of its part of the map and the index of its bit. -/
def freeBit (device : Device) : Option (ℕ × ℕ) :=
  (List.range' 0 ((sb.size + BPB - 1) / BPB) BPB).findSome? fun b =>
    ((List.range' 0 BPB).find? fun bi =>
      b + bi < sb.size ∧ Bytes.bit (device.block (sb.bblock b)) bi = false).map fun bi => (b, bi)

/-- Without a free block, `balloc` panics. -/
def balloc (device : Device) : Option (ℕ × Device) :=
  (device.freeBit sb).map fun (b, bi) =>
    (b + bi,
      (device.logWrite (sb.bblock b) (Bytes.setBit (device.block (sb.bblock b)) bi)).bzero (b + bi))

/-- A block that is free already makes `bfree` panic. -/
def bfree (device : Device) (b : ℕ) : Option Device :=
  if Bytes.bit (device.block (sb.bblock b)) (b % BPB) = false then none
  else some (device.logWrite (sb.bblock b)
    (Bytes.clearBit (device.block (sb.bblock b)) (b % BPB)))

def setDinode (device : Device) (inum : ℕ) (dip : Dinode) : Device :=
  device.logWrite (sb.iblock inum) (Bytes.store (device.block (sb.iblock inum))
    (inum % IPB * DINODESIZE) DINODESIZE dip.byte)

section Parts

variable {sb} {device : Device} {b c x inum other : ℕ} {data : BlockData}

@[simp]
theorem block_logWrite_self : (device.logWrite b data).block b = data := by
  simp [logWrite]

@[simp]
theorem block_logWrite_of_ne (different : x ≠ b) :
    (device.logWrite b data).block x = device.block x := by
  simp [logWrite, different]

theorem inUse_congr {device' : Device}
    (same : device'.block (sb.bblock b) = device.block (sb.bblock b)) :
    device'.inUse sb b = device.inUse sb b := by
  simp only [inUse, same]

theorem dinode_congr {device' : Device}
    (same : device'.block (sb.iblock inum) = device.block (sb.iblock inum)) :
    device'.dinode sb inum = device.dinode sb inum := by
  simp only [dinode, same]

theorem iblock_lt_bblock (valid : sb.Valid) (isInode : inum < sb.ninodes) :
    sb.iblock inum < sb.bblock b := by
  have before := valid.inodes inum isInode
  simp only [Superblock.bblock, BPB, BSIZE]
  omega

theorem iblock_lt_nmeta (valid : sb.Valid) (isInode : inum < sb.ninodes) :
    sb.iblock inum < sb.nmeta := by
  have before := valid.inodes inum isInode
  simp only [Superblock.nmeta, BPB, BSIZE]
  omega

theorem bblock_lt_nmeta (below : b < sb.size) : sb.bblock b < sb.nmeta := by
  simp only [Superblock.bblock, Superblock.nmeta, BPB, BSIZE]
  omega

theorem bit_index {k bi : ℕ} (inside : bi < BPB) :
    sb.bblock (BPB * k + bi) = sb.bblock (BPB * k) ∧ (BPB * k + bi) % BPB = bi := by
  simp only [Superblock.bblock, BPB, BSIZE] at inside ⊢
  constructor <;> omega

theorem inUse_setBit :
    (device.logWrite (sb.bblock b) (Bytes.setBit (device.block (sb.bblock b)) (b % BPB))).inUse sb c =
      (decide (c = b) || device.inUse sb c) := by
  by_cases same : sb.bblock c = sb.bblock b
  · have sameBit : (c % BPB = b % BPB) = (c = b) := by
      apply propext
      simp only [Superblock.bblock, BPB, BSIZE] at same ⊢
      omega
    simp only [inUse, same, block_logWrite_self, Bytes.bit_setBit, sameBit]
  · have different : c ≠ b := by
      rintro rfl
      exact same rfl
    simp [inUse, block_logWrite_of_ne same, different]

theorem inUse_logWrite_data (isData : sb.nmeta ≤ x) (below : b < sb.size) :
    (device.logWrite x data).inUse sb b = device.inUse sb b := by
  have before := bblock_lt_nmeta below
  exact inUse_congr (block_logWrite_of_ne (by omega))

theorem dinode_logWrite_data (valid : sb.Valid) (isData : sb.nmeta ≤ x)
    (isInode : inum < sb.ninodes) :
    (device.logWrite x data).dinode sb inum = device.dinode sb inum := by
  have before := iblock_lt_nmeta valid isInode
  exact dinode_congr (block_logWrite_of_ne (by omega))

theorem dinode_logWrite_bitmap (valid : sb.Valid) (isInode : inum < sb.ninodes) :
    (device.logWrite (sb.bblock b) data).dinode sb inum = device.dinode sb inum := by
  have before := @iblock_lt_bblock sb b inum valid isInode
  exact dinode_congr (block_logWrite_of_ne (by omega))

theorem dinode_setDinode {dip : Dinode} :
    (device.setDinode sb inum dip).dinode sb inum = dip := by
  simp only [dinode, setDinode, block_logWrite_self]
  exact Dinode.read_store dip

theorem dinode_setDinode_of_ne {dip : Dinode} (different : other ≠ inum) :
    (device.setDinode sb inum dip).dinode sb other = device.dinode sb other := by
  by_cases sameBlock : sb.iblock other = sb.iblock inum
  · simp only [dinode, setDinode, sameBlock, block_logWrite_self]
    apply Dinode.read_congr
    intro i below
    apply Bytes.store_of_not_mem
    simp only [Superblock.iblock, IPB, BSIZE, DINODESIZE] at sameBlock below ⊢
    omega
  · exact dinode_congr (block_logWrite_of_ne sameBlock)

theorem inUse_setDinode {dip : Dinode} (valid : sb.Valid) (isInode : inum < sb.ninodes) :
    (device.setDinode sb inum dip).inUse sb b = device.inUse sb b := by
  have before := @iblock_lt_bblock sb b inum valid isInode
  exact inUse_congr (block_logWrite_of_ne (by omega))

theorem block_setDinode {dip : Dinode} (valid : sb.Valid) (isInode : inum < sb.ninodes)
    (isData : sb.nmeta ≤ x) : (device.setDinode sb inum dip).block x = device.block x := by
  have before := iblock_lt_nmeta valid isInode
  exact block_logWrite_of_ne (by omega)

theorem freeBit_some {bi : ℕ} (found : device.freeBit sb = some (b, bi)) :
    b + bi < sb.size ∧ device.inUse sb (b + bi) = false ∧ sb.bblock b = sb.bblock (b + bi) ∧
      bi = (b + bi) % BPB := by
  rcases List.exists_of_findSome?_eq_some found with ⟨first, mem, inPart⟩
  rcases List.mem_range'.mp mem with ⟨k, _, rfl⟩
  rcases Option.map_eq_some_iff.mp inPart with ⟨index, isFound, same⟩
  have isFree := List.find?_some isFound
  rw [decide_eq_true_eq] at isFree
  have inside := List.mem_range'.mp (List.mem_of_find?_eq_some isFound)
  rw [Nat.zero_add] at same mem isFree
  cases same
  rcases @bit_index sb k bi (by rcases inside with ⟨i, below, rfl⟩; omega) with ⟨sameBlock, isBit⟩
  refine ⟨isFree.1, ?_, sameBlock.symm, isBit.symm⟩
  rw [inUse, sameBlock, isBit]
  exact isFree.2

theorem freeBit_ne_none (below : b < sb.size) (isFree : device.inUse sb b = false) :
    device.freeBit sb ≠ none := by
  intro missing
  have isIndex : BPB * (b / BPB) + b % BPB = b := Nat.div_add_mod b BPB
  have inside : b % BPB < BPB := Nat.mod_lt _ (by decide)
  have mem : 0 + BPB * (b / BPB) ∈ List.range' 0 ((sb.size + BPB - 1) / BPB) BPB := by
    refine List.mem_range'.mpr ⟨b / BPB, ?_, rfl⟩
    simp only [BPB, BSIZE]
    omega
  have notThere := List.findSome?_eq_none_iff.mp missing _ mem
  rw [Option.map_eq_none_iff, List.find?_eq_none] at notThere
  apply notThere (b % BPB) (List.mem_range'.mpr ⟨b % BPB, inside, by omega⟩)
  rcases @bit_index sb (b / BPB) (b % BPB) inside with ⟨sameBlock, _⟩
  rw [isIndex] at sameBlock
  rw [decide_eq_true_eq, Nat.zero_add, isIndex, ← sameBlock]
  exact ⟨below, isFree⟩

end Parts

/-- A data block that was free is in use and filled with zeros; the rest is as before. -/
structure Allocated (device : Device) (b : ℕ) (after : Device) : Prop where
  fresh : device.inUse sb b = false
  below : b < sb.size
  isData : sb.nmeta ≤ b
  bits : ∀ c < sb.size, after.inUse sb c = (decide (c = b) || device.inUse sb c)
  zeroed : ∀ i < BSIZE, after.block b i = 0
  kept : ∀ x, sb.nmeta ≤ x → x ≠ b → after.block x = device.block x
  inodes : ∀ inum < sb.ninodes, after.dinode sb inum = device.dinode sb inum
  logged : after.logged = b :: sb.bblock b :: device.logged

section Allocation

variable {sb} {device after : Device} {b : ℕ}

theorem balloc_allocated (valid : sb.Valid) (metadata : ∀ b < sb.nmeta, device.inUse sb b = true)
    (got : device.balloc sb = some (b, after)) : Allocated sb device b after := by
  rcases Option.map_eq_some_iff.mp got with ⟨⟨first, bi⟩, found, result⟩
  rcases freeBit_some found with ⟨below, fresh, isBlock, isBit⟩
  simp only [Prod.mk.injEq] at result
  rcases result with ⟨rfl, rfl⟩
  have isData : sb.nmeta ≤ first + bi := by
    by_contra isMeta
    rw [metadata (first + bi) (by omega)] at fresh
    contradiction
  have inMap := bblock_lt_nmeta below
  have marked : device.logWrite (sb.bblock first)
      (Bytes.setBit (device.block (sb.bblock first)) bi) =
      device.logWrite (sb.bblock (first + bi))
        (Bytes.setBit (device.block (sb.bblock (first + bi))) ((first + bi) % BPB)) := by
    rw [isBlock, ← isBit]
  rw [marked]
  refine ⟨fresh, below, isData, ?_, ?_, ?_, ?_, rfl⟩
  · intro c inRange
    rw [bzero, inUse_logWrite_data isData inRange, inUse_setBit]
  · intro i inside
    rw [bzero, block_logWrite_self]
    simp [Bytes.store, inside]
  · intro x xIsData different
    rw [bzero, block_logWrite_of_ne different, block_logWrite_of_ne (by omega)]
  · intro inum isInode
    rw [bzero, dinode_logWrite_data valid isData isInode, dinode_logWrite_bitmap valid isInode]

theorem balloc_isSome (below : b < sb.size) (isFree : device.inUse sb b = false) :
    ∃ c after, device.balloc sb = some (c, after) := by
  rcases Option.ne_none_iff_exists'.mp (freeBit_ne_none below isFree) with ⟨⟨first, bi⟩, found⟩
  exact ⟨_, _, by rw [balloc, found]; rfl⟩

end Allocation

end Device

end Xv6
