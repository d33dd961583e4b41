import Xv6.Mkfs.Append

/-!
# The files of an image

What the inodes of the image contain while `mkfs` runs. Each step appends to one inode or makes a
new one; the other inodes keep their contents, since no two have a block in common.
-/

namespace Xv6.Mkfs

open Function

/-- The type of an inode that `mkfs` makes. -/
def kind (inum : ℕ) : UInt16 := if inum = ROOTINO then T_DIR else T_FILE

structure Holds (device : Device) (inum : ℕ) (contents : List UInt8) : Prop where
  type : (device.dinode wide inum).type = kind inum
  nlink : (device.dinode wide inum).nlink = 1
  placed : (device.dinode wide inum).Placed wide device
  size : (device.dinode wide inum).size.toNat = contents.length
  bytes : ∀ i, (device.dinode wide inum).byteAt device.block i = contents.getD i 0
  exact : Exact device.block (device.dinode wide inum) contents.length

/-- An inode that has never been written. -/
def zeroInode : Dinode where
  type := 0
  major := 0
  minor := 0
  nlink := 0
  size := 0
  addrs := fun _ => 0

/-- The inodes below a number have their contents, and no blocks in common. -/
structure Files (device : Device) (count : ℕ) (contents : ℕ → List UInt8) : Prop where
  holds : ∀ inum, 0 < inum → inum < count → Holds device inum (contents inum)
  apart : ∀ i j, 0 < i → i < count → 0 < j → j < count → i ≠ j →
    (device.dinode wide i).Apart device.block (device.dinode wide j)
  unborn : ∀ inum, inum = 0 ∨ count ≤ inum → inum < wide.ninodes → device.dinode wide inum = zeroInode

section Write

variable {device after : Device} {ip ip' : Inode} {inum other count : ℕ} {contents : ℕ → List UInt8}
  {p : List UInt8} {old : List UInt8}

theorem getD_append {i : ℕ} : (old ++ p).getD i 0 =
    if old.length ≤ i ∧ i < old.length + p.length then p.getD (i - old.length) 0 else old.getD i 0 := by
  rw [List.getD_eq_getElem?_getD, List.getD_eq_getElem?_getD, List.getD_eq_getElem?_getD]
  by_cases isOld : i < old.length
  · rw [if_neg (by omega), List.getElem?_append_left isOld]
  · have isNew := Nat.not_lt.1 isOld
    rw [List.getElem?_append_right isNew]
    by_cases inside : i < old.length + p.length
    · rw [if_pos ⟨isNew, inside⟩]
    · rw [if_neg (by omega), List.getElem?_eq_none (by omega), List.getElem?_eq_none isNew]

theorem Holds.append (holds : Holds device inum old)
    (isIp : ip.toDinode = device.dinode wide inum) (isInum : ip.inum = inum) (nonempty : 0 < p.length)
    (wrote : Wrote wide device ip old.length p.length (fun i => p.getD i 0) after ip')
    (exactAfter : Exact after.block ip'.toDinode (old.length + p.length)) :
    Holds after inum (old ++ p) ∧ after.dinode wide inum = ip'.toDinode := by
  have isSize : ip'.size.toNat = old.length + p.length := by
    rw [wrote.size, if_neg (Nat.ne_of_gt nonempty), isIp, holds.size]
    omega
  have isStored : after.dinode wide inum = ip'.toDinode := by
    rcases wrote.own with stored | ⟨sameSize, _⟩
    · rw [isInum] at stored
      exact stored
    · have grown := congrArg UInt32.toNat sameSize
      rw [isSize, isIp, holds.size] at grown
      omega
  rcases wrote.same with ⟨addrs, size, isSame⟩
  have sameType : ip'.type = ip.type := by rw [isSame]
  have sameNlink : ip'.nlink = ip.nlink := by rw [isSame]
  refine ⟨?_, isStored⟩
  constructor
  · rw [isStored, sameType, isIp]
    exact holds.type
  · rw [isStored, sameNlink, isIp]
    exact holds.nlink
  · rw [isStored]
    exact wrote.extended.placed
  · rw [isStored, isSize, List.length_append]
  · intro i
    rw [isStored, wrote.bytes, getD_append, isIp, holds.bytes]
  · rw [isStored, List.length_append]
    exact exactAfter

theorem Holds.kept {dip dip' : Dinode} (holds : Holds device other old)
    (extended : Extends wide device dip after dip')
    (same : after.dinode wide other = device.dinode wide other)
    (apart : dip.Apart device.block (device.dinode wide other)) : Holds after other old := by
  constructor
  · rw [same]
    exact holds.type
  · rw [same]
    exact holds.nlink
  · rw [same]
    exact extended.placed_other holds.placed apart
  · rw [same]
    exact holds.size
  · intro i
    rw [same, extended.byteAt_other holds.placed apart]
    exact holds.bytes i
  · intro place
    rw [same, extended.addr_other holds.placed apart]
    exact holds.exact place

theorem Files.append (files : Files device count contents) (isFile : 0 < inum) (below : inum < count)
    (bound : count ≤ wide.ninodes) (isIp : ip.toDinode = device.dinode wide inum)
    (isInum : ip.inum = inum) (nonempty : 0 < p.length)
    (wrote : Wrote wide device ip (contents inum).length p.length (fun i => p.getD i 0) after ip')
    (exactAfter : Exact after.block ip'.toDinode ((contents inum).length + p.length)) :
    Files after count (update contents inum (contents inum ++ p)) := by
  rcases (files.holds inum isFile below).append isIp isInum nonempty wrote exactAfter with
    ⟨holds, isStored⟩
  have extended := wrote.extended
  rw [isIp] at extended
  have same : ∀ k < wide.ninodes, k ≠ inum → after.dinode wide k = device.dinode wide k := by
    intro k isInode differ
    apply wrote.others k isInode
    rw [isInum]
    exact differ
  have keptApart : ∀ k, 0 < k → k < count → k ≠ inum →
      (after.dinode wide inum).Apart after.block (after.dinode wide k) := by
    intro k isFileToo belowToo differ
    rw [isStored, same k (by omega) differ]
    exact extended.apart_other (files.holds k isFileToo belowToo).placed
      (files.apart inum k isFile below isFileToo belowToo differ.symm)
  constructor
  · intro k isFileToo belowToo
    by_cases isSame : k = inum
    · rw [isSame, update_self]
      exact holds
    · rw [update_of_ne isSame]
      exact (files.holds k isFileToo belowToo).kept extended (same k (by omega) isSame)
        (files.apart inum k isFile below isFileToo belowToo (Ne.symm isSame))
  · intro i j iFile iBelow jFile jBelow differ
    by_cases iSame : i = inum
    · rw [iSame]
      exact keptApart j jFile jBelow (fun jSame => differ (iSame.trans jSame.symm))
    · by_cases jSame : j = inum
      · rw [jSame]
        exact (keptApart i iFile iBelow iSame).symm
      · intro place place'
        rw [same i (by omega) iSame, same j (by omega) jSame,
          extended.addr_other (files.holds i iFile iBelow).placed
            (files.apart inum i isFile below iFile iBelow (Ne.symm iSame)),
          extended.addr_other (files.holds j jFile jBelow).placed
            (files.apart inum j isFile below jFile jBelow (Ne.symm jSame))]
        exact files.apart i j iFile iBelow jFile jBelow differ place place'
  · intro k isUnborn isInode
    have differ : k ≠ inum := by omega
    rw [same k isInode differ]
    exact files.unborn k isUnborn isInode

end Write

section Alloc

variable {device after : Device} {inum other count : ℕ} {contents : ℕ → List UInt8} {old : List UInt8}
  {dip : Dinode}

def newInode (type : UInt16) : Dinode where
  type := type
  major := 0
  minor := 0
  nlink := 1
  size := 0
  addrs := fun _ => 0

theorem addr_newInode {type : UInt16} {blocks : ℕ → BlockData} (place : Option ℕ) :
    (newInode type).addr blocks place = 0 := by
  cases place with
  | none => rfl
  | some bn =>
      by_cases direct : bn < NDIRECT
      · exact Dinode.addr_direct direct
      · exact Dinode.addr_of_no_indirect (Nat.not_lt.1 direct) rfl

theorem Holds.setDinode_of_ne (holds : Holds device other old) (isInode : inum < wide.ninodes)
    (differ : other ≠ inum) : Holds (device.setDinode wide inum dip) other old := by
  have same : (device.setDinode wide inum dip).dinode wide other = device.dinode wide other :=
    Device.dinode_setDinode_of_ne differ
  constructor
  · rw [same]
    exact holds.type
  · rw [same]
    exact holds.nlink
  · rw [same]
    exact holds.placed.setDinode wide_valid isInode
  · rw [same]
    exact holds.size
  · intro i
    rw [same, byteAt_setDinode wide_valid isInode holds.placed]
    exact holds.bytes i
  · intro place
    rw [same, addr_setDinode wide_valid isInode holds.placed]
    exact holds.exact place

theorem holds_newInode : Holds (device.setDinode wide inum (newInode (kind inum))) inum [] := by
  have isNew : (device.setDinode wide inum (newInode (kind inum))).dinode wide inum =
      newInode (kind inum) := Device.dinode_setDinode
  constructor
  · rw [isNew]
    rfl
  · rw [isNew]
    rfl
  · rw [isNew]
    refine ⟨?_, ?_⟩
    · exact fun place present => absurd (addr_newInode place) present
    · exact fun place _ present => absurd (addr_newInode place) present
  · rw [isNew]
    rfl
  · intro i
    rw [isNew, Dinode.byteAt, if_pos (addr_newInode _)]
    rfl
  · intro place
    rw [isNew, addr_newInode]
    cases place with
    | none | some => exact iff_of_false (absurd rfl) (Nat.not_lt_zero _)

theorem Files.alloc (files : Files device count contents) (isFile : 0 < count)
    (bound : count < wide.ninodes) :
    Files (device.setDinode wide count (newInode (kind count))) (count + 1)
      (update contents count []) := by
  have same : ∀ k, k ≠ count →
      (device.setDinode wide count (newInode (kind count))).dinode wide k = device.dinode wide k :=
    fun k differ => Device.dinode_setDinode_of_ne differ
  have isNew : (device.setDinode wide count (newInode (kind count))).dinode wide count =
      newInode (kind count) := Device.dinode_setDinode
  constructor
  · intro k kFile kBelow
    by_cases isSame : k = count
    · rw [isSame, update_self]
      exact holds_newInode
    · rw [update_of_ne isSame]
      exact (files.holds k kFile (by omega)).setDinode_of_ne bound isSame
  · intro i j iFile iBelow jFile jBelow differ
    by_cases iSame : i = count
    · rw [iSame, isNew]
      exact fun place _ present => absurd (addr_newInode place) present
    · by_cases jSame : j = count
      · rw [jSame, isNew]
        intro place place' present isAddr
        rw [addr_newInode] at isAddr
        exact present isAddr
      · intro place place'
        rw [same i iSame, same j jSame,
          addr_setDinode wide_valid bound (files.holds i iFile (by omega)).placed,
          addr_setDinode wide_valid bound (files.holds j jFile (by omega)).placed]
        exact files.apart i j iFile (by omega) jFile (by omega) differ place place'
  · intro k isUnborn isInode
    rw [same k (by omega)]
    exact files.unborn k (by omega) isInode

theorem Files.congr (files : Files device count contents) (same : after.block = device.block) :
    Files after count contents := by
  have sameDinode : ∀ k, after.dinode wide k = device.dinode wide k :=
    fun k => Device.dinode_congr (congrFun same _)
  have sameUse : ∀ b, after.inUse wide b = device.inUse wide b :=
    fun b => Device.inUse_congr (congrFun same _)
  constructor
  · intro k kFile kBelow
    have holds := files.holds k kFile kBelow
    constructor
    · rw [sameDinode]
      exact holds.type
    · rw [sameDinode]
      exact holds.nlink
    · rw [sameDinode]
      refine ⟨?_, ?_⟩
      · intro place
        rw [same, sameUse]
        exact holds.placed.used place
      · rw [same]
        exact holds.placed.distinct
    · rw [sameDinode]
      exact holds.size
    · rw [sameDinode, same]
      exact holds.bytes
    · rw [sameDinode, same]
      exact holds.exact
  · intro i j
    rw [sameDinode, sameDinode, same]
    exact files.apart i j
  · intro k
    rw [sameDinode]
    exact files.unborn k

end Alloc

end Xv6.Mkfs
