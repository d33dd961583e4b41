import Xv6.Mkfs.Build

/-!
# mkfs writes as the kernel does

While `mkfs` builds the image it has not written the bit map. With the bit map of the blocks
below `freeblock` in its place, the image is a disk on which `iappend` does what the kernel's
`writei` does at the end of a file: the next block that `balloc` finds is `freeblock`.
-/

namespace Xv6.Mkfs

open Function

/-- The super block, with as many inodes as there is room for before the bit map. -/
def wide : Superblock := { sb with ninodes := ninodeblocks * IPB }

theorem wide_valid : wide.Valid where
  inodes := by
    intro inum isInode
    simp only [wide, sb, Superblock.iblock, ninodeblocks, nlog, LOGSIZE, MAXOPBLOCKS, NINODES, IPB, BSIZE,
      DINODESIZE] at isInode ⊢
    omega
  fits := by decide
  small := by decide

theorem nmeta_eq : nmeta = 59 := by decide

theorem bmapstart_eq : sb.bmapstart = 58 := by decide

theorem wide_nmeta : wide.nmeta = nmeta := by decide

/-! ## The blocks of a file -/

/-- The places that a file of a size has. -/
def Reach (n : ℕ) : Option ℕ → Prop
  | none => NDIRECT * BSIZE < n
  | some bn => bn * BSIZE < n

/-- The inode has the blocks of a file of a size, and no others. -/
def Exact (blocks : ℕ → BlockData) (dip : Dinode) (n : ℕ) : Prop :=
  ∀ place, dip.addr blocks place ≠ 0 ↔ Reach n place

/-- How many blocks a file of a size has. -/
def blocksOf (n : ℕ) : ℕ := (n + BSIZE - 1) / BSIZE + if NDIRECT * BSIZE < n then 1 else 0

/-- How many blocks `bmap` allocates for a block of the file. -/
def missing (blocks : ℕ → BlockData) (dip : Dinode) (fbn : ℕ) : ℕ :=
  (if NDIRECT ≤ fbn ∧ dip.addr blocks none = 0 then 1 else 0) +
    if dip.addr blocks (some fbn) = 0 then 1 else 0

section Space

variable {blocks : ℕ → BlockData} {dip : Dinode} {device after : Device} {ip ip' : Inode} {off m n x : ℕ}

theorem blocksOf_mono (grows : m ≤ n) : blocksOf m ≤ blocksOf n := by
  simp only [blocksOf, NDIRECT, BSIZE]
  split <;> split <;> omega

theorem Exact.missing_eq (exact : Exact blocks dip off) (positive : 0 < m)
    (inBlock : off % BSIZE + m ≤ BSIZE) :
    blocksOf off + missing blocks dip (off / BSIZE) = blocksOf (off + m) := by
  have isIndirect : dip.addr blocks none = 0 ↔ ¬NDIRECT * BSIZE < off := not_iff_not.1 (by
    rw [not_not]
    exact exact none)
  have isData : dip.addr blocks (some (off / BSIZE)) = 0 ↔ ¬off / BSIZE * BSIZE < off := not_iff_not.1 (by
    rw [not_not]
    exact exact (some (off / BSIZE)))
  simp only [missing, isIndirect, isData, blocksOf, NDIRECT, BSIZE] at inBlock ⊢
  split <;> split <;> split <;> split <;> omega

theorem Exact.bmap (exact : Exact device.block ip.toDinode off) (metadata : device.Metadata wide)
    (placed : ip.Placed wide device) (positive : 0 < m) (inBlock : off % BSIZE + m ≤ BSIZE)
    (mapped : ip.bmap wide (off / BSIZE) device = some (x, ip', after)) :
    Exact after.block ip'.toDinode (off + m) := by
  rcases bmap_fills wide_valid metadata placed mapped with ⟨⟨_, isAddr, nonzero⟩, same⟩
  rw [← isAddr] at nonzero
  intro place
  by_cases isHere : place = some (off / BSIZE)
  · subst isHere
    simp only [nonzero, Reach, BSIZE, ne_eq, not_false_eq_true, true_iff]
    omega
  cases place with
  | none =>
      by_cases direct : off / BSIZE < NDIRECT
      · rw [same none isHere fun _ => direct, exact none]
        simp only [Reach, NDIRECT, BSIZE] at direct inBlock ⊢
        omega
      · have isEntry := Nat.not_lt.1 direct
        have present : ip'.addr after.block none ≠ 0 :=
          fun absent => nonzero (Dinode.addr_of_no_indirect isEntry absent)
        simp only [present, Reach, NDIRECT, BSIZE, ne_eq, not_false_eq_true, true_iff] at isEntry ⊢
        omega
  | some bn =>
      have differ : bn ≠ off / BSIZE := fun isSame => isHere (congrArg some isSame)
      rw [same (some bn) isHere nofun, exact (some bn)]
      simp only [Reach, BSIZE] at differ inBlock ⊢
      omega

end Space

namespace State

variable {s s' : State} {device after : Device} {b used x : ℕ}

/-- The image, with the bit map that `balloc` would write now. -/
def disk (s : State) : ℕ → BlockData := Function.update s.sectors sb.bmapstart (bitmap s.freeblock)

/-- A device that the kernel has, with this disk. -/
def Shows (s : State) (device : Device) : Prop := device.block = s.disk

/-- The image has its full length and nothing in the blocks that are free. -/
structure Sound (s : State) : Prop where
  length : s.length = FSSIZE
  low : nmeta ≤ s.freeblock
  high : s.freeblock ≤ FSSIZE
  fresh : ∀ b, s.freeblock ≤ b → b < FSSIZE → ∀ i < BSIZE, s.sectors b i = 0

theorem bitmap_succ : bitmap (used + 1) = Bytes.setBit (bitmap used) used := by
  rw [bitmap, List.range_succ, List.foldl_append]
  rfl

theorem bit_bitmap {i : ℕ} : Bytes.bit (bitmap used) i = decide (i < used) := by
  induction used with
  | zero => simp [bitmap, Bytes.bit]
  | succ used ih =>
      rw [bitmap_succ, Bytes.bit_setBit, ih]
      by_cases same : i = used
      · simp [same]
      · have shifted : i < used + 1 ↔ i < used := by omega
        simp [same, shifted]

theorem Shows.inUse (shows : s.Shows device) (below : b < BPB) :
    device.inUse wide b = decide (b < s.freeblock) := by
  have isFirst : wide.bblock b = sb.bmapstart := by
    simp only [Superblock.bblock, Nat.div_eq_of_lt below, Nat.zero_add]
    rfl
  rw [Device.inUse, isFirst, shows, disk, update_self, Nat.mod_eq_of_lt below, bit_bitmap]

theorem Shows.metadata (shows : s.Shows device) (sound : s.Sound) : device.Metadata wide := by
  intro b isMeta
  have low := sound.low
  rw [wide_nmeta] at isMeta
  rw [nmeta_eq] at low isMeta
  have below : b < BPB := by
    simp only [BPB, BSIZE]
    omega
  rw [shows.inUse below, decide_eq_true_eq]
  omega

theorem freeBit_eq : device.freeBit wide = ((List.range' 0 BPB).find? fun bi =>
    decide (bi < FSSIZE ∧ Bytes.bit (device.block sb.bmapstart) bi = false)).map fun bi => (0, bi) := by
  have parts : List.range' 0 ((wide.size + BPB - 1) / BPB) BPB = [0] := by decide
  have isFirst : wide.bblock 0 = sb.bmapstart := by decide
  rw [Device.freeBit, parts, List.findSome?_singleton, isFirst]
  simp only [Nat.zero_add]
  rfl

theorem Shows.balloc (shows : s.Shows device) (sound : s.Sound) (room : s.freeblock < FSSIZE) :
    ∃ after, device.balloc wide = some (s.freeblock, after) ∧
      Shows { s with freeblock := s.freeblock + 1 } after := by
  have low := sound.low
  rw [nmeta_eq] at low
  have isMap : device.block sb.bmapstart = bitmap s.freeblock := by
    rw [shows, disk, update_self]
  have found : device.freeBit wide = some (0, s.freeblock) := by
    rw [freeBit_eq, isMap, List.find?_range'_eq_some.2, Option.map_some]
    refine ⟨?_, ?_, ?_⟩
    · simp [bit_bitmap, room]
    · refine List.mem_range'.2 ⟨s.freeblock, ?_, by omega⟩
      simp only [FSSIZE, BPB, BSIZE] at room ⊢
      omega
    · intro j _ below
      simp [bit_bitmap, below]
  have isFirst : wide.bblock 0 = sb.bmapstart := by decide
  refine ⟨(device.logWrite sb.bmapstart (Bytes.setBit (device.block sb.bmapstart) s.freeblock)).bzero
    s.freeblock, ?_, ?_⟩
  · rw [Device.balloc, found, Option.map_some]
    simp only [Nat.zero_add, isFirst]
  have differ : s.freeblock ≠ sb.bmapstart := by
    rw [bmapstart_eq]
    omega
  funext c
  rw [disk]
  by_cases isNew : c = s.freeblock
  · have isZero : Bytes.store (s.sectors s.freeblock) 0 BSIZE (fun _ => 0) = s.sectors s.freeblock := by
      funext i
      by_cases inside : i < BSIZE
      · rw [sound.fresh _ (Nat.le_refl _) room i inside]
        simp [Bytes.store, inside]
      · exact Bytes.store_of_not_mem (by omega)
    rw [isNew, update_of_ne differ, Device.bzero, Device.block_logWrite_self,
      Device.block_logWrite_of_ne differ, shows, disk, update_of_ne differ]
    exact isZero
  · rw [Device.bzero, Device.block_logWrite_of_ne isNew]
    by_cases isBitmap : c = sb.bmapstart
    · rw [isBitmap, Device.block_logWrite_self, update_self, isMap, bitmap_succ]
    · rw [Device.block_logWrite_of_ne isBitmap, update_of_ne isBitmap, shows, disk,
        update_of_ne isBitmap]

theorem Shows.balloc_none (shows : s.Shows device) (full : s.freeblock = FSSIZE) :
    device.balloc wide = none := by
  have isMap : device.block sb.bmapstart = bitmap s.freeblock := by
    rw [shows, disk, update_self]
  rw [Device.balloc, Option.map_eq_none_iff, freeBit_eq, Option.map_eq_none_iff, List.find?_eq_none, isMap]
  intro bi _
  simp only [bit_bitmap, full, decide_eq_true_eq, not_and, decide_eq_false_iff_not, not_not]
  exact fun below => below

/-! ## Sectors -/

theorem Sound.rsect (sound : s.Sound) (below : x < FSSIZE) : s.rsect x = some (s.sectors x) := by
  rw [State.rsect, sound.length, if_pos below]

theorem Sound.rsect_none (sound : s.Sound) : s.rsect FSSIZE = none := by
  rw [State.rsect, sound.length, if_neg (Nat.lt_irrefl _)]

theorem Sound.take (sound : s.Sound) (room : s.freeblock < FSSIZE) :
    Sound { s with freeblock := s.freeblock + 1 } where
  length := sound.length
  low := Nat.le_succ_of_le sound.low
  high := room
  fresh := fun b free => sound.fresh b (Nat.le_of_succ_le free)

theorem Sound.wsect {buf : BlockData} (sound : s.Sound) (below : x < s.freeblock) :
    (s.wsect x buf).Sound where
  length := by
    have high := sound.high
    have isLength : (s.wsect x buf).length = max s.length (x + 1) := rfl
    rw [isLength, sound.length]
    omega
  low := sound.low
  high := sound.high
  fresh := by
    intro b free inside i iInside
    have differ : b ≠ x := by
      have isFree : s.freeblock ≤ b := free
      omega
    have isOld : (s.wsect x buf).sectors b = s.sectors b := update_of_ne differ ..
    rw [isOld]
    exact sound.fresh b free inside i iInside

theorem Shows.wsect {buf : BlockData} (shows : s.Shows device) (notMap : x ≠ sb.bmapstart) :
    (s.wsect x buf).Shows (device.logWrite x buf) := by
  funext c
  have isDisk : (s.wsect x buf).disk = update (update s.sectors x buf) sb.bmapstart
    (bitmap s.freeblock) := rfl
  rw [isDisk, update_comm notMap]
  by_cases same : c = x
  · rw [same, Device.block_logWrite_self, update_self]
  · rw [Device.block_logWrite_of_ne same, update_of_ne same, shows, disk]

theorem Shows.block (shows : s.Shows device) (notMap : x ≠ sb.bmapstart) :
    device.block x = s.sectors x := by
  rw [shows, disk, update_of_ne notMap]

theorem Shows.addr_range {dip : Dinode} {place : Option ℕ} (shows : s.Shows device)
    (placed : dip.Placed wide device) (present : dip.addr device.block place ≠ 0) :
    nmeta ≤ dip.addr device.block place ∧ dip.addr device.block place < FSSIZE ∧
      dip.addr device.block place < s.freeblock := by
  rcases placed.used place present with ⟨isData, below, isUsed⟩
  rw [wide_nmeta] at isData
  have inFirst : dip.addr device.block place < BPB := Nat.lt_trans below (by decide)
  rw [shows.inUse inFirst, decide_eq_true_eq] at isUsed
  exact ⟨isData, below, isUsed⟩

theorem ne_bmapstart (isData : nmeta ≤ x) : x ≠ sb.bmapstart := by
  rw [nmeta_eq] at isData
  rw [bmapstart_eq]
  omega

/-! ## The block at an index -/

/-- An inode in memory, with another copy of the inode on disk. -/
def withDinode (ip : Inode) (dip : Dinode) : Inode := { ip with toDinode := dip }

variable {ip : Inode} {fbn : ℕ}

/-- Some blocks have been taken, on the disk of the kernel as well. -/
structure Took (s s' : State) (after : Device) (count : ℕ) : Prop where
  sound : s'.Sound
  shows : s'.Shows after
  freeblock : s'.freeblock = s.freeblock + count
  freeinode : s'.freeinode = s.freeinode

/-- An address that `mkfs` takes from `freeblock`, as the kernel does, if there is a block left. -/
theorem takeAddr_bmapAddr (sound : s.Sound) (shows : s.Shows device) (ip : Inode)
    (i : Fin (NDIRECT + 1)) :
    (∃ device', ip.bmapAddr wide i device = some (((s.takeAddr ip.toDinode i).1.addrs i).toNat,
        withDinode ip (s.takeAddr ip.toDinode i).1, device') ∧
      s.Took (s.takeAddr ip.toDinode i).2 device' (if (ip.addrs i).toNat = 0 then 1 else 0)) ∨
    (ip.bmapAddr wide i device = none ∧ ((s.takeAddr ip.toDinode i).1.addrs i).toNat = FSSIZE ∧
      (s.takeAddr ip.toDinode i).2.rsect FSSIZE = none ∧ s.freeblock = FSSIZE ∧
      (ip.addrs i).toNat = 0) := by
  by_cases absent : ip.addrs i = 0
  · have isZero : (ip.addrs i).toNat = 0 := by
      rw [absent]
      rfl
    have isNumber : (UInt32.ofNat s.freeblock).toNat = s.freeblock := by
      have high := sound.high
      rw [UInt32.toNat_ofNat', Nat.mod_eq_of_lt]
      simp only [FSSIZE] at high
      omega
    have isTaken : ((s.takeAddr ip.toDinode i).1.addrs i).toNat = s.freeblock := by
      simp only [takeAddr, if_pos absent, update_self]
      exact isNumber
    rw [isTaken]
    by_cases room : s.freeblock < FSSIZE
    · left
      rcases shows.balloc sound room with ⟨device', allocated, showsAfter⟩
      refine ⟨device', ?_, ?_⟩
      · simp only [Inode.bmapAddr, if_pos absent, allocated, Option.map_some, takeAddr, Inode.setAddr,
          withDinode]
      · simp only [takeAddr, if_pos absent, if_pos isZero]
        exact ⟨sound.take room, showsAfter, rfl, rfl⟩
    · right
      have high := sound.high
      have full : s.freeblock = FSSIZE := by omega
      refine ⟨?_, full, ?_, full, isZero⟩
      · simp only [Inode.bmapAddr, if_pos absent, shows.balloc_none full, Option.map_none]
      · simp only [takeAddr, if_pos absent]
        exact sound.rsect_none
  · left
    refine ⟨device, ?_, ?_⟩
    · simp only [Inode.bmapAddr, if_neg absent, takeAddr, withDinode]
    · have nonzero : ¬(ip.addrs i).toNat = 0 := fun isZero => absent (UInt32.toNat_inj.1 isZero)
      rw [if_neg nonzero, takeAddr, if_neg absent]
      exact ⟨sound, shows, rfl, rfl⟩

theorem takeEntry_bmapEntry {addr i : ℕ} (sound : s.Sound) (shows : s.Shows device)
    (isData : nmeta ≤ addr) (used : addr < s.freeblock) :
    ∃ x s', s.takeEntry addr i = some (x, s') ∧
      ((∃ device', Inode.bmapEntry wide addr i device = some (x, device') ∧
          s.Took s' device' (if (uint (device.block addr) (4 * i)).toNat = 0 then 1 else 0)) ∨
        (Inode.bmapEntry wide addr i device = none ∧ x = FSSIZE ∧ s'.rsect FSSIZE = none ∧
          s.freeblock = FSSIZE ∧ (uint (device.block addr) (4 * i)).toNat = 0)) := by
  have high := sound.high
  have notMap := ne_bmapstart isData
  have isIndirect : s.rsect addr = some (s.sectors addr) := sound.rsect (by omega)
  have isBlock : device.block addr = s.sectors addr := shows.block notMap
  rw [isBlock]
  by_cases absent : uint (s.sectors addr) (4 * i) = 0
  · have isZero : (uint (s.sectors addr) (4 * i)).toNat = 0 := by
      rw [absent]
      rfl
    refine ⟨s.freeblock, wsect { s with freeblock := s.freeblock + 1 } addr
      (Bytes.store (s.sectors addr) (4 * i) 4 (Bytes.byte s.freeblock)), ?_, ?_⟩
    · simp only [takeEntry, isIndirect, Option.bind_eq_bind, Option.bind_some, if_pos absent]
      rfl
    by_cases room : s.freeblock < FSSIZE
    · left
      rcases shows.balloc sound room with ⟨device', allocated, showsAfter⟩
      have isBlockAfter : device'.block addr = s.sectors addr := showsAfter.block notMap
      refine ⟨_, ?_, (sound.take room).wsect (Nat.lt_succ_of_lt used), showsAfter.wsect notMap, ?_, rfl⟩
      · simp only [Inode.bmapEntry, isBlock, if_pos absent, allocated, Option.map_some, isBlockAfter]
      · rw [if_pos isZero]
        rfl
    · right
      have full : s.freeblock = FSSIZE := by omega
      refine ⟨?_, full, ?_, full, isZero⟩
      · simp only [Inode.bmapEntry, isBlock, if_pos absent, shows.balloc_none full, Option.map_none]
      · have short : ¬FSSIZE < max s.length (addr + 1) := by
          rw [sound.length]
          omega
        exact if_neg short
  · have nonzero : ¬(uint (s.sectors addr) (4 * i)).toNat = 0 :=
      fun isZero => absent (UInt32.toNat_inj.1 isZero)
    refine ⟨(uint (s.sectors addr) (4 * i)).toNat, s, ?_, Or.inl ⟨device, ?_, sound, shows, ?_, rfl⟩⟩
    · simp only [takeEntry, isIndirect, Option.bind_eq_bind, Option.bind_some, if_neg absent]
      rfl
    · simp only [Inode.bmapEntry, isBlock, if_neg absent]
    · rw [if_neg nonzero, Nat.add_zero]

theorem Took.trans {later : State} {m n : ℕ} (first : s.Took s' device m)
    (second : s'.Took later after n) : s.Took later after (m + n) where
  sound := second.sound
  shows := second.shows
  freeblock := by rw [second.freeblock, first.freeblock, Nat.add_assoc]
  freeinode := second.freeinode.trans first.freeinode

theorem Took.wsect {n : ℕ} (took : s.Took s' after n) (buf : BlockData) (isData : nmeta ≤ x)
    (used : x < s'.freeblock) : s.Took (s'.wsect x buf) (after.logWrite x buf) n where
  sound := took.sound.wsect used
  shows := took.shows.wsect (ne_bmapstart isData)
  freeblock := took.freeblock
  freeinode := took.freeinode

theorem Shows.range_of_bmap {ip' : Inode} (shows : s.Shows device) (sound : s.Sound)
    (placed : ip.Placed wide device) (mapped : ip.bmap wide fbn device = some (x, ip', after))
    (showsAfter : s'.Shows after) : nmeta ≤ x ∧ x < FSSIZE ∧ x < s'.freeblock := by
  rcases bmap_filled wide_valid (shows.metadata sound) placed mapped with ⟨filled, rfl, nonzero⟩
  exact showsAfter.addr_range filled.extended.placed nonzero

/-- `mkfs` finds the block of a file as `bmap` does, and takes the blocks that are missing. -/
theorem locate_bmap (sound : s.Sound) (shows : s.Shows device) (placed : ip.Placed wide device)
    (inside : fbn < MAXFILE) :
    (s.locate ip.toDinode fbn = none ∧ ip.bmap wide fbn device = none ∧
      FSSIZE < s.freeblock + missing device.block ip.toDinode fbn) ∨
    ∃ x din' s' device', s.locate ip.toDinode fbn = some ((x, s'.sectors x), din', s') ∧
      ip.bmap wide fbn device = some (x, withDinode ip din', device') ∧ nmeta ≤ x ∧ x < s'.freeblock ∧
      s.Took s' device' (missing device.block ip.toDinode fbn) := by
  by_cases direct : fbn < NDIRECT
  · have isMissing : missing device.block ip.toDinode fbn =
        if (ip.addrs ⟨fbn, Nat.lt_succ_of_lt direct⟩).toNat = 0 then 1 else 0 := by
      rw [missing, if_neg (fun entry => absurd direct (Nat.not_lt.2 entry.1)), Nat.zero_add,
        Dinode.addr_direct direct]
    rw [isMissing]
    rcases takeAddr_bmapAddr sound shows ip ⟨fbn, Nat.lt_succ_of_lt direct⟩ with
      ⟨device', mapped, took⟩ | ⟨panics, isLast, unread, full, isZero⟩
    · rw [← show ip.bmap wide fbn device = ip.bmapAddr wide ⟨fbn, Nat.lt_succ_of_lt direct⟩ device from
        dif_pos direct] at mapped
      rcases shows.range_of_bmap sound placed mapped took.shows with ⟨isData, below, isUsed⟩
      refine Or.inr ⟨_, _, _, device', ?_, mapped, isData, isUsed, took⟩
      simp only [locate, dif_pos direct, took.sound.rsect below, Option.bind_eq_bind, Option.bind_some]
      rfl
    · left
      refine ⟨?_, ?_, ?_⟩
      · simp only [locate, dif_pos direct, isLast, unread, Option.bind_eq_bind, Option.bind_none]
      · rw [Inode.bmap, dif_pos direct]
        exact panics
      · rw [if_pos isZero, full]
        exact Nat.lt_succ_self _
  · have isEntry := Nat.not_lt.1 direct
    have below : fbn - NDIRECT < NINDIRECT := by
      simp only [MAXFILE] at inside
      omega
    have isMissing : missing device.block ip.toDinode fbn = (if ip.indirect = 0 then 1 else 0) +
        if ip.addr device.block (some fbn) = 0 then 1 else 0 := by
      simp only [missing, isEntry, true_and]
      rfl
    rw [isMissing]
    have addrs := takeAddr_bmapAddr sound shows ip (Fin.last NDIRECT)
    simp only [locate, Inode.bmap, dif_neg direct, if_pos below, Option.bind_eq_bind]
    generalize s.takeAddr ip.toDinode (Fin.last NDIRECT) = result at addrs ⊢
    rcases result with ⟨din, s₁⟩
    rcases addrs with ⟨middle, first, took⟩ | ⟨panics, isLast, unread, full, isZero⟩
    · rcases bmapAddr_last wide_valid (shows.metadata sound) placed first with
        ⟨filled, _, present, sameData⟩
      have isAddr : (uint (middle.block din.indirect) (4 * (fbn - NDIRECT))).toNat =
          ip.addr device.block (some fbn) := by
        rw [← sameData fbn]
        exact (Dinode.addr_entry isEntry inside present).symm
      have range : nmeta ≤ din.indirect ∧ din.indirect < FSSIZE ∧ din.indirect < s₁.freeblock :=
        @Shows.addr_range s₁ middle din none took.shows filled.extended.placed present
      rcases @takeEntry_bmapEntry s₁ middle din.indirect (fbn - NDIRECT) took.sound took.shows range.1
        range.2.2 with ⟨x, s', taken, entries⟩
      rw [isAddr] at entries
      rw [Dinode.indirect] at taken entries
      simp only [first, taken, Option.bind_some]
      rcases entries with ⟨device', second, tookToo⟩ | ⟨panics, isLast, unread, full, isZero⟩
      · right
        have isMapped : ip.bmap wide fbn device = some (x, withDinode ip din, device') := by
          simp only [Inode.bmap, dif_neg direct, if_pos below, Option.bind_eq_bind, first,
            Option.bind_some, second]
          rfl
        rcases shows.range_of_bmap sound placed isMapped tookToo.shows with ⟨isData, inImage, isUsed⟩
        refine ⟨x, din, s', device', ?_, ?_, isData, isUsed, took.trans tookToo⟩
        · rw [tookToo.sound.rsect inImage]
          rfl
        · rw [second]
          rfl
      · left
        rw [panics, isLast, unread, if_pos isZero]
        refine ⟨rfl, rfl, ?_⟩
        have isFull : s₁.freeblock = s.freeblock + if ip.indirect = 0 then 1 else 0 := took.freeblock
        omega
    · left
      have isAbsent : ip.indirect = 0 := isZero
      simp only [takeEntry, panics, isLast, unread, Option.bind_eq_bind, Option.bind_none, if_pos isAbsent]
      refine ⟨trivial, trivial, ?_⟩
      omega

/-! ## The loop -/

variable {p : List UInt8} {src : ℕ → UInt8} {n tot off fuel inum : ℕ}

theorem chunk_eq (isLength : tot + p.length = n) :
    min p.length ((off / BSIZE + 1) * BSIZE - off) = Inode.chunk n tot off ∧
      off - off / BSIZE * BSIZE = off % BSIZE := by
  simp only [Inode.chunk, BSIZE]
  omega

theorem appendLoop_copyIn (isSrc : ∀ i < p.length, p.getD i 0 = src (tot + i))
    (isLength : tot + p.length = n) (enough : p.length ≤ fuel) (fits : off + p.length ≤ MAXFILE * BSIZE)
    (sound : s.Sound) (shows : s.Shows device) (placed : ip.Placed wide device)
    (exact : Exact device.block ip.toDinode off) :
    (appendLoop fuel p off ip.toDinode s = none ∧
      Inode.copyIn wide src n fuel tot off ip device = none ∧
      FSSIZE < s.freeblock + (blocksOf (off + p.length) - blocksOf off)) ∨
    ∃ din' s' device', appendLoop fuel p off ip.toDinode s = some (off + p.length, din', s') ∧
      Inode.copyIn wide src n fuel tot off ip device = some (withDinode ip din', device') ∧
      Exact device'.block din' (off + p.length) ∧
      s.Took s' device' (blocksOf (off + p.length) - blocksOf off) := by
  induction fuel generalizing p off ip s device tot with
  | zero =>
      have isEmpty : p.length = 0 := by omega
      rw [isEmpty, Nat.add_zero, Nat.sub_self]
      exact Or.inr ⟨ip.toDinode, s, device, rfl, rfl, exact, sound, shows, rfl, rfl⟩
  | succ fuel ih =>
      rw [appendLoop, Inode.copyIn]
      by_cases isEmpty : p.length = 0
      · have finished : ¬tot < n := by omega
        rw [if_pos isEmpty, if_neg finished, isEmpty, Nat.add_zero, Nat.sub_self]
        exact Or.inr ⟨ip.toDinode, s, device, rfl, rfl, exact, sound, shows, rfl, rfl⟩
      · have unfinished : tot < n := by omega
        have inside : off / BSIZE < MAXFILE := by
          simp only [MAXFILE, NDIRECT, NINDIRECT, BSIZE] at fits ⊢
          omega
        have bound := @chunk_le off n tot
        have positive := @chunk_pos off n tot unfinished
        rcases @chunk_eq p n tot off isLength with ⟨isChunk, isOffset⟩
        simp only [if_neg isEmpty, if_pos inside, if_pos unfinished, isChunk, isOffset,
          Option.bind_eq_bind]
        have isMissing := exact.missing_eq positive bound.2
        have grows : blocksOf (off + Inode.chunk n tot off) ≤ blocksOf (off + p.length) :=
          blocksOf_mono (by omega)
        rcases locate_bmap sound shows placed inside with
          ⟨unlocated, panics, full⟩ | ⟨x, din, s₁, middle, located, mapped, isData, isUsed, took⟩
        · left
          simp only [unlocated, Inode.copyChunk, panics, Option.bind_eq_bind, Option.bind_none]
          refine ⟨trivial, trivial, ?_⟩
          omega
        · have sameData : Bytes.store (s₁.sectors x) (off % BSIZE) (Inode.chunk n tot off)
              (fun i => p.getD i 0) = Bytes.store (middle.block x) (off % BSIZE) (Inode.chunk n tot off)
                fun i => src (tot + i) := by
            rw [took.shows.block (ne_bmapstart isData)]
            exact Bytes.store_congr fun i below => isSrc i (by omega)
          have copied : Inode.copyChunk wide src n tot off ip device = some (withDinode ip din,
              middle.logWrite x (Bytes.store (middle.block x) (off % BSIZE) (Inode.chunk n tot off)
                fun i => src (tot + i))) := by
            simp only [Inode.copyChunk, mapped, Option.bind_eq_bind, Option.bind_some]
            rfl
          have written := copyChunk_written wide_valid (shows.metadata sound) placed (by omega) copied
          have isRest : (p.drop (Inode.chunk n tot off)).length = p.length - Inode.chunk n tot off :=
            List.length_drop
          have isSrcRest : ∀ i < (p.drop (Inode.chunk n tot off)).length,
              (p.drop (Inode.chunk n tot off)).getD i 0 = src (tot + Inode.chunk n tot off + i) := by
            intro i below
            rw [List.getD_eq_getElem?_getD, List.getElem?_drop, ← List.getD_eq_getElem?_getD,
              isSrc _ (by omega), Nat.add_assoc]
          have total : off + Inode.chunk n tot off + (p.drop (Inode.chunk n tot off)).length =
              off + p.length := by omega
          have lengthRest : tot + Inode.chunk n tot off + (p.drop (Inode.chunk n tot off)).length = n := by
            omega
          rcases bmap_filled wide_valid (shows.metadata sound) placed mapped with ⟨filled, isAddr, nonzero⟩
          have exactRest : Exact (middle.logWrite x (Bytes.store (middle.block x) (off % BSIZE)
              (Inode.chunk n tot off) fun i => src (tot + i))).block (withDinode ip din).toDinode
              (off + Inode.chunk n tot off) := by
            intro place
            rw [← isAddr] at nonzero ⊢
            rw [filled.extended.placed.addr_logWrite nonzero]
            exact exact.bmap (shows.metadata sound) placed positive bound.2 mapped place
          have tookChunk := took.wsect (Bytes.store (middle.block x) (off % BSIZE) (Inode.chunk n tot off)
            fun i => src (tot + i)) isData isUsed
          have rest := ih isSrcRest lengthRest (by omega) (total.symm ▸ fits) tookChunk.sound
            tookChunk.shows written.extended.placed exactRest
          have isSum : missing device.block ip.toDinode (off / BSIZE) +
              (blocksOf (off + p.length) - blocksOf (off + Inode.chunk n tot off)) =
              blocksOf (off + p.length) - blocksOf off := by omega
          simp only [located, copied, Option.bind_some, sameData]
          rw [total] at rest
          rw [← isSum]
          rcases rest with ⟨fails, panics, full⟩ | ⟨din', s', device', appended, copiedRest, exactAfter, tookRest⟩
          · refine Or.inl ⟨fails, panics, ?_⟩
            rw [tookChunk.freeblock] at full
            omega
          · exact Or.inr ⟨din', s', device', appended, copiedRest, exactAfter, tookChunk.trans tookRest⟩

theorem appendLoop_fits {din : Dinode} {result : ℕ × Dinode × State} (enough : p.length ≤ fuel)
    (below : off ≤ MAXFILE * BSIZE) (appended : appendLoop fuel p off din s = some result) :
    off + p.length ≤ MAXFILE * BSIZE := by
  induction fuel generalizing p off din s with
  | zero => omega
  | succ fuel ih =>
      rw [appendLoop] at appended
      by_cases isEmpty : p.length = 0
      · omega
      · rw [if_neg isEmpty] at appended
        by_cases inside : off / BSIZE < MAXFILE
        · simp only [if_pos inside, Option.bind_eq_bind, Option.bind_eq_some_iff] at appended
          rcases appended with ⟨⟨⟨x, buf⟩, din, s⟩, _, rest⟩
          have isRest := @List.length_drop _ (min p.length ((off / BSIZE + 1) * BSIZE - off)) p
          have bound : off + min p.length ((off / BSIZE + 1) * BSIZE - off) ≤ MAXFILE * BSIZE := by
            simp only [MAXFILE, NDIRECT, NINDIRECT, BSIZE] at inside below ⊢
            omega
          have positive : 0 < min p.length ((off / BSIZE + 1) * BSIZE - off) := by
            simp only [BSIZE]
            omega
          have later := ih (by omega) bound rest
          omega
        · simp only [if_neg inside] at appended
          contradiction

/-! ## Inodes -/

def image (s : State) : Device where
  block := s.disk
  logged := []

theorem shows_image (s : State) : s.Shows s.image := rfl

def dinode (s : State) (inum : ℕ) : Dinode := s.image.dinode wide inum

/-- The inode when the kernel has read it. -/
def inode (s : State) (inum : ℕ) : Inode where
  toDinode := s.dinode inum
  dev := ROOTDEV
  inum := inum
  ref := 1
  holder := none
  valid := true

theorem iblock_ne_bmapstart (isInode : inum < wide.ninodes) : wide.iblock inum ≠ sb.bmapstart :=
  Nat.ne_of_lt (wide_valid.inodes inum isInode)

theorem Sound.iblock_lt (sound : s.Sound) (isInode : inum < wide.ninodes) :
    wide.iblock inum < s.freeblock := by
  have before := wide_valid.inodes inum isInode
  have isStart : wide.bmapstart = 58 := bmapstart_eq
  have low := sound.low
  rw [isStart] at before
  rw [nmeta_eq] at low
  omega

theorem Sound.rinode (sound : s.Sound) (isInode : inum < wide.ninodes) :
    s.rinode inum = some (s.dinode inum) := by
  have below := Nat.lt_of_lt_of_le (sound.iblock_lt isInode) sound.high
  have isBlock : s.image.block (wide.iblock inum) = s.sectors (wide.iblock inum) :=
    s.shows_image.block (iblock_ne_bmapstart isInode)
  rw [dinode, Device.dinode, isBlock, State.rinode]
  rw [show s.rsect (sb.iblock inum) = some (s.sectors (wide.iblock inum)) from sound.rsect below]
  rfl

theorem Sound.winode (sound : s.Sound) (shows : s.Shows device) (isInode : inum < wide.ninodes)
    (dip : Dinode) : ∃ s', s.winode inum dip = some s' ∧
      s.Took s' (device.setDinode wide inum dip) 0 := by
  have used := sound.iblock_lt isInode
  have below := Nat.lt_of_lt_of_le used sound.high
  have notMap := iblock_ne_bmapstart isInode
  refine ⟨s.wsect (wide.iblock inum) (Bytes.store (s.sectors (wide.iblock inum))
    (inum % IPB * DINODESIZE) DINODESIZE dip.byte), ?_, sound.wsect used, ?_, rfl, rfl⟩
  · rw [State.winode]
    rw [show s.rsect (sb.iblock inum) = some (s.sectors (wide.iblock inum)) from sound.rsect below]
    rfl
  · rw [Device.setDinode, shows.block notMap]
    exact shows.wsect notMap

theorem iappend_writei (sound : s.Sound) (isInode : inum < wide.ninodes)
    (placed : (s.dinode inum).Placed wide s.image) (nonempty : 0 < p.length)
    (notDev : (s.dinode inum).type ≠ T_DEV)
    (fits : (s.dinode inum).size.toNat + p.length ≤ MAXFILE * BSIZE)
    (exact : Exact s.image.block (s.dinode inum) (s.dinode inum).size.toNat) (devsw : Devsw) :
    (s.iappend inum p = none ∧ (s.inode inum).writei wide devsw (fun i => p.getD i 0)
      (s.dinode inum).size.toNat p.length s.image = none ∧
      FSSIZE < s.freeblock + (blocksOf ((s.dinode inum).size.toNat + p.length) -
        blocksOf (s.dinode inum).size.toNat)) ∨
    ∃ s' ip' after, s.iappend inum p = some s' ∧
      (s.inode inum).writei wide devsw (fun i => p.getD i 0) (s.dinode inum).size.toNat p.length
        s.image = some ((p.length : ℤ), ip', after) ∧
      Exact after.block ip'.toDinode ((s.dinode inum).size.toNat + p.length) ∧
      s.Took s' after (blocksOf ((s.dinode inum).size.toNat + p.length) -
        blocksOf (s.dinode inum).size.toNat) := by
  have isWrite := @writei_eq wide s.image (s.inode inum) (s.dinode inum).size.toNat p.length
    (fun i => p.getD i 0) devsw notDev (Nat.le_refl _) fits
  have isSrc : ∀ i < p.length, p.getD i 0 = p.getD (0 + i) 0 := fun i _ => by rw [Nat.zero_add]
  have small : toInt p.length = p.length := toInt_small (by omega)
  rcases @appendLoop_copyIn s s.image (s.inode inum) p (fun i => p.getD i 0) p.length 0
    (s.dinode inum).size.toNat p.length isSrc (Nat.zero_add _) (Nat.le_refl _) fits sound
    s.shows_image placed exact with
    ⟨fails, panics, full⟩ |
    ⟨din, s₁, middle, appended, copied, exactMiddle, took⟩
  · left
    rw [isWrite, panics]
    refine ⟨?_, rfl, full⟩
    simp only [iappend, sound.rinode isInode, Option.bind_eq_bind, Option.bind_some]
    rw [show appendLoop p.length p (s.dinode inum).size.toNat (s.dinode inum) s = none from fails]
    rfl
  · right
    have written := copyIn_written wide_valid (s.shows_image.metadata sound) placed (Nat.sub_le _ _) copied
    rcases written.same with ⟨addrs, isIp⟩
    have sameSize : din.size = (s.dinode inum).size := congrArg (fun ip => ip.toDinode.size) isIp
    have grows : 0 < p.length ∧ (withDinode (s.inode inum) din).size.toNat <
        (s.dinode inum).size.toNat + p.length := by
      refine ⟨nonempty, ?_⟩
      change din.size.toNat < _
      rw [sameSize]
      omega
    rcases took.sound.winode took.shows isInode
      { din with size := UInt32.ofNat ((s.dinode inum).size.toNat + p.length) } with ⟨s', stored, tookNothing⟩
    refine ⟨s', withDinode (s.inode inum)
      { din with size := UInt32.ofNat ((s.dinode inum).size.toNat + p.length) }, _, ?_, ?_, ?_,
      took.trans tookNothing⟩
    · simp only [iappend, sound.rinode isInode, Option.bind_eq_bind, Option.bind_some]
      rw [show appendLoop p.length p (s.dinode inum).size.toNat (s.dinode inum) s = _ from appended]
      exact stored
    · rw [isWrite, copied, Option.map_some]
      simp only [Inode.writeEnd, if_pos grows, small]
      rfl
    · intro place
      have isAddr : din.addr (middle.setDinode wide inum
          { din with size := UInt32.ofNat ((s.dinode inum).size.toNat + p.length) }).block place =
          din.addr middle.block place := addr_setDinode wide_valid isInode written.extended.placed
      rw [← exactMiddle place, ← isAddr]
      exact Iff.rfl

end State

end Xv6.Mkfs
