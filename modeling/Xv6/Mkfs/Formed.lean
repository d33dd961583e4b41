import Xv6.Mkfs.Program

/-!
# The finished image

What the image of a run of `mkfs` contains: the inodes with their blocks, each block at one place,
and the bit map. Its inodes have no holes unless the root directory fills its last block: the size
of the root directory is always rounded up to the end of a block after the last entry.
-/

namespace Xv6.Mkfs

open Function

def State.device (s : State) : Device where
  block := s.sectors
  logged := []

/-- The size that an inode has at the end. -/
def finalSize (files : List File) (inum : ℕ) : ℕ :=
  if inum = ROOTINO then ((contentsOf files inum).length / BSIZE + 1) * BSIZE
  else (contentsOf files inum).length

/-- The inode that a file has at the end. -/
structure Stored (files : List File) (final : State) (inum : ℕ) : Prop where
  type : (final.device.dinode sb inum).type = kind inum
  nlink : (final.device.dinode sb inum).nlink = 1
  size : (final.device.dinode sb inum).size.toNat = finalSize files inum
  bytes : ∀ i, (final.device.dinode sb inum).byteAt final.sectors i = (contentsOf files inum).getD i 0

structure Finished (files : List File) (final : State) : Prop where
  count : final.freeinode = files.length + 2
  stored : ∀ inum, 0 < inum → inum < final.freeinode → Stored files final inum
  placed : ∀ inum, 0 < inum → inum < final.freeinode →
    (final.device.dinode sb inum).Placed wide final.device
  exact : ∀ inum, 0 < inum → inum < final.freeinode →
    Exact final.sectors (final.device.dinode sb inum) (contentsOf files inum).length
  apart : ∀ i j, 0 < i → i < final.freeinode → 0 < j → j < final.freeinode → i ≠ j →
    (final.device.dinode sb i).Apart final.sectors (final.device.dinode sb j)
  unborn : ∀ inum, inum = 0 ∨ final.freeinode ≤ inum → inum < wide.ninodes →
    final.device.dinode sb inum = zeroInode
  fits : ∀ inum, 0 < inum → inum < final.freeinode → (contentsOf files inum).length ≤ MAXFILE * BSIZE
  bitmap : final.sectors sb.bmapstart = State.bitmap final.freeblock
  metadata : final.device.Metadata wide

theorem State.block_bmapstart (s : State) : s.image.block sb.bmapstart = bitmap s.freeblock := by
  have isBlock : s.image.block = update s.sectors sb.bmapstart (bitmap s.freeblock) := rfl
  rw [isBlock, update_self]

section Rounding

variable {s final : State} {inum : ℕ}
  (isFinal : final.sectors = (s.image.setDinode wide ROOTINO (rounded (s.dinode ROOTINO))).block)

include isFinal

theorem dinode_final : final.device.dinode sb inum =
    { s.dinode inum with
      size := if inum = ROOTINO then (rounded (s.dinode inum)).size else (s.dinode inum).size } := by
  have isDinode : final.device.dinode sb inum =
      (s.image.setDinode wide ROOTINO (rounded (s.dinode ROOTINO))).dinode wide inum := by
    rw [Device.dinode, Device.dinode, ← isFinal]
    rfl
  rw [isDinode]
  by_cases isRoot : inum = ROOTINO
  · rw [if_pos isRoot, isRoot, Device.dinode_setDinode]
    rfl
  · rw [if_neg isRoot, Device.dinode_setDinode_of_ne isRoot]
    rfl

theorem block_final {x : ℕ} (isData : nmeta ≤ x) : final.sectors x = s.image.block x := by
  rw [isFinal]
  exact Device.block_setDinode wide_valid (by decide) (by rw [wide_nmeta]; exact isData)

theorem bmap_final : final.sectors sb.bmapstart = State.bitmap s.freeblock := by
  have differ : sb.bmapstart ≠ wide.iblock ROOTINO := (State.iblock_ne_bmapstart (by decide)).symm
  rw [isFinal, Device.setDinode, Device.block_logWrite_of_ne differ]
  exact s.block_bmapstart

theorem inUse_final {b : ℕ} (below : b < BPB) : final.device.inUse wide b = s.image.inUse wide b := by
  have isFirst : wide.bblock b = sb.bmapstart := by
    simp only [Superblock.bblock, Nat.div_eq_of_lt below, Nat.zero_add]
    rfl
  apply Device.inUse_congr
  rw [isFirst]
  exact (bmap_final isFinal).trans s.block_bmapstart.symm

section

variable (placed : (s.dinode inum).Placed wide s.image)

include placed

theorem addr_final (place : Option ℕ) : (final.device.dinode sb inum).addr final.sectors place =
      (s.dinode inum).addr s.image.block place := by
  apply Dinode.addr_congr (by rw [dinode_final isFinal])
  intro present i _
  have isData := (placed.indirect present).1
  rw [wide_nmeta] at isData
  rw [block_final isFinal isData]

theorem placed_final : (final.device.dinode sb inum).Placed wide final.device where
  used := by
    intro place present
    have isAddr : (final.device.dinode sb inum).addr final.device.block place = _ :=
      addr_final isFinal placed place
    rw [isAddr] at present ⊢
    rcases placed.used place present with ⟨isData, below, isUsed⟩
    rw [inUse_final isFinal (Nat.lt_trans below (by decide))]
    exact ⟨isData, below, isUsed⟩
  distinct := by
    intro place other present same
    have isAddr : ∀ place, (final.device.dinode sb inum).addr final.device.block place = _ :=
      addr_final isFinal placed
    rw [isAddr] at present
    rw [isAddr, isAddr] at same
    exact placed.distinct place other present same

theorem byteAt_final (i : ℕ) :
    (final.device.dinode sb inum).byteAt final.sectors i = (s.dinode inum).byteAt s.image.block i := by
  rw [Dinode.byteAt, Dinode.byteAt, addr_final isFinal placed]
  by_cases absent : (s.dinode inum).addr s.image.block (some (i / BSIZE)) = 0
  · rw [if_pos absent, if_pos absent]
  · have isData := (placed.used _ absent).1
    rw [wide_nmeta] at isData
    rw [if_neg absent, if_neg absent, block_final isFinal isData]

end

end Rounding

theorem toNat_size_rounded {din : Dinode} {n : ℕ} (isSize : din.size.toNat = n)
    (fits : n ≤ MAXFILE * BSIZE) : (rounded din).size.toNat = (n / BSIZE + 1) * BSIZE := by
  have isRounded : (rounded din).size = UInt32.ofNat ((n / BSIZE + 1) * BSIZE) := by
    rw [← isSize]
    rfl
  rw [isRounded, UInt32.toNat_ofNat', Nat.mod_eq_of_lt]
  simp only [MAXFILE, NDIRECT, NINDIRECT, BSIZE] at fits ⊢
  omega

theorem main_finished {files : List File} {final : State} (few : files.length ≤ 206)
    (made : State.main files = some final) : Finished files final := by
  rcases main_spec few with ⟨fails, _⟩ | ⟨s, _, isMade, built, isCount, isFinal, sameInodes, sameBlocks⟩
  · rw [fails] at made
    contradiction
  rw [made, Option.some.injEq] at isMade
  subst isMade
  have isWide : wide.ninodes = 208 := by decide
  have isMin : min s.freeinode wide.ninodes = s.freeinode := Nat.min_eq_left (by omega)
  have fits := built.fits
  have formed := built.files
  rw [isMin] at fits formed
  have holds : ∀ inum, 0 < inum → inum < final.freeinode → Holds s.image inum (contentsOf files inum) := by
    rw [sameInodes]
    exact formed.holds
  constructor
  · rw [sameInodes, isCount]
  · intro inum isFile below
    have held := holds inum isFile below
    have isDinode := @dinode_final s final inum isFinal
    constructor
    · rw [isDinode]
      exact held.type
    · rw [isDinode]
      exact held.nlink
    · rw [isDinode, finalSize]
      split
      · rw [sameInodes] at below
        exact toNat_size_rounded held.size (fits inum isFile below)
      · exact held.size
    · intro i
      rw [byteAt_final isFinal held.placed]
      exact held.bytes i
  · exact fun inum isFile below => placed_final isFinal (holds inum isFile below).placed
  · intro inum isFile below place
    rw [addr_final isFinal (holds inum isFile below).placed]
    exact (holds inum isFile below).exact place
  · intro i j iFile iBelow jFile jBelow differ place place'
    rw [addr_final isFinal (holds i iFile iBelow).placed, addr_final isFinal (holds j jFile jBelow).placed]
    rw [sameInodes] at iBelow jBelow
    exact formed.apart i j iFile iBelow jFile jBelow differ place place'
  · intro inum isUnborn isInode
    have notRoot : inum ≠ ROOTINO := by
      simp only [ROOTINO]
      omega
    rw [dinode_final isFinal, if_neg notRoot]
    rw [sameInodes] at isUnborn
    exact formed.unborn inum isUnborn isInode
  · rw [sameInodes]
    exact fits
  · rw [sameBlocks]
    exact bmap_final isFinal
  · intro b isMeta
    rw [inUse_final isFinal]
    · exact s.shows_image.metadata built.sound b isMeta
    · rw [wide_nmeta, nmeta_eq] at isMeta
      simp only [BPB, BSIZE]
      omega

/-! ## Every inode and every block -/

structure WellFormed (files : List File) (final : State) : Prop where
  count : final.freeinode = files.length + 2
  inside : ∀ inum, 0 < inum → inum < final.freeinode →
    sb.inodestart ≤ sb.iblock inum ∧ sb.iblock inum < sb.bmapstart
  stored : ∀ inum, 0 < inum → inum < final.freeinode → Stored files final inum
  range : ∀ inum place, 0 < inum → inum < final.freeinode →
    (final.device.dinode sb inum).addr final.sectors place ≠ 0 →
    nmeta ≤ (final.device.dinode sb inum).addr final.sectors place ∧
      (final.device.dinode sb inum).addr final.sectors place < FSSIZE
  once : ∀ i j place place', 0 < i → i < final.freeinode → 0 < j → j < final.freeinode →
    (final.device.dinode sb i).addr final.sectors place ≠ 0 →
    (final.device.dinode sb i).addr final.sectors place =
      (final.device.dinode sb j).addr final.sectors place' → i = j ∧ place = place'
  bitmap : ∀ b < BSIZE * 8, Bytes.bit (final.sectors sb.bmapstart) b = decide (b < final.freeblock)

theorem wellFormed_of_few {files : List File} {final : State} (few : files.length ≤ 206)
    (made : State.main files = some final) : WellFormed files final := by
  have finished := main_finished few made
  have isCount := finished.count
  constructor
  · exact isCount
  · intro inum _ below
    simp only [sb, Superblock.iblock, ninodeblocks, nlog, LOGSIZE, MAXOPBLOCKS, NINODES, IPB, BSIZE,
      DINODESIZE]
    omega
  · exact finished.stored
  · intro inum place isFile below present
    rcases (finished.placed inum isFile below).used place present with ⟨isData, inImage, _⟩
    rw [wide_nmeta] at isData
    exact ⟨isData, inImage⟩
  · intro i j place place' iFile iBelow jFile jBelow present same
    by_cases isSame : i = j
    · subst isSame
      exact ⟨rfl, (finished.placed i iFile iBelow).distinct place place' present same⟩
    · exact absurd same (finished.apart i j iFile iBelow jFile jBelow isSame place place' present)
  · intro b _
    rw [finished.bitmap, State.bit_bitmap]

/-- `mkfs` fails or makes an image as it should be exactly if it fails or has at most 206 files. -/
theorem image_well_formed_iff (files : List File) :
    (∀ final, State.main files = some final → WellFormed files final) ↔
      State.main files = none ∨ files.length ≤ 206 := by
  constructor
  · intro formed
    cases made : State.main files with
    | none => exact Or.inl rfl
    | some final =>
        right
        by_contra many
        have isFormed := formed final made
        have inside := (isFormed.inside 208 (by decide) (by rw [isFormed.count]; omega)).2
        exact absurd inside (by decide)
  · rintro (fails | few) final made
    · cases fails.symm.trans made
    · exact wellFormed_of_few few made

/-! ## Too many files -/

def emptyFile : File where
  arg := [97]
  reads := some []

theorem emptyFile_fine : emptyFile.Fine where
  opened := nofun
  slashFree := by decide
  fits := Nat.zero_le _

theorem total_empty {n : ℕ} : total (n + 2) (contentsOf (List.replicate n emptyFile)) =
    nmeta + blocksOf ((n + 2) * DIRENTSIZE) := by
  have isRoot : (contentsOf (List.replicate n emptyFile) ROOTINO).length = (n + 2) * DIRENTSIZE := by
    have isLength : (rootBytes (List.replicate n emptyFile)).length = _ := length_rootBytes
    rw [List.length_replicate] at isLength
    exact isLength
  rw [total, Finset.sum_eq_single ROOTINO, isRoot]
  · intro inum isMember notRoot
    have isEmpty : contentsOf (List.replicate n emptyFile) inum = [] := by
      have positive := (Finset.mem_Ico.1 isMember).1
      rw [contentsOf, if_neg notRoot, if_neg (by omega), List.getElem?_replicate]
      split <;> rfl
    rw [isEmpty]
    rfl
  · intro notMember
    have isMember : ROOTINO ∈ Finset.Ico 1 (n + 2) :=
      Finset.mem_Ico.2 ⟨Nat.le_refl _, Nat.lt_add_left n Nat.one_lt_two⟩
    exact absurd isMember notMember

theorem total_empty_le {n : ℕ} (few : n ≤ 207) :
    total (n + 2) (contentsOf (List.replicate n emptyFile)) ≤ FSSIZE := by
  rw [total_empty]
  simp only [blocksOf, nmeta_eq, DIRENTSIZE, DIRSIZ, NDIRECT, BSIZE, FSSIZE]
  split <;> omega

theorem replicate_fine {n : ℕ} : ∀ file ∈ List.replicate n emptyFile, file.Fine := by
  intro file isFile
  rw [List.eq_of_mem_replicate isFile]
  exact emptyFile_fine

theorem main_empty {n : ℕ} (few : n ≤ 206) :
    ∃ final, State.main (List.replicate n emptyFile) = some final := by
  have isLength : (List.replicate n emptyFile).length = n := List.length_replicate
  rcases @main_spec (List.replicate n emptyFile) (by omega) with ⟨_, short⟩ | ⟨_, final, made, _⟩
  · refine absurd ⟨replicate_fine, ?_⟩ short
    rw [isLength]
    exact total_empty_le (by omega)
  · exact ⟨final, made⟩

theorem Built.ialloc_over {s : State} {contents : ℕ → List UInt8} (built : Built s contents)
    (isCount : s.freeinode = wide.ninodes) (type : UInt16) :
    ∃ s', s.ialloc type = some (s.freeinode, s') ∧
      Built s' (update contents s.freeinode []) ∧ s'.freeinode = s.freeinode + 1 := by
  have sound : State.Sound { s with freeinode := s.freeinode + 1 } :=
    ⟨built.sound.length, built.sound.low, built.sound.high, built.sound.fresh⟩
  have isBlock : sb.iblock s.freeinode = sb.bmapstart := by
    rw [isCount]
    decide
  have used : sb.bmapstart < s.freeblock := Nat.lt_of_lt_of_le (by decide) built.sound.low
  have isRead : State.rsect { s with freeinode := s.freeinode + 1 } sb.bmapstart =
      some (s.sectors sb.bmapstart) := sound.rsect (by decide)
  refine ⟨State.wsect { s with freeinode := s.freeinode + 1 } sb.bmapstart
    (Bytes.store (s.sectors sb.bmapstart) (s.freeinode % IPB * DINODESIZE) DINODESIZE
      (newInode type).byte), ?_, ⟨sound.wsect used, Nat.succ_pos _, ?_, ?_, ?_⟩, rfl⟩
  · simp only [State.ialloc, State.winode, isBlock, isRead, Option.bind_eq_bind, Option.bind_some]
    rfl
  · have formed := built.files
    rw [isCount, Nat.min_self] at formed
    have isMin : min (s.freeinode + 1) wide.ninodes = wide.ninodes := Nat.min_eq_right (by omega)
    have sameBlocks : State.disk (State.wsect { s with freeinode := s.freeinode + 1 } sb.bmapstart
        (Bytes.store (s.sectors sb.bmapstart) (s.freeinode % IPB * DINODESIZE) DINODESIZE
          (newInode type).byte)) = s.disk := update_idem ..
    change Files _ (min (s.freeinode + 1) wide.ninodes) _
    rw [isMin]
    have kept : Files s.image wide.ninodes (update contents s.freeinode []) := by
      refine ⟨?_, formed.apart, formed.unborn⟩
      intro k isFile below
      rw [update_of_ne (by omega)]
      exact formed.holds k isFile below
    exact kept.congr sameBlocks
  · intro k isFile below
    by_cases isSame : k = s.freeinode
    · rw [isSame, update_self]
      exact Nat.zero_le _
    · rw [update_of_ne isSame]
      have isBelow : k < min (s.freeinode + 1) wide.ninodes := below
      exact built.fits k isFile (by omega)
  · exact built.count.trans (total_succ built.positive).symm

/-- With 207 files, the last inode is lost. -/
theorem inode_in_bitmap : ∃ final, State.main (List.replicate 207 emptyFile) = some final ∧
    final.freeinode = 209 ∧ sb.iblock 208 = sb.bmapstart ∧
    final.sectors (sb.iblock 208) = State.bitmap final.freeblock ∧
    ¬WellFormed (List.replicate 207 emptyFile) final := by
  rcases makeRoot_built with ⟨s₀, isRoot, built₀, count₀⟩
  have isWide : wide.ninodes = 208 := by decide
  have isLength : ([] ++ List.replicate 206 emptyFile).length = 206 := List.length_replicate
  have few : ([] ++ List.replicate 206 emptyFile).length + 2 ≤ wide.ninodes := by omega
  rcases built₀.addFiles count₀ few with ⟨_, short⟩ | ⟨s₁, added, built₁, count₁⟩
  · refine absurd ⟨replicate_fine, ?_⟩ short
    rw [isLength]
    exact total_empty_le (by omega)
  have isAll : List.replicate 207 emptyFile = List.replicate 206 emptyFile ++ [emptyFile] :=
    List.replicate_succ'
  have roomLast : total (s₁.freeinode + 1)
      (contentsOf ([] ++ List.replicate 206 emptyFile ++ [emptyFile])) ≤ FSSIZE := by
    rw [count₁, isLength, List.nil_append, ← isAll]
    exact total_empty_le (Nat.le_refl _)
  have isLast : s₁.freeinode = wide.ninodes := by rw [count₁, isLength, isWide]
  have isEmpty : emptyFile.reads = some [] := rfl
  rcases built₁.addFile count₁ (built₁.ialloc_over isLast T_FILE) (Or.inr ⟨isLast, isEmpty⟩) with
    ⟨_, short⟩ | ⟨s₂, addedLast, built₂, count₂⟩
  · exact absurd ⟨emptyFile_fine, roomLast⟩ short
  rcases finish_spec built₂ with ⟨s₃, fixed, final, written, isFinal, sameInodes, sameBlocks⟩
  have isCount : final.freeinode = 209 := by rw [sameInodes, count₂, List.length_append, isLength]; rfl
  have isBlock : sb.iblock 208 = sb.bmapstart := by decide
  refine ⟨final, ?_, isCount, isBlock, ?_, ?_⟩
  · rw [isAll]
    simp only [State.main, isRoot, List.foldlM_append, added, Option.bind_eq_bind, Option.bind_some,
      List.foldlM_cons, List.foldlM_nil, addedLast]
    change s₂.fixRoot.bind _ = _
    rw [fixed]
    exact written
  · rw [isBlock, bmap_final isFinal, sameBlocks]
  · intro formed
    have inside := (formed.inside 208 (by omega) (by rw [isCount]; omega)).2
    rw [isBlock] at inside
    exact absurd inside (Nat.lt_irrefl _)

end Xv6.Mkfs
