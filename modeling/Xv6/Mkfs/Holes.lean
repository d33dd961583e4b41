import Xv6.Mkfs.Formed

/-!
# Holes in the image

The blocks of an inode reach exactly as far as its contents. The size of the root directory is set
to the end of the block after its last entry, which is the block of that entry unless the entry ends
there. Where it does, the kernel allocates a block when it reads the directory. The inodes of more than 206
files run into the bit map.
-/

namespace Xv6.Mkfs

theorem sb_valid : sb.Valid where
  inodes := by
    intro inum isInode
    apply wide_valid.inodes inum
    exact Nat.lt_trans isInode (by decide)
  fits := wide_valid.fits
  small := wide_valid.small

theorem placed_sb {device : Device} {dip : Dinode} (placed : dip.Placed wide device) :
    dip.Placed sb device :=
  ⟨placed.used, placed.distinct⟩

section

variable {files : List File} {final : State} {inum : ℕ}

section

variable (finished : Finished files final)

include finished

theorem Finished.root_lt : ROOTINO < final.freeinode := by
  rw [finished.count]
  exact Nat.lt_add_left _ Nat.one_lt_two

theorem Finished.size_root : (final.device.dinode sb ROOTINO).size.toNat =
      ((files.length + 2) * DIRENTSIZE / BSIZE + 1) * BSIZE := by
  have isLength : (contentsOf files ROOTINO).length = (files.length + 2) * DIRENTSIZE := length_rootBytes
  rw [(finished.stored ROOTINO Nat.one_pos finished.root_lt).size, finalSize, if_pos rfl, isLength]

theorem Finished.addr_root (bn : ℕ) :
    (final.device.dinode sb ROOTINO).addr final.sectors (some bn) ≠ 0 ↔
      bn * BSIZE < (files.length + 2) * DIRENTSIZE := by
  have isLength : (contentsOf files ROOTINO).length = (files.length + 2) * DIRENTSIZE := length_rootBytes
  rw [finished.exact ROOTINO Nat.one_pos finished.root_lt (some bn), isLength]
  rfl

theorem Finished.solid (isInode : inum < wide.ninodes)
    (unaligned : (files.length + 2) * DIRENTSIZE % BSIZE ≠ 0) :
    (final.device.dinode sb inum).Solid final.sectors := by
  intro i inside
  by_cases isFile : 0 < inum ∧ inum < final.freeinode
  · by_cases isRoot : inum = ROOTINO
    · subst isRoot
      rw [finished.size_root] at inside
      apply (finished.addr_root _).2
      simp only [BSIZE] at inside unaligned ⊢
      omega
    · apply (finished.exact inum isFile.1 isFile.2 _).2
      rw [(finished.stored inum isFile.1 isFile.2).size, finalSize, if_neg isRoot] at inside
      simp only [Reach, BSIZE]
      omega
  · rw [finished.unborn inum (by omega) isInode] at inside
    exact absurd inside (Nat.not_lt_zero _)

theorem Finished.type_ne (isInode : inum < wide.ninodes) :
    (final.device.dinode sb inum).type ≠ T_DEV := by
  by_cases isFile : 0 < inum ∧ inum < final.freeinode
  · rw [(finished.stored inum isFile.1 isFile.2).type, kind]
    split <;> decide
  · rw [finished.unborn inum (by omega) isInode]
    decide

end

end

/-! ## Too many files -/

namespace State

/-- The counters go on: as many inodes have been given out, and no block has been taken back. -/
def Later (s s' : State) (count : ℕ) : Prop :=
  s.freeblock ≤ s'.freeblock ∧ s'.freeinode = s.freeinode + count

variable {s s' s'' : State} {m n : ℕ}

theorem Later.trans (first : s.Later s' m) (second : s'.Later s'' n) : s.Later s'' (m + n) :=
  ⟨first.1.trans second.1, by rw [second.2, first.2, Nat.add_assoc]⟩

theorem later_winode {inum : ℕ} {dip : Dinode} (written : s.winode inum dip = some s') : s.Later s' 0 := by
  rcases Option.bind_eq_some_iff.1 written with ⟨_, _, isState⟩
  cases isState
  exact ⟨le_rfl, rfl⟩

theorem later_ialloc {type : UInt16} {inum : ℕ} (allocated : s.ialloc type = some (inum, s')) :
    s.Later s' 1 := by
  rcases Option.bind_eq_some_iff.1 allocated with ⟨_, written, isState⟩
  cases isState
  exact later_winode written

theorem later_takeAddr (din : Dinode) (i : Fin (NDIRECT + 1)) : s.Later (s.takeAddr din i).2 0 := by
  rw [takeAddr]
  split
  · exact ⟨Nat.le_succ _, rfl⟩
  · exact ⟨le_rfl, rfl⟩

theorem later_takeEntry {addr i : ℕ} {x : ℕ} (taken : s.takeEntry addr i = some (x, s')) : s.Later s' 0 := by
  rcases Option.bind_eq_some_iff.1 taken with ⟨_, _, isState⟩
  dsimp only at isState
  split at isState
  · cases isState
    exact ⟨Nat.le_succ _, rfl⟩
  · cases isState
    exact ⟨le_rfl, rfl⟩

theorem later_locate {din din' : Dinode} {fbn : ℕ} {found : ℕ × BlockData}
    (located : s.locate din fbn = some (found, din', s')) : s.Later s' 0 := by
  rw [locate] at located
  split at located
  · rcases Option.bind_eq_some_iff.1 located with ⟨_, _, isState⟩
    cases isState
    exact later_takeAddr din _
  · rcases Option.bind_eq_some_iff.1 located with ⟨⟨x, _⟩, taken, more⟩
    rcases Option.bind_eq_some_iff.1 more with ⟨_, _, isState⟩
    cases isState
    exact (later_takeAddr din _).trans (later_takeEntry taken)

theorem later_appendLoop {fuel off off' : ℕ} {p : List UInt8} {din din' : Dinode}
    (appended : appendLoop fuel p off din s = some (off', din', s')) : s.Later s' 0 := by
  induction fuel generalizing p off din s with
  | zero =>
      cases appended
      exact ⟨le_rfl, rfl⟩
  | succ fuel ih =>
      rw [appendLoop] at appended
      split at appended
      · cases appended
        exact ⟨le_rfl, rfl⟩
      · dsimp only at appended
        split at appended
        · rcases Option.bind_eq_some_iff.1 appended with ⟨⟨⟨x, buf⟩, din₁, s₁⟩, located, rest⟩
          have again := ih rest
          exact (later_locate located).trans again
        · contradiction

theorem later_iappend {inum : ℕ} {p : List UInt8} (appended : s.iappend inum p = some s') : s.Later s' 0 := by
  rcases Option.bind_eq_some_iff.1 appended with ⟨din, _, rest⟩
  rcases Option.bind_eq_some_iff.1 rest with ⟨⟨off, din₁, s₁⟩, looped, written⟩
  exact (later_appendLoop looped).trans (later_winode written)

theorem later_appendAll {inum : ℕ} {reads : List (List UInt8)} (appended : appendAll inum reads s = some s') :
    s.Later s' 0 := by
  induction reads generalizing s with
  | nil =>
      cases appended
      exact ⟨le_rfl, rfl⟩
  | cons buf reads ih =>
      rw [appendAll] at appended
      split at appended
      · cases appended
        exact ⟨le_rfl, rfl⟩
      · rcases Option.bind_eq_some_iff.1 appended with ⟨_, first, rest⟩
        exact (later_iappend first).trans (ih rest)

theorem later_addFile {file : File} (added : s.addFile file = some s') : s.Later s' 1 := by
  rw [addFile] at added
  split at added
  · contradiction
  · rcases Option.bind_eq_some_iff.1 added with ⟨reads, _, rest⟩
    rcases Option.bind_eq_some_iff.1 rest with ⟨⟨inum, s₁⟩, allocated, rest⟩
    rcases Option.bind_eq_some_iff.1 rest with ⟨s₂, linked, rest⟩
    exact (later_ialloc allocated).trans ((later_iappend linked).trans (later_appendAll rest))

theorem later_addFiles {files : List File} (added : files.foldlM addFile s = some s') :
    s.Later s' files.length := by
  induction files generalizing s with
  | nil =>
      cases added
      exact ⟨le_rfl, rfl⟩
  | cons file files ih =>
      rw [List.foldlM_cons] at added
      rcases Option.bind_eq_some_iff.1 added with ⟨_, first, rest⟩
      rw [List.length_cons, Nat.add_comm]
      exact (later_addFile first).trans (ih rest)

end State

/-- The bytes of the bit map as those of an inode: the size is not 0, and either no address comes after
it or it is more than a file can have. -/
theorem dinode_bitmap {used : ℕ} (many : 65 ≤ used) :
    let din := Dinode.read (State.bitmap used) 0
    0 < din.size.toNat ∧ din.addrs 0 = 0 ∨ MAXFILE * BSIZE < din.size.toNat := by
  by_cases few : used ≤ 88
  · left
    have small : ∀ k < 24, 0 < (Dinode.read (State.bitmap (65 + k)) 0).size.toNat ∧
        (Dinode.read (State.bitmap (65 + k)) 0).addrs 0 = 0 := by decide +kernel
    rw [← Nat.add_sub_of_le many]
    exact small (used - 65) (by omega)
  · right
    have isSet : Bytes.bit (State.bitmap used) 88 = true := by
      rw [State.bit_bitmap]
      exact decide_eq_true (by omega)
    have notZero : 0 < (State.bitmap used 11).toNat := by
      apply Nat.pos_of_ne_zero
      intro isZero
      have isByte : State.bitmap used 11 = 0 := UInt8.toNat_inj.1 isZero
      simp [Bytes.bit, isByte] at isSet
    have first := (State.bitmap used 8).toNat_lt
    have second := (State.bitmap used 9).toNat_lt
    have third := (State.bitmap used 10).toNat_lt
    have fourth := (State.bitmap used 11).toNat_lt
    have isSize : (Dinode.read (State.bitmap used) 0).size.toNat = (0 + 256 ^ 0 * (State.bitmap used 8).toNat +
        256 ^ 1 * (State.bitmap used 9).toNat + 256 ^ 2 * (State.bitmap used 10).toNat +
        256 ^ 3 * (State.bitmap used 11).toNat) % 2 ^ 32 := UInt32.toNat_ofNat'
    rw [isSize, show MAXFILE * BSIZE = 71680 from rfl]
    omega

/-- With so many files, there is an inode in the bit map. -/
theorem main_many {files : List File} {final : State} (many : 206 < files.length) (made : State.main files = some final) :
    208 < final.freeinode ∧ ∃ used, 65 ≤ used ∧ final.sectors sb.bmapstart = State.bitmap used := by
  rcases makeRoot_built with ⟨s₀, isRoot, built₀, count₀⟩
  have isWide : wide.ninodes = 208 := by decide
  have isTaken : ([] ++ files.take 206).length = 206 := by simp; omega
  rw [State.main, isRoot, ← List.take_append_drop 206 files] at made
  simp only [Option.bind_eq_bind, Option.bind_some, List.foldlM_append] at made
  rcases Option.bind_eq_some_iff.1 made with ⟨s₂, added, rest⟩
  rcases Option.bind_eq_some_iff.1 added with ⟨s₁, addedFirst, addedMore⟩
  rcases Option.bind_eq_some_iff.1 rest with ⟨s₃, fixed, isFinal⟩
  rcases Option.bind_eq_some_iff.1 fixed with ⟨_, _, written⟩
  rcases built₀.addFiles count₀ (by omega : ([] ++ files.take 206).length + 2 ≤ wide.ninodes) with
    ⟨fails, _⟩ | ⟨s, isFirst, built₁, count₁⟩
  · cases fails.symm.trans addedFirst
  cases isFirst.symm.trans addedFirst
  have later := (State.later_addFiles addedMore).trans (State.later_winode written)
  have isMore : (files.drop 206).length ≠ 0 := by simp; omega
  have used : 65 ≤ s₁.freeblock := by
    have isLength : (contentsOf ([] ++ files.take 206) ROOTINO).length = _ := length_rootBytes
    have least : total 2 (contentsOf ([] ++ files.take 206)) ≤ s₁.freeblock := by
      rw [built₁.count]
      exact total_mono (by omega) fun _ => le_rfl
    rw [total, Nat.Ico_succ_singleton, Finset.sum_singleton, isLength, isTaken] at least
    exact Nat.le_trans (by decide) least
  have isWritten : final = s₃.wsect sb.bmapstart (State.bitmap s₃.freeblock) :=
    (Option.some.inj (Option.ite_none_right_eq_some.1 isFinal).2).symm
  have isCount : final.freeinode = s₃.freeinode := by rw [isWritten]; rfl
  refine ⟨?_, s₃.freeblock, used.trans later.1, ?_⟩
  · rw [isCount, later.2, count₁]
    omega
  · rw [isWritten]
    exact Function.update_self sb.bmapstart (State.bitmap s₃.freeblock) s₃.sectors

/-! ## The image -/

/-- An inode has a block for each index below its size, and reading it allocates nothing. -/
def State.Whole (final : State) (inum : ℕ) : Prop :=
  (∀ bn < ((final.device.dinode sb inum).size.toNat + BSIZE - 1) / BSIZE,
    (final.device.dinode sb inum).addr final.sectors (some bn) ≠ 0) ∧
  ∀ ip : Inode, ip.toDinode = final.device.dinode sb inum → ∀ devsw off n, off < 2 ^ 32 → n < 2 ^ 32 →
    ∃ result, ip.readi sb devsw off n final.device = some (result, ip, final.device)

theorem not_whole_of_many {files : List File} {final : State} (many : 206 < files.length)
    (made : State.main files = some final) : ¬final.Whole 208 := by
  rcases (main_many many made).2 with ⟨used, enough, isMap⟩
  have isDinode : final.device.dinode sb 208 = Dinode.read (State.bitmap used) 0 :=
    congrArg (Dinode.read · 0) isMap
  rintro ⟨present, _⟩
  rw [isDinode] at present
  rcases dinode_bitmap enough with ⟨positive, isHole⟩ | great
  · exact present 0 (by simp only [BSIZE]; omega) (congrArg UInt32.toNat isHole)
  · have isMax : MAXFILE * BSIZE = 140 * 512 := rfl
    exact present 140 (by simp only [BSIZE]; omega) (by simp [Dinode.addr, NDIRECT, NINDIRECT, BSIZE])

theorem Finished.whole {files : List File} {final : State} {inum : ℕ} (finished : Finished files final)
    (isInode : inum < wide.ninodes) (unaligned : (files.length + 2) * DIRENTSIZE % BSIZE ≠ 0) :
    final.Whole inum := by
  have solid := finished.solid isInode unaligned
  refine ⟨?_, ?_⟩
  · intro bn isBlock
    have inside : bn * BSIZE < (final.device.dinode sb inum).size.toNat := by
      simp only [BSIZE] at isBlock ⊢
      omega
    have present := solid (bn * BSIZE) inside
    rw [Nat.mul_div_cancel bn (by decide)] at present
    exact present
  · intro ip isIp devsw off n offUint nUint
    apply readi_unchanged
    · rw [isIp]
      exact finished.type_ne isInode
    · exact ⟨offUint, nUint⟩
    · rw [isIp]
      exact solid

/-- The inodes of every image are whole, those of the files and those that are free, exactly if there is no
image, or the files have inodes in front of the bit map and the entries of the root directory do not end
with a block. -/
theorem image_without_holes_iff (files : List File) :
    (∀ final, State.main files = some final → ∀ inum,
      inum < final.freeinode ∨ sb.iblock inum < sb.bmapstart → final.Whole inum) ↔
      State.main files = none ∨ files.length ≤ 206 ∧ (files.length + 2) * DIRENTSIZE % BSIZE ≠ 0 := by
  constructor
  · intro whole
    cases made : State.main files with
    | none => exact Or.inl rfl
    | some final =>
        right
        by_cases few : files.length ≤ 206
        · refine ⟨few, ?_⟩
          -- where the entries end with a block, the size counts one more
          intro aligned
          have finished := main_finished few made
          have present := (whole final made ROOTINO (Or.inr (by decide))).1
            ((files.length + 2) * DIRENTSIZE / BSIZE)
          rw [finished.size_root, finished.addr_root] at present
          simp only [BSIZE] at present aligned
          have inside := present (by omega)
          omega
        · have many : 206 < files.length := by omega
          exact absurd (whole final made 208 (Or.inl (main_many many made).1)) (not_whole_of_many many made)
  · rintro (fails | ⟨few, unaligned⟩) final made inum isInode
    · cases fails.symm.trans made
    · have finished := main_finished few made
      have isWide : wide.ninodes = 208 := by decide
      apply finished.whole _ unaligned
      rw [finished.count] at isInode
      simp only [Superblock.iblock, sb, ninodeblocks, nlog, LOGSIZE, MAXOPBLOCKS, NINODES, IPB, BSIZE,
        DINODESIZE] at isInode
      omega

/-- With 30 files the root directory has a hole, and reading it allocates a block. -/
theorem root_with_hole : ∃ final, State.main (List.replicate 30 emptyFile) = some final ∧
    (final.device.dinode sb ROOTINO).size.toNat = 1024 ∧
    (final.device.dinode sb ROOTINO).addr final.sectors (some 1) = 0 ∧
    ∀ ip : Inode, ip.toDinode = final.device.dinode sb ROOTINO → ∀ devsw,
      ¬∃ result, ip.readi sb devsw 512 DIRENTSIZE final.device = some (result, ip, final.device) := by
  rcases @main_empty 30 (by omega) with ⟨final, made⟩
  have finished := main_finished (by rw [List.length_replicate]; omega) made
  have isSize := finished.size_root
  have hole := not_iff_not.2 (finished.addr_root 1)
  rw [List.length_replicate] at isSize hole
  have isHole : (final.device.dinode sb ROOTINO).addr final.sectors (some 1) = 0 := by
    apply Decidable.not_not.1
    apply hole.2
    decide
  refine ⟨final, made, isSize, isHole, ?_⟩
  intro ip isIp devsw ⟨result, read⟩
  have isFile : ip.type ≠ T_DEV := by
    rw [isIp]
    exact finished.type_ne (by decide)
  have isPlaced : ip.Placed sb final.device := by
    rw [isIp]
    apply placed_sb (finished.placed ROOTINO Nat.one_pos _)
    rw [finished.count]
    exact Nat.lt_add_left _ Nat.one_lt_two
  have inside : 512 < ip.size.toNat := by
    rw [isIp, isSize]
    decide
  have present := readi_present isFile sb_valid finished.metadata isPlaced (by decide) inside (by decide) read
  rw [isIp] at present
  exact present isHole

end Xv6.Mkfs
