import Xv6.Mkfs.Image

/-!
# The image that mkfs makes

The program makes the root directory, appends an entry to it for each input file and the bytes of
the file to a new inode, and at the end rounds up the size of the root directory and writes the bit
map. The inodes are those of the files as long as they do not run into the bit map.
-/

namespace Xv6.Mkfs

open Function

/-- The bytes of an input file: what is read until nothing is. -/
def File.contents (file : File) : List UInt8 :=
  ((file.reads.getD []).takeWhile fun buf => buf.length ≠ 0).flatten

def rootBytes (files : List File) : List UInt8 :=
  State.entry ROOTINO [46] ++ State.entry ROOTINO [46, 46] ++
    (files.mapIdx fun i file => State.entry (i + 2) file.name).flatten

/-- What an inode is to contain: the root directory has number 1, the files follow. -/
def contentsOf (files : List File) (inum : ℕ) : List UInt8 :=
  if inum = ROOTINO then rootBytes files
  else if inum = 0 then []
  else ((files[inum - 2]?).map File.contents).getD []

/-- The blocks in use when the inodes below a number have their contents. -/
def total (count : ℕ) (contents : ℕ → List UInt8) : ℕ :=
  nmeta + ∑ inum ∈ Finset.Ico 1 count, blocksOf (contents inum).length

/-- The image has the inodes below `freeinode`, apart from those that run into the bit map. -/
structure Built (s : State) (contents : ℕ → List UInt8) : Prop where
  sound : s.Sound
  positive : 0 < s.freeinode
  files : Files s.image (min s.freeinode wide.ninodes) contents
  fits : ∀ inum, 0 < inum → inum < min s.freeinode wide.ninodes →
    (contents inum).length ≤ MAXFILE * BSIZE
  count : s.freeblock = total s.freeinode contents

section Total

variable {contents contents' : ℕ → List UInt8} {inum count count' : ℕ} {bytes : List UInt8}

theorem total_update (isFile : 0 < inum) (below : inum < count) :
    total count (update contents inum bytes) + blocksOf (contents inum).length =
      total count contents + blocksOf bytes.length := by
  have isMember : inum ∈ Finset.Ico 1 count := Finset.mem_Ico.2 ⟨isFile, below⟩
  have same : ∑ k ∈ (Finset.Ico 1 count).erase inum,
      blocksOf (update contents inum bytes k).length =
      ∑ k ∈ (Finset.Ico 1 count).erase inum, blocksOf (contents k).length := by
    apply Finset.sum_congr rfl
    intro k isOther
    rw [update_of_ne (Finset.ne_of_mem_erase isOther)]
  rw [total, total, ← Finset.add_sum_erase _ _ isMember, ← Finset.add_sum_erase _ _ isMember, same,
    update_self]
  omega

theorem total_succ (positive : 0 < count) :
    total (count + 1) (update contents count []) = total count contents := by
  have same : ∑ k ∈ Finset.Ico 1 count, blocksOf (update contents count [] k).length =
      ∑ k ∈ Finset.Ico 1 count, blocksOf (contents k).length := by
    apply Finset.sum_congr rfl
    intro k isMember
    rw [update_of_ne (Nat.ne_of_lt (Finset.mem_Ico.1 isMember).2)]
  rw [total, Finset.sum_Ico_succ_top positive, same, update_self]
  rfl

theorem total_mono (more : count ≤ count')
    (grows : ∀ inum, (contents inum).length ≤ (contents' inum).length) :
    total count contents ≤ total count' contents' := by
  apply Nat.add_le_add_left
  calc ∑ inum ∈ Finset.Ico 1 count, blocksOf (contents inum).length
      ≤ ∑ inum ∈ Finset.Ico 1 count, blocksOf (contents' inum).length :=
        Finset.sum_le_sum fun inum _ => blocksOf_mono (grows inum)
    _ ≤ ∑ inum ∈ Finset.Ico 1 count', blocksOf (contents' inum).length :=
        Finset.sum_le_sum_of_subset (Finset.Ico_subset_Ico_right more)

end Total

section Steps

variable {s s' : State} {contents : ℕ → List UInt8} {inum : ℕ} {p : List UInt8}

/-- There is room for the contents of an inode, and for all blocks. -/
def Enough (count : ℕ) (contents : ℕ → List UInt8) (inum : ℕ) : Prop :=
  (contents inum).length ≤ MAXFILE * BSIZE ∧ total count contents ≤ FSSIZE

theorem Enough.mono {contents' : ℕ → List UInt8} {count : ℕ}
    (grows : ∀ k, (contents k).length ≤ (contents' k).length) (enough : Enough count contents' inum) :
    Enough count contents inum :=
  ⟨(grows inum).trans enough.1, (total_mono (Nat.le_refl _) grows).trans enough.2⟩

/-- A part of the program gives the inodes their contents, and fails only without enough room. -/
def Ends (result : Option State) (enough : Prop) (contents : ℕ → List UInt8) (count : ℕ) : Prop :=
  (result = none ∧ ¬enough) ∨ ∃ s', result = some s' ∧ Built s' contents ∧ s'.freeinode = count

theorem Built.iappend (built : Built s contents) (isFile : 0 < inum)
    (below : inum < min s.freeinode wide.ninodes) (nonempty : 0 < p.length) :
    Ends (s.iappend inum p)
      (Enough s.freeinode (update contents inum (contents inum ++ p)) inum)
      (update contents inum (contents inum ++ p)) s.freeinode := by
  have isInode : inum < wide.ninodes := by omega
  have holds := built.files.holds inum isFile below
  have isTotal := @total_update contents inum s.freeinode (contents inum ++ p) isFile (by omega)
  rw [List.length_append, ← built.count] at isTotal
  have isSize : (s.dinode inum).size.toNat = (contents inum).length := holds.size
  by_cases fits : (contents inum).length + p.length ≤ MAXFILE * BSIZE
  swap
  · left
    refine ⟨?_, fun enough => fits ?_⟩
    · rw [State.iappend, built.sound.rinode isInode, Option.bind_eq_bind, Option.bind_some, isSize,
        Option.bind_eq_bind, Option.bind_eq_none_iff]
      intro result looped
      exact absurd (State.appendLoop_fits (Nat.le_refl _) (built.fits inum isFile below) looped) fits
    · rw [← List.length_append, ← update_self inum (contents inum ++ p) contents]
      exact enough.1
  have notDev : (s.dinode inum).type ≠ T_DEV := by
    rw [State.dinode, holds.type, kind]
    split <;> decide
  have appending := @State.iappend_writei s p inum built.sound isInode holds.placed nonempty notDev
    (by rw [isSize]; exact fits) (by rw [isSize]; exact holds.exact) ⟨fun _ => none, fun _ => none⟩
  have grows := @blocksOf_mono (contents inum).length _ (Nat.le_add_right _ p.length)
  rw [isSize] at appending
  rcases appending with ⟨fails, _, full⟩ | ⟨s', ip', after, isAppended, written, exactAfter, took⟩
  · left
    refine ⟨fails, fun enough => ?_⟩
    have room := enough.2
    omega
  · right
    have sameCount := took.freeinode
    have isCount := took.freeblock
    have metadata := s.shows_image.metadata built.sound
    have wrote := (@writei_wrote wide s.image after (s.inode inum) ip' (contents inum).length p.length
      (fun i => p.getD i 0) ⟨fun _ => none, fun _ => none⟩ p.length wide_valid metadata holds.placed isInode
      notDev (Nat.le_of_eq isSize.symm) fits written).2
    refine ⟨s', isAppended, ⟨took.sound, ?_, ?_, ?_, ?_⟩, sameCount⟩
    · rw [sameCount]
      exact built.positive
    · rw [sameCount]
      exact (built.files.append isFile below (Nat.min_le_right _ _) rfl rfl nonempty wrote
        exactAfter).congr took.shows.symm
    · intro k kFile kBelow
      rw [sameCount] at kBelow
      by_cases isSame : k = inum
      · rw [isSame, update_self, List.length_append]
        exact fits
      · rw [update_of_ne isSame]
        exact built.fits k kFile kBelow
    · rw [sameCount]
      omega

theorem Built.ialloc (built : Built s contents) (bound : s.freeinode < wide.ninodes) :
    ∃ s', s.ialloc (kind s.freeinode) = some (s.freeinode, s') ∧
      Built s' (update contents s.freeinode []) ∧ s'.freeinode = s.freeinode + 1 := by
  have sound : State.Sound { s with freeinode := s.freeinode + 1 } :=
    ⟨built.sound.length, built.sound.low, built.sound.high, built.sound.fresh⟩
  have shows : State.Shows { s with freeinode := s.freeinode + 1 } s.image := rfl
  rcases sound.winode shows bound (newInode (kind s.freeinode)) with
    ⟨s', stored, took⟩
  have isCount : s'.freeinode = s.freeinode + 1 := took.freeinode
  have files := built.files
  rw [Nat.min_eq_left (Nat.le_of_lt bound)] at files
  refine ⟨s', ?_, ⟨took.sound, ?_, ?_, ?_, ?_⟩, isCount⟩
  · simp only [State.ialloc, Option.bind_eq_bind]
    change (State.winode _ s.freeinode (newInode (kind s.freeinode))).bind _ = _
    rw [stored]
    rfl
  · omega
  · rw [isCount, Nat.min_eq_left bound]
    exact (files.alloc built.positive bound).congr took.shows.symm
  · intro k kFile kBelow
    by_cases isSame : k = s.freeinode
    · rw [isSame, update_self]
      exact Nat.zero_le _
    · rw [update_of_ne isSame]
      exact built.fits k kFile (by omega)
  · rw [isCount, total_succ built.positive, ← built.count]
    exact took.freeblock

theorem Built.appendAll {reads : List (List UInt8)} (built : Built s contents) (isFile : 0 < inum)
    (below : inum < min s.freeinode wide.ninodes) {bytes : List UInt8}
    (areBytes : contents inum ++ (reads.takeWhile fun buf => buf.length ≠ 0).flatten = bytes) :
    Ends (State.appendAll inum reads s) (Enough s.freeinode (update contents inum bytes) inum)
      (update contents inum bytes) s.freeinode := by
  induction reads generalizing s contents with
  | nil =>
      rw [List.takeWhile_nil, List.flatten_nil, List.append_nil] at areBytes
      rw [← areBytes, update_eq_self]
      exact Or.inr ⟨s, rfl, built, rfl⟩
  | cons buf reads ih =>
      rw [State.appendAll]
      by_cases isEmpty : buf.length = 0
      · rw [List.takeWhile_cons_of_neg (by simpa using isEmpty), List.flatten_nil,
          List.append_nil] at areBytes
        rw [if_pos isEmpty, ← areBytes, update_eq_self]
        exact Or.inr ⟨s, rfl, built, rfl⟩
      · rw [List.takeWhile_cons_of_pos (by simpa using isEmpty), List.flatten_cons,
          ← List.append_assoc] at areBytes
        rw [if_neg isEmpty]
        rcases built.iappend isFile below (Nat.pos_of_ne_zero isEmpty) with
          ⟨fails, short⟩ | ⟨s₁, first, builtFirst, sameCount⟩
        · refine Or.inl ⟨by rw [fails, Option.bind_none], fun enough => short (enough.mono ?_)⟩
          intro k
          by_cases isSame : k = inum
          · simp only [isSame, update_self, ← areBytes, List.length_append]
            omega
          · rw [update_of_ne isSame, update_of_ne isSame]
        · have rest := ih builtFirst (by rw [sameCount]; exact below)
            (by rw [update_self]; exact areBytes)
          rw [update_idem, sameCount] at rest
          rw [first]
          exact rest

theorem length_entry {name : List UInt8} : (State.entry inum name).length = DIRENTSIZE := by
  rw [State.entry, List.length_map, List.length_range]

theorem contentsOf_concat {files : List File} {file : File} :
    contentsOf (files ++ [file]) = update (update (contentsOf files) ROOTINO
      (contentsOf files ROOTINO ++ State.entry (files.length + 2) file.name)) (files.length + 2)
      file.contents := by
  funext inum
  by_cases isNew : inum = files.length + 2
  · rw [isNew, update_self, contentsOf, if_neg (by simp only [ROOTINO]; omega),
      if_neg (by omega), Nat.add_sub_cancel, List.getElem?_concat_length]
    rfl
  · rw [update_of_ne isNew]
    by_cases isRoot : inum = ROOTINO
    · rw [isRoot, update_self, contentsOf, contentsOf, if_pos rfl, if_pos rfl, rootBytes,
        rootBytes, List.mapIdx_concat, List.flatten_append, List.flatten_singleton]
      simp only [List.append_assoc]
    · rw [update_of_ne isRoot, contentsOf, contentsOf, if_neg isRoot, if_neg isRoot]
      by_cases isZero : inum = 0
      · rw [if_pos isZero, if_pos isZero]
      · have differ : inum - 2 ≠ files.length := by
          simp only [ROOTINO] at isRoot
          omega
        rw [if_neg isZero, if_neg isZero]
        by_cases below : inum - 2 < files.length
        · rw [List.getElem?_append_left below]
        · have isLength : (files ++ [file]).length = files.length + 1 := List.length_append
          rw [List.getElem?_eq_none (by omega), List.getElem?_eq_none (by omega)]

theorem length_rootBytes {files : List File} :
    (rootBytes files).length = (files.length + 2) * DIRENTSIZE := by
  have isFlat : (files.mapIdx fun i file => State.entry (i + 2) file.name).flatten.length =
      files.length * DIRENTSIZE := by
    rw [List.length_flatten, List.sum_eq_card_nsmul _ DIRENTSIZE]
    · simp
    · intro n isLength
      rcases List.mem_map.1 isLength with ⟨entry, isEntry, rfl⟩
      rcases List.mem_mapIdx.1 isEntry with ⟨i, _, rfl⟩
      exact length_entry
  rw [rootBytes, List.length_append, List.length_append, length_entry, length_entry, isFlat]
  simp only [DIRENTSIZE, DIRSIZ]
  omega

theorem length_contentsOf_append {files rest : List File} (inum : ℕ) :
    (contentsOf files inum).length ≤ (contentsOf (files ++ rest) inum).length := by
  rw [contentsOf, contentsOf]
  by_cases isRoot : inum = ROOTINO
  · rw [if_pos isRoot, if_pos isRoot, length_rootBytes, length_rootBytes, List.length_append]
    exact Nat.mul_le_mul_right _ (by omega)
  · rw [if_neg isRoot, if_neg isRoot]
    by_cases isZero : inum = 0
    · rw [if_pos isZero, if_pos isZero]
    · rw [if_neg isZero, if_neg isZero]
      by_cases below : inum - 2 < files.length
      · rw [List.getElem?_append_left below]
      · rw [List.getElem?_eq_none (Nat.not_lt.1 below)]
        exact Nat.zero_le _

/-- An input file that can be opened and is not too long. -/
structure File.Fine (file : File) : Prop where
  opened : file.reads ≠ none
  slashFree : 47 ∉ file.arg
  fits : file.contents.length ≤ MAXFILE * BSIZE

/-- An inode is made, an entry for it appended to the root directory, and then the bytes of the
file. An inode that cannot be written any more is only made for an empty file. -/
theorem Built.addFile {files : List File} {file : File} (built : Built s (contentsOf files))
    (isCount : s.freeinode = files.length + 2)
    (allocates : ∃ s₁, s.ialloc T_FILE = some (s.freeinode, s₁) ∧
      Built s₁ (update (contentsOf files) s.freeinode []) ∧ s₁.freeinode = s.freeinode + 1)
    (bound : s.freeinode < wide.ninodes ∨ s.freeinode = wide.ninodes ∧ file.reads = some []) :
    Ends (s.addFile file)
      (file.Fine ∧ total (s.freeinode + 1) (contentsOf (files ++ [file])) ≤ FSSIZE)
      (contentsOf (files ++ [file])) ((files ++ [file]).length + 2) := by
  have isWide : wide.ninodes = 208 := by decide
  have isLength : (files ++ [file]).length + 2 = s.freeinode + 1 := by
    rw [List.length_append, List.length_singleton]
    omega
  rw [isLength, State.addFile]
  by_cases hasSlash : (47 : UInt8) ∈ file.arg
  · rw [if_pos hasSlash]
    exact Or.inl ⟨rfl, fun enough => enough.1.slashFree hasSlash⟩
  rw [if_neg hasSlash]
  cases isReads : file.reads with
  | none => exact Or.inl ⟨rfl, fun enough => enough.1.opened isReads⟩
  | some reads =>
      have isContents : file.contents = (reads.takeWhile fun buf => buf.length ≠ 0).flatten := by
        rw [File.contents, isReads]
        rfl
      have notRoot : ROOTINO ≠ s.freeinode := by
        simp only [ROOTINO]
        omega
      rcases allocates with ⟨s₁, allocated, built₁, count₁⟩
      have rootBelow : ROOTINO < min s₁.freeinode wide.ninodes := by
        simp only [ROOTINO]
        omega
      have isEntry : 0 < (State.entry s.freeinode file.name).length := by
        rw [length_entry]
        decide
      have linking := built₁.iappend Nat.one_pos rootBelow isEntry
      rw [update_of_ne notRoot, update_comm notRoot.symm, count₁] at linking
      rw [contentsOf_concat, ← isCount]
      simp only [allocated, Option.bind_eq_bind, Option.bind_some]
      rcases linking with ⟨fails, short⟩ | ⟨s₂, linked, built₂, count₂⟩
      · refine Or.inl ⟨by rw [fails, Option.bind_none], fun enough => short ⟨?_, ?_⟩⟩
        · rw [update_of_ne notRoot, update_self, List.length_append, length_entry]
          have isRoot : (contentsOf files ROOTINO).length = (files.length + 2) * DIRENTSIZE :=
            length_rootBytes
          rw [isRoot]
          simp only [DIRENTSIZE, DIRSIZ, MAXFILE, NDIRECT, NINDIRECT, BSIZE]
          omega
        · refine (total_mono (Nat.le_refl _) ?_).trans enough.2
          intro k
          by_cases isSame : k = s.freeinode
          · rw [isSame, update_self]
            exact Nat.zero_le _
          · rw [update_of_ne isSame, update_of_ne isSame]
      · rw [linked, Option.bind_some]
        rcases bound with bound | ⟨last, isEmpty⟩
        · have appending := built₂.appendAll built.positive (by rw [count₂]; omega)
            (by rw [update_self, List.nil_append, ← isContents])
          rw [update_idem, count₂] at appending
          rcases appending with ⟨fails, short⟩ | appended
          · refine Or.inl ⟨fails, fun enough => short ⟨?_, enough.2⟩⟩
            rw [update_self]
            exact enough.1.fits
          · exact Or.inr appended
        · rw [isReads, Option.some.injEq] at isEmpty
          rw [isContents, isEmpty]
          exact Or.inr ⟨s₂, rfl, built₂, count₂⟩

/-! ## All files -/

theorem Built.addFiles {files rest : List File} (built : Built s (contentsOf files))
    (isCount : s.freeinode = files.length + 2) (few : (files ++ rest).length + 2 ≤ wide.ninodes) :
    Ends (rest.foldlM State.addFile s)
      ((∀ file ∈ rest, file.Fine) ∧
        total ((files ++ rest).length + 2) (contentsOf (files ++ rest)) ≤ FSSIZE)
      (contentsOf (files ++ rest)) ((files ++ rest).length + 2) := by
  induction rest generalizing s files with
  | nil =>
      rw [List.append_nil]
      exact Or.inr ⟨s, rfl, built, isCount⟩
  | cons file rest ih =>
      rw [List.foldlM_cons]
      rw [List.append_cons] at few ⊢
      have isLength : (files ++ [file] ++ rest).length = files.length + 1 + rest.length := by
        rw [List.length_append, List.length_append, List.length_singleton]
      have bound : s.freeinode < wide.ninodes := by omega
      have isKind : kind s.freeinode = T_FILE := by
        rw [kind, if_neg]
        simp only [ROOTINO]
        omega
      rcases built.addFile isCount (isKind ▸ built.ialloc bound) (Or.inl bound) with
        ⟨fails, short⟩ | ⟨s₁, first, built₁, count₁⟩
      · refine Or.inl ⟨by rw [fails]; rfl, fun enough => short ⟨enough.1 file List.mem_cons_self, ?_⟩⟩
        exact (total_mono (by omega) length_contentsOf_append).trans enough.2
      · rw [first]
        rcases ih built₁ count₁ few with ⟨fails, short⟩ | added
        · refine Or.inl ⟨fails, fun enough => short ⟨fun other mem => ?_, enough.2⟩⟩
          exact enough.1 other (List.mem_cons_of_mem _ mem)
        · exact Or.inr added

/-! ## The beginning -/

theorem foldl_wsect {n : ℕ} (isZero : s.sectors = fun _ _ => 0) (isEmpty : s.length = 0) :
    (List.range n).foldl (fun s i => s.wsect i fun _ => 0) s = { s with length := n } := by
  induction n with
  | zero => exact congrArg (State.mk s.sectors · s.freeinode s.freeblock) isEmpty
  | succ n ih =>
      have unchanged : update s.sectors n (fun _ => 0) = s.sectors := by
        rw [isZero]
        exact update_eq_self n _
      rw [List.range_succ, List.foldl_append, ih]
      simp only [List.foldl_cons, List.foldl_nil, State.wsect, unchanged]
      congr 1
      omega

theorem blank_eq : State.blank =
    { sectors := update (fun _ _ => 0) 1 (Bytes.store (fun _ => 0) 0 28 sb.byte)
      length := FSSIZE, freeinode := 1, freeblock := nmeta } := by
  simp only [State.blank]
  rw [foldl_wsect rfl rfl]
  rfl

theorem read_zero {start : ℕ} : Dinode.read (fun _ => 0) start = zeroInode := by
  simp only [Dinode.read, short, uint, Bytes.number, zeroInode]
  rfl

theorem blank_built : Built State.blank (fun _ => []) := by
  have sound : State.blank.Sound := by
    rw [blank_eq]
    refine ⟨rfl, Nat.le_refl _, by decide, ?_⟩
    intro b free _ i _
    have differ : b ≠ 1 := by
      have low : nmeta ≤ b := free
      rw [nmeta_eq] at low
      omega
    have isZero : update (fun _ _ => 0) 1 (Bytes.store (fun _ => 0) 0 28 sb.byte) b =
        fun _ => (0 : UInt8) := update_of_ne differ ..
    exact congrFun isZero i
  have isCount : State.blank.freeinode = 1 := by rw [blank_eq]
  refine ⟨sound, by rw [isCount]; exact Nat.one_pos, ⟨?_, ?_, ?_⟩, ?_, ?_⟩
  · intro k kFile kBelow
    rw [isCount] at kBelow
    omega
  · intro i j iFile iBelow
    rw [isCount] at iBelow
    omega
  · intro k _ isInode
    have isFirst : wide.iblock k ≠ 1 := by
      have low : wide.inodestart ≤ wide.iblock k := Nat.le_add_left _ _
      have isStart : wide.inodestart = 32 := by decide
      omega
    have isZero : State.blank.image.block (wide.iblock k) = fun _ => 0 := by
      rw [State.blank.shows_image.block (State.iblock_ne_bmapstart isInode), blank_eq]
      simp only [update_of_ne isFirst]
    rw [Device.dinode, isZero, read_zero]
  · intro k _ _
    exact Nat.zero_le _
  · rw [isCount, blank_eq]
    rfl

theorem makeRoot_built :
    ∃ s, State.blank.makeRoot = some s ∧ Built s (contentsOf []) ∧ s.freeinode = 2 := by
  have isCount : State.blank.freeinode = 1 := by rw [blank_eq]
  rcases blank_built.ialloc (by rw [isCount]; decide) with ⟨s₁, allocated, built₁, count₁⟩
  rw [isCount] at allocated built₁ count₁
  have rootBelow : 1 < min s₁.freeinode wide.ninodes := by
    rw [count₁]
    decide
  rcases built₁.iappend (p := State.entry 1 [46]) Nat.one_pos rootBelow (by decide) with
    ⟨_, short⟩ | ⟨s₂, first, built₂, count₂⟩
  · rw [count₁] at short
    exact absurd ⟨by decide, by decide⟩ short
  rcases built₂.iappend (p := State.entry 1 [46, 46]) Nat.one_pos (by rw [count₂]; exact rootBelow)
    (by decide) with ⟨_, short⟩ | ⟨s₃, second, built₃, count₃⟩
  · rw [count₂, count₁] at short
    exact absurd ⟨by decide, by decide⟩ short
  have isAllocated : State.blank.ialloc T_DIR = some (1, s₁) := allocated
  refine ⟨s₃, ?_, ?_, ?_⟩
  · simp only [State.makeRoot, isAllocated, Option.bind_eq_bind, Option.bind_some, if_pos, ROOTINO, first]
    exact second
  · have isContents : contentsOf [] = update (fun _ => []) 1
        (State.entry ROOTINO [46] ++ State.entry ROOTINO [46, 46]) := by
      funext inum
      by_cases isRoot : inum = 1
      · rw [isRoot, update_self]
        rfl
      · rw [update_of_ne isRoot, contentsOf, if_neg isRoot]
        split <;> rfl
    rw [update_self, update_idem, update_self, update_idem] at built₃
    rw [isContents]
    exact built₃
  · rw [count₃, count₂, count₁]

/-! ## The end -/

/-- The root directory with its size as `mkfs` leaves it. -/
def rounded (din : Dinode) : Dinode :=
  { din with size := UInt32.ofNat ((din.size.toNat / BSIZE + 1) * BSIZE) }

theorem finish_spec (built : Built s contents) :
    ∃ s', s.fixRoot = some s' ∧ ∃ final, s'.balloc s'.freeblock = some final ∧
      final.sectors = (s.image.setDinode wide ROOTINO (rounded (s.dinode ROOTINO))).block ∧
      final.freeinode = s.freeinode ∧ final.freeblock = s.freeblock := by
  have isInode : ROOTINO < wide.ninodes := by decide
  rcases built.sound.winode s.shows_image isInode (rounded (s.dinode ROOTINO)) with
    ⟨s', stored, took⟩
  have high := took.sound.high
  have below : s'.freeblock < BSIZE * 8 := by
    simp only [FSSIZE, BSIZE] at high ⊢
    omega
  refine ⟨s', ?_, s'.wsect sb.bmapstart (State.bitmap s'.freeblock), if_pos below,
    took.shows.symm, took.freeinode, took.freeblock⟩
  simp only [State.fixRoot, built.sound.rinode isInode, Option.bind_eq_bind, Option.bind_some]
  exact stored

theorem main_spec {files : List File} (few : files.length ≤ 206) :
    (State.main files = none ∧
      ¬((∀ file ∈ files, file.Fine) ∧ total (files.length + 2) (contentsOf files) ≤ FSSIZE)) ∨
    ∃ s final, State.main files = some final ∧ Built s (contentsOf files) ∧
      s.freeinode = files.length + 2 ∧
      final.sectors = (s.image.setDinode wide ROOTINO (rounded (s.dinode ROOTINO))).block ∧
      final.freeinode = s.freeinode ∧ final.freeblock = s.freeblock := by
  rcases makeRoot_built with ⟨s₀, isRoot, built₀, count₀⟩
  have isWide : wide.ninodes = 208 := by decide
  rcases @Built.addFiles s₀ [] files built₀ count₀ (by rw [List.nil_append]; omega) with
    ⟨fails, short⟩ | ⟨s, added, built, isCount⟩
  · left
    refine ⟨?_, short⟩
    simp only [State.main, isRoot, fails, Option.bind_eq_bind, Option.bind_some, Option.bind_none]
  · right
    rcases finish_spec built with ⟨s', fixed, final, written, isFinal⟩
    refine ⟨s, final, ?_, built, isCount, isFinal⟩
    simp only [State.main, isRoot, added, fixed, Option.bind_eq_bind, Option.bind_some]
    exact written

end Steps

end Xv6.Mkfs
