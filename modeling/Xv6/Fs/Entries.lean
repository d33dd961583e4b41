import Xv6.Fs.Directory
import Xv6.Fs.Space
import Xv6.Lib.Run

/-!
# A directory is a finite map

The entries with an inode number other than zero map names, cut to `DIRSIZ` bytes, to inode
numbers. `dirlookup` reads the map and `dirlink` adds to it.
-/

namespace Xv6

namespace Dinode

def count (dip : Dinode) : ℕ := dip.size.toNat / DIRENTSIZE

/-- An entry, from the contents of the directory. -/
def dirent (dip : Dinode) (blocks : ℕ → BlockData) (k : ℕ) : Dirent :=
  .read ((List.range DIRENTSIZE).map fun i => dip.byteAt blocks (DIRENTSIZE * k + i))

def Names (dip : Dinode) (blocks : ℕ → BlockData) (name : List UInt8) (k : ℕ) : Prop :=
  (dip.dirent blocks k).inum ≠ 0 ∧ chars DIRSIZ (dip.dirent blocks k).name = name

instance (dip : Dinode) (blocks : ℕ → BlockData) (name : List UInt8) (k : ℕ) :
    Decidable (dip.Names blocks name k) := inferInstanceAs (Decidable (_ ∧ _))

def entryFor (dip : Dinode) (blocks : ℕ → BlockData) (name : List UInt8) : Option ℕ :=
  (List.range dip.count).find? fun k => dip.Names blocks name k

def lookup (dip : Dinode) (blocks : ℕ → BlockData) (name : List UInt8) : Option ℕ :=
  (dip.entryFor blocks name).map fun k => (dip.dirent blocks k).inum

/-- No two entries are for the same name. -/
def Distinct (dip : Dinode) (blocks : ℕ → BlockData) : Prop :=
  ∀ j < dip.count, ∀ k < dip.count, (dip.dirent blocks j).inum ≠ 0 → (dip.dirent blocks k).inum ≠ 0 →
    chars DIRSIZ (dip.dirent blocks j).name = chars DIRSIZ (dip.dirent blocks k).name → j = k

/-- Whole entries, within the bounds of a file. -/
structure Regular (dip : Dinode) : Prop where
  whole : DIRENTSIZE ∣ dip.size.toNat
  fits : dip.size.toNat ≤ MAXFILE * BSIZE

theorem Regular.size_eq {dip : Dinode} (regular : dip.Regular) :
    dip.size.toNat = DIRENTSIZE * dip.count := (Nat.mul_div_cancel' regular.whole).symm

end Dinode

/-! ## The loops over the entries -/

section Scan

variable {sb : Superblock} {devsw : Devsw} {device after : Device} {dp dp' : Inode} {fuel k off : ℕ}
  {test : Dirent → Bool} {message : String} {found : Option Dirent} {stop : FsStop}

section

variable (filled : Filled sb device dp after dp')

include filled

theorem Filled.dirent_eq : dp'.dirent after.block k = dp.dirent device.block k := by
  simp only [Dinode.dirent, filled.bytes]

theorem Filled.size_eq : dp'.size = dp.size := by
  rcases filled.same with ⟨addrs, rfl⟩
  rfl

theorem Filled.type_eq : dp'.type = dp.type := by
  rcases filled.same with ⟨addrs, rfl⟩
  rfl

theorem Filled.dev_eq : dp'.dev = dp.dev := by
  rcases filled.same with ⟨addrs, rfl⟩
  rfl

theorem Filled.count_eq : dp'.count = dp.count := by
  rw [Dinode.count, Dinode.count, filled.size_eq]

theorem Filled.regular (regular : dp.Regular) : dp'.Regular := by
  refine ⟨?_, ?_⟩
  · rw [filled.size_eq]
    exact regular.whole
  · rw [filled.size_eq]
    exact regular.fits

end

/-- A loop over the entries ends with the first one that passes the test, if reading an entry keeps
what is known of the inode and the device. -/
theorem scan_keeps {Keeps : Inode → Device → Prop} {Fails : Prop} {count : ℕ} {entry : ℕ → Dirent}
    (test : Dirent → Bool) (message : String)
    (isSize : ∀ dp device, Keeps dp device → dp.size.toNat = DIRENTSIZE * count)
    (reads : ∀ dp device k, Keeps dp device → k < count →
      (dp.readi sb devsw (DIRENTSIZE * k) DIRENTSIZE device = none ∧ Fails) ∨
      ∃ dp' after bytes, dp.readi sb devsw (DIRENTSIZE * k) DIRENTSIZE device =
        some ((((DIRENTSIZE : ℕ) : ℤ), bytes), dp', after) ∧ Keeps dp' after ∧
        Dirent.read bytes = entry k)
    (small : DIRENTSIZE * count < 2 ^ 32) (keeps : Keeps dp device) (below : k ≤ count)
    (enough : count - k < fuel) :
    (Inode.scan sb devsw test message fuel (DIRENTSIZE * k) dp device = .error .blocks ∧ Fails) ∨
    ∃ dp' after, Keeps dp' after ∧
      Inode.scan sb devsw test message fuel (DIRENTSIZE * k) dp device = .ok (
        match (List.range' k (count - k)).find? fun j => test (entry j) with
        | some j => ((DIRENTSIZE * j, some (entry j)), dp', after)
        | none => ((DIRENTSIZE * count, none), dp', after)) := by
  induction fuel generalizing k dp device with
  | zero => omega
  | succ fuel ih =>
      rw [Inode.scan, isSize dp device keeps]
      by_cases inside : k < count
      · have goes : DIRENTSIZE * k < DIRENTSIZE * count :=
          Nat.mul_lt_mul_of_pos_left inside (by decide)
        have range : List.range' k (count - k) = k :: List.range' (k + 1) (count - (k + 1)) := by
          have length : count - k = count - (k + 1) + 1 := by omega
          rw [length, List.range'_succ]
        have nextOffset : (DIRENTSIZE * k + DIRENTSIZE) % 2 ^ 32 = DIRENTSIZE * (k + 1) := by
          have bound : DIRENTSIZE * (k + 1) ≤ DIRENTSIZE * count := Nat.mul_le_mul_left _ inside
          rw [Nat.mul_succ] at bound ⊢
          exact Nat.mod_eq_of_lt (Nat.lt_of_le_of_lt bound small)
        rw [if_pos goes, range, nextOffset]
        rcases reads dp device k keeps inside with
          ⟨isNone, fails⟩ | ⟨dp', after, bytes, isSome, keepsRest, isEntry⟩
        · rw [isNone]
          exact Or.inl ⟨rfl, fails⟩
        · simp only [isSome, ne_eq, not_true_eq_false, if_false, isEntry]
          by_cases passes : test (entry k) = true
          · refine Or.inr ⟨dp', after, keepsRest, ?_⟩
            simp only [passes, if_true, List.find?_cons_of_pos]
          · rw [if_neg passes, List.find?_cons_of_neg (by simpa using passes)]
            exact ih keepsRest inside (by omega)
      · have isEnd : k = count := by omega
        rw [isEnd, if_neg (Nat.lt_irrefl _), Nat.sub_self]
        exact Or.inr ⟨dp, device, keeps, rfl⟩

theorem test_eq_names (dip : Dinode) (blocks : ℕ → BlockData) (name : CString) :
    (fun j => decide ((dip.dirent blocks j).inum ≠ 0 ∧ namecmp name (dip.dirent blocks j).name = 0)) =
      fun j => decide (dip.Names blocks (chars DIRSIZ name) j) := by
  funext j
  apply decide_eq_decide.2
  rw [namecmp, strncmp_eq_zero, Dinode.Names]
  exact and_congr_right fun _ => eq_comm

theorem Dinode.Regular.small (regular : dp.Regular) : DIRENTSIZE * dp.count < 2 ^ 32 := by
  have fits := regular.fits
  rw [← regular.size_eq]
  simp only [MAXFILE, NDIRECT, NINDIRECT, BSIZE] at fits
  omega

theorem findEntry_of_solid (notDev : dp.type ≠ T_DEV) (regular : dp.Regular)
    (solid : dp.Solid device.block) (devsw : Devsw) (name : CString) :
    dp.findEntry sb devsw name device = .ok (
      match dp.entryFor device.block (chars DIRSIZ name) with
      | some j => ((DIRENTSIZE * j, some (dp.dirent device.block j)), dp, device)
      | none => ((dp.size.toNat, none), dp, device)) := by
  have reads : ∀ dp₁ device₁ k, (dp₁ = dp ∧ device₁ = device) → k < dp.count →
      (dp₁.readi sb devsw (DIRENTSIZE * k) DIRENTSIZE device₁ = none ∧ False) ∨
      ∃ dp' after bytes, dp₁.readi sb devsw (DIRENTSIZE * k) DIRENTSIZE device₁ =
        some ((((DIRENTSIZE : ℕ) : ℤ), bytes), dp', after) ∧ (dp' = dp ∧ after = device) ∧
        Dirent.read bytes = dp.dirent device.block k := by
    intro dp₁ device₁ k same inside
    right
    rw [same.1, same.2]
    have small := regular.small
    have bound : DIRENTSIZE * k + DIRENTSIZE ≤ DIRENTSIZE * dp.count := Nat.mul_le_mul_left _ inside
    have isSize := regular.size_eq
    have isCount : DIRENTSIZE = min DIRENTSIZE (dp.size.toNat - DIRENTSIZE * k) := by omega
    refine ⟨dp, device, _, ?_, ⟨rfl, rfl⟩, rfl⟩
    rw [readi_of_solid notDev isCount (by omega) (by omega) solid, toInt_small (by decide)]
  rcases scan_keeps (fun de => de.inum ≠ 0 ∧ namecmp name de.name = 0) "dirlookup read"
    (fun dp₁ device₁ same => by rw [same.1]; exact regular.size_eq) reads
    regular.small ⟨rfl, rfl⟩ (Nat.zero_le _) (Nat.lt_succ_self _) with ⟨_, impossible⟩ | ⟨_, _, ⟨rfl, rfl⟩, ends⟩
  · contradiction
  · rw [Dinode.entryFor, ← test_eq_names, regular.size_eq, List.range_eq_range']
    exact ends

variable (valid : sb.Valid) (metadata : device.Metadata sb) (placed : dp.Placed sb device)
  (notDev : dp.type ≠ T_DEV) (regular : dp.Regular)

include valid metadata placed notDev regular

theorem readi_dirent (inside : k < dp.count) :
    (dp.readi sb devsw (DIRENTSIZE * k) DIRENTSIZE device = none ∧ Exhausted sb device dp.toDinode) ∨
    ∃ dp' after bytes, dp.readi sb devsw (DIRENTSIZE * k) DIRENTSIZE device =
        some ((((DIRENTSIZE : ℕ) : ℤ), bytes), dp', after) ∧
      Filled sb device dp after dp' ∧ Dirent.read bytes = dp.dirent device.block k := by
  have isSize := regular.size_eq
  have fits := regular.fits
  have later : k + 1 ≤ dp.count := inside
  have bound : DIRENTSIZE * k + DIRENTSIZE ≤ dp.size.toNat := by
    rw [isSize, ← Nat.mul_succ]
    exact Nat.mul_le_mul_left _ later
  have isCount : DIRENTSIZE = min DIRENTSIZE (dp.size.toNat - DIRENTSIZE * k) := by omega
  have noWrap : DIRENTSIZE * k + DIRENTSIZE < 2 ^ 32 := by
    simp only [MAXFILE, NDIRECT, NINDIRECT, BSIZE] at fits
    omega
  rw [readi_eq notDev isCount (by omega) noWrap]
  cases copied : Inode.copyOut sb DIRENTSIZE DIRENTSIZE 0 (DIRENTSIZE * k) dp device with
  | none =>
      refine Or.inl ⟨rfl, ?_⟩
      exact copyOut_none valid metadata placed (Nat.sub_le _ _) (by omega) copied
  | some result =>
      rcases result with ⟨bytes, dp', after⟩
      rcases copyOut_filled valid metadata placed (Nat.sub_le _ _) copied with ⟨filled, rfl⟩
      refine Or.inr ⟨dp', after, _, ?_, filled, rfl⟩
      rw [Option.map_some, toInt_small (by decide), Nat.sub_zero]

theorem scan_all (test : Dirent → Bool) (message : String) :
    (Inode.scan sb devsw test message dp.steps 0 dp device = .error .blocks ∧
      Exhausted sb device dp.toDinode) ∨
    ∃ dp' after, Filled sb device dp after dp' ∧
      Inode.scan sb devsw test message dp.steps 0 dp device = .ok (
        match (List.range dp.count).find? fun j => test (dp.dirent device.block j) with
        | some j => ((DIRENTSIZE * j, some (dp.dirent device.block j)), dp', after)
        | none => ((dp.size.toNat, none), dp', after)) := by
  have reads : ∀ dp₁ device₁ k, Filled sb device dp device₁ dp₁ → k < dp.count →
      (dp₁.readi sb devsw (DIRENTSIZE * k) DIRENTSIZE device₁ = none ∧
        Exhausted sb device dp.toDinode) ∨
      ∃ dp' after bytes, dp₁.readi sb devsw (DIRENTSIZE * k) DIRENTSIZE device₁ =
        some ((((DIRENTSIZE : ℕ) : ℤ), bytes), dp', after) ∧ Filled sb device dp after dp' ∧
        Dirent.read bytes = dp.dirent device.block k := by
    intro dp₁ device₁ k filled inside
    have notDev₁ : dp₁.type ≠ T_DEV := by
      rw [filled.type_eq]
      exact notDev
    have inside₁ : k < dp₁.count := by
      rw [filled.count_eq]
      exact inside
    rcases readi_dirent valid (filled.extended.metadata valid metadata) filled.extended.placed notDev₁
      (filled.regular regular) inside₁ with
      ⟨isNone, exhausted⟩ | ⟨dp', after, bytes, isSome, more, isEntry⟩
    · exact Or.inl ⟨isNone, filled.extended.exhausted exhausted⟩
    · refine Or.inr ⟨dp', after, bytes, isSome, filled.trans more, ?_⟩
      rw [isEntry, filled.dirent_eq]
  have isSize : ∀ dp₁ device₁, Filled sb device dp device₁ dp₁ →
      dp₁.size.toNat = DIRENTSIZE * dp.count := by
    intro dp₁ device₁ filled
    rw [filled.size_eq]
    exact regular.size_eq
  rw [List.range_eq_range', regular.size_eq]
  exact scan_keeps test message isSize reads regular.small (.refl placed) (Nat.zero_le _) (Nat.lt_succ_self _)

theorem findEntry_spec (devsw : Devsw) (name : CString) :
    (dp.findEntry sb devsw name device = .error .blocks ∧ Exhausted sb device dp.toDinode) ∨
    ∃ dp' after, Filled sb device dp after dp' ∧
      dp.findEntry sb devsw name device = .ok (
        match dp.entryFor device.block (chars DIRSIZ name) with
        | some j => ((DIRENTSIZE * j, some (dp.dirent device.block j)), dp', after)
        | none => ((dp.size.toNat, none), dp', after)) := by
  rw [Dinode.entryFor, ← test_eq_names]
  exact scan_all valid metadata placed notDev regular
    (fun de => de.inum ≠ 0 ∧ namecmp name de.name = 0) "dirlookup read"

theorem findSlot_spec (devsw : Devsw) :
    (dp.findSlot sb devsw device = .error .blocks ∧ Exhausted sb device dp.toDinode) ∨
    ∃ dp' after found j, Filled sb device dp after dp' ∧
      dp.findSlot sb devsw device = .ok ((DIRENTSIZE * j, found), dp', after) ∧ j ≤ dp.count ∧
      (j < dp.count → (dp.dirent device.block j).inum = 0) := by
  rcases scan_all valid metadata placed notDev regular (fun de => de.inum = 0) "dirlink read" with
    fails | ⟨dp', after, filled, ends⟩
  · exact Or.inl fails
  · cases isFound : (List.range dp.count).find? fun j => decide ((dp.dirent device.block j).inum = 0) with
    | none =>
        refine Or.inr ⟨dp', after, none, dp.count, filled, ?_, Nat.le_refl _, ?_⟩
        · rw [Inode.findSlot, ends, isFound, ← regular.size_eq]
        · exact fun irreflexive => absurd irreflexive (Nat.lt_irrefl _)
    | some j =>
        have isFree := List.find?_some isFound
        have inside := List.mem_range.1 (List.mem_of_find?_eq_some isFound)
        refine Or.inr ⟨dp', after, some (dp.dirent device.block j), j, filled, ?_, Nat.le_of_lt inside, ?_⟩
        · rw [Inode.findSlot, ends, isFound]
        · exact fun _ => of_decide_eq_true isFree

end Scan

/-! ## The map -/

namespace Dinode

variable {dip dip' : Dinode} {blocks blocks' : ℕ → BlockData} {name : List UInt8} {inum k : ℕ}

theorem entryFor_eq_some (isFound : dip.entryFor blocks name = some k) :
    k < dip.count ∧ dip.Names blocks name k := by
  have passes := List.find?_some isFound
  exact ⟨List.mem_range.1 (List.mem_of_find?_eq_some isFound), of_decide_eq_true passes⟩

theorem lookup_eq_some (distinct : dip.Distinct blocks) :
    dip.lookup blocks name = some inum ↔
      ∃ k < dip.count, dip.Names blocks name k ∧ (dip.dirent blocks k).inum = inum := by
  rw [lookup, Option.map_eq_some_iff]
  constructor
  · rintro ⟨k, isFound, isInum⟩
    rcases entryFor_eq_some isFound with ⟨inside, names⟩
    exact ⟨k, inside, names, isInum⟩
  · rintro ⟨k, inside, names, isInum⟩
    refine ⟨k, ?_, isInum⟩
    cases isFound : dip.entryFor blocks name with
    | none =>
        have absent := List.find?_eq_none.1 isFound k (List.mem_range.2 inside)
        exact absurd (decide_eq_true names) absent
    | some j =>
        rcases entryFor_eq_some isFound with ⟨jInside, jNames⟩
        rw [distinct j jInside k inside jNames.1 names.1 (jNames.2.trans names.2.symm)]

theorem entryFor_eq_none :
    dip.entryFor blocks name = none ↔ ∀ k < dip.count, ¬dip.Names blocks name k := by
  rw [entryFor, List.find?_eq_none]
  simp only [List.mem_range, decide_eq_true_eq]

/-- One entry, or the one after the last, has been stored. -/
structure Sets (dip : Dinode) (blocks : ℕ → BlockData) (j : ℕ) (name : List UInt8) (inum : ℕ)
    (dip' : Dinode) (blocks' : ℕ → BlockData) : Prop where
  last : j ≤ dip.count
  isCount : dip'.count = max dip.count (j + 1)
  isInum : (dip'.dirent blocks' j).inum = inum
  isName : chars DIRSIZ (dip'.dirent blocks' j).name = name
  same : ∀ k, k ≠ j → dip'.dirent blocks' k = dip.dirent blocks k

theorem Sets.distinct {j : ℕ} (sets : dip.Sets blocks j name inum dip' blocks')
    (distinct : dip.Distinct blocks) (absent : inum ≠ 0 → dip.entryFor blocks name = none) :
    dip'.Distinct blocks' := by
  rcases sets with ⟨last, isCount, isInum, isName, same⟩
  have old : ∀ k < dip'.count, k ≠ j → k < dip.count := by omega
  have others : ∀ k < dip'.count, k ≠ j → (dip.dirent blocks k).inum ≠ 0 → inum ≠ 0 →
      chars DIRSIZ (dip.dirent blocks k).name ≠ name := by
    intro k below other used nonzero isSame
    exact entryFor_eq_none.1 (absent nonzero) k (old k below other) ⟨used, isSame⟩
  intro first firstBelow second secondBelow firstUsed secondUsed sameName
  by_cases isFirst : first = j
  · by_cases isSecond : second = j
    · rw [isFirst, isSecond]
    · rw [same second isSecond] at secondUsed sameName
      rw [isFirst, isInum] at firstUsed
      rw [isFirst, isName] at sameName
      exact absurd sameName.symm (others second secondBelow isSecond secondUsed firstUsed)
  · rw [same first isFirst] at firstUsed sameName
    by_cases isSecond : second = j
    · rw [isSecond, isInum] at secondUsed
      rw [isSecond, isName] at sameName
      exact absurd sameName (others first firstBelow isFirst firstUsed secondUsed)
    · rw [same second isSecond] at secondUsed sameName
      exact distinct first (old first firstBelow isFirst) second (old second secondBelow isSecond)
        firstUsed secondUsed sameName

theorem Sets.lookup_eq {j : ℕ} (sets : dip.Sets blocks j name inum dip' blocks')
    (distinct : dip.Distinct blocks) (absent : dip.entryFor blocks name = none)
    (free : j < dip.count → (dip.dirent blocks j).inum = 0) (nonzero : inum ≠ 0) (other : List UInt8) :
    dip'.lookup blocks' other = if other = name then some inum else dip.lookup blocks other := by
  have distinctAfter := sets.distinct distinct fun _ => absent
  rcases sets with ⟨last, isCount, isInum, isName, same⟩
  apply Option.ext
  intro value
  rw [lookup_eq_some distinctAfter]
  by_cases isNew : other = name
  · rw [if_pos isNew, Option.some.injEq, isNew]
    constructor
    · rintro ⟨k, below, names, rfl⟩
      by_cases isJ : k = j
      · rw [isJ, isInum]
      · rw [Names, same k isJ] at names
        have inside : k < dip.count := by omega
        exact absurd names (entryFor_eq_none.1 absent k inside)
    · rintro rfl
      refine ⟨j, by omega, ⟨?_, isName⟩, isInum⟩
      rw [isInum]
      exact nonzero
  · rw [if_neg isNew, lookup_eq_some distinct]
    constructor
    · rintro ⟨k, below, names, isValue⟩
      have notJ : k ≠ j := by
        rintro rfl
        exact isNew (names.2.symm.trans isName)
      have inside : k < dip.count := by omega
      rw [Names, same k notJ] at names
      rw [same k notJ] at isValue
      exact ⟨k, inside, names, isValue⟩
    · rintro ⟨k, inside, names, isValue⟩
      have notJ : k ≠ j := by
        rintro rfl
        exact names.1 (free inside)
      refine ⟨k, by omega, ?_, ?_⟩
      · rw [Names, same k notJ]
        exact names
      · rw [same k notJ]
        exact isValue

end Dinode

/-! ## Storing an entry -/

theorem Dirent.read_bytes (de : Dirent) (small : de.inum < 2 ^ 16) :
    (Dirent.read ((List.range DIRENTSIZE).map de.byte)).inum = de.inum ∧
      chars DIRSIZ (Dirent.read ((List.range DIRENTSIZE).map de.byte)).name = chars DIRSIZ de.name := by
  have getD : ∀ i < DIRENTSIZE, ((List.range DIRENTSIZE).map de.byte).getD i 0 = de.byte i := by
    intro i below
    rw [List.getD_eq_getElem?_getD, List.getElem?_map, List.getElem?_range below]
    rfl
  constructor
  · have low : (de.byte 0).toNat = de.inum % 256 := by simp [Dirent.byte, Bytes.byte]
    have high : (de.byte 1).toNat = de.inum / 256 % 256 := by simp [Dirent.byte, Bytes.byte]
    simp only [Dirent.read]
    rw [getD 0 (by decide), getD 1 (by decide), low, high]
    omega
  · apply chars_congr
    intro i below
    simp only [Dirent.read]
    rw [getD (2 + i) (by simp only [DIRENTSIZE]; omega), Dirent.byte, if_neg (by omega),
      Nat.add_sub_cancel_left]

section Store

variable {sb : Superblock} {device after : Device} {dp dp' : Inode} {j k : ℕ} {de : Dirent}
  (wrote : Wrote sb device dp (DIRENTSIZE * j) DIRENTSIZE de.byte after dp')

include wrote

theorem Wrote.dirent_self :
    dp'.dirent after.block j = .read ((List.range DIRENTSIZE).map de.byte) := by
  rw [Dinode.dirent]
  congr 1
  apply List.map_congr_left
  intro i mem
  have inside : i < DIRENTSIZE := List.mem_range.1 mem
  rw [wrote.bytes, if_pos (by omega), Nat.add_sub_cancel_left]

theorem Wrote.dirent_of_ne (other : k ≠ j) : dp'.dirent after.block k = dp.dirent device.block k := by
  rw [Dinode.dirent, Dinode.dirent]
  congr 1
  apply List.map_congr_left
  intro i mem
  have inside : i < DIRENTSIZE := List.mem_range.1 mem
  rw [wrote.bytes, if_neg]
  simp only [DIRENTSIZE, DIRSIZ] at inside ⊢
  omega

section

variable (last : j ≤ dp.count) (regular : dp.Regular)

include last regular

theorem Wrote.size_entry : dp'.size.toNat = DIRENTSIZE * max dp.count (j + 1) := by
  rw [wrote.size, if_neg (by decide), regular.size_eq]
  simp only [DIRENTSIZE, DIRSIZ]
  omega

theorem Wrote.count_entry : dp'.count = max dp.count (j + 1) := by
  rw [Dinode.count, wrote.size_entry last regular]
  exact Nat.mul_div_cancel_left _ (by decide)

theorem Wrote.regular_entry (fits : DIRENTSIZE * (j + 1) ≤ MAXFILE * BSIZE) : dp'.Regular where
  whole := by
    rw [wrote.size_entry last regular]
    exact Nat.dvd_mul_right _ _
  fits := by
    have size := wrote.size_entry last regular
    have isSize := regular.size_eq
    have before := regular.fits
    simp only [DIRENTSIZE, DIRSIZ] at size isSize fits
    omega

theorem Wrote.sets (small : de.inum < 2 ^ 16) :
    dp.Sets device.block j (chars DIRSIZ de.name) de.inum dp'.toDinode after.block where
  last := last
  isCount := wrote.count_entry last regular
  isInum := by
    rw [wrote.dirent_self]
    exact (Dirent.read_bytes de small).1
  isName := by
    rw [wrote.dirent_self]
    exact (Dirent.read_bytes de small).2
  same := fun _ other => wrote.dirent_of_ne other

end

end Store

/-! ## dirlookup and dirlink -/

/-- A directory that a process has locked, with whole entries and no name twice. -/
structure DirInv (sb : Superblock) (p : Slot) (d : InodeId) (state : FsState) : Prop where
  valid : sb.Valid
  isDir : (state.icache d).type = T_DIR
  held : (state.icache d).holder = some p
  used : 0 < (state.icache d).ref
  isInode : (state.icache d).inum < sb.ninodes
  metadata : (state.deviceOf d).Metadata sb
  placed : (state.icache d).Placed sb (state.deviceOf d)
  regular : (state.icache d).Regular
  distinct : (state.icache d).Distinct (state.deviceOf d).block
  free : ∀ i, (state.icache i).ref = 0 → (state.icache i).holder = none

namespace FsState

def lookup (state : FsState) (d : InodeId) (name : CString) : Option ℕ :=
  (state.icache d).lookup (state.deviceOf d).block (chars DIRSIZ name)

def byteAt (state : FsState) (d : InodeId) (i : ℕ) : UInt8 :=
  (state.icache d).byteAt (state.deviceOf d).block i

end FsState

section Link

variable {sb : Superblock} {devsw : Devsw} {p : Slot} {d : InodeId} {state after : FsState}
  {dp' : Inode} {device' : Device} {name : CString}

theorem deviceOf_store (sameDev : dp'.dev = (state.icache d).dev) :
    (state.store d dp' device').deviceOf d = device' := by
  simp [FsState.deviceOf, FsState.store, sameDev]

theorem icache_store : (state.store d dp' device').icache d = dp' := Function.update_self ..

theorem icache_store_of_ne {i : InodeId} (other : i ≠ d) :
    (state.store d dp' device').icache i = state.icache i := Function.update_of_ne other ..

section

variable (filled : Filled sb (state.deviceOf d) (state.icache d) device' dp')

include filled

theorem Filled.same_fields (i : InodeId) :
    ((state.store d dp' device').icache i).ref = (state.icache i).ref ∧
      ((state.store d dp' device').icache i).dev = (state.icache i).dev ∧
      ((state.store d dp' device').icache i).inum = (state.icache i).inum ∧
      ((state.store d dp' device').icache i).holder = (state.icache i).holder := by
  by_cases same : i = d
  · subst same
    rcases filled.same with ⟨addrs, rfl⟩
    rw [icache_store]
    exact ⟨rfl, rfl, rfl, rfl⟩
  · rw [icache_store_of_ne same]
    exact ⟨rfl, rfl, rfl, rfl⟩

theorem Filled.cached_eq (dev inum : ℕ) :
    (state.store d dp' device').cached dev inum = state.cached dev inum := by
  simp only [FsState.cached, filled.same_fields]

theorem Filled.empty_eq : (state.store d dp' device').empty = state.empty := by
  simp only [FsState.empty, filled.same_fields]

end

theorem Filled.distinct {device : Device} {dp : Inode} (filled : Filled sb device dp device' dp')
    (distinct : dp.Distinct device.block) : dp'.Distinct device'.block := by
  intro j jBelow k kBelow
  rw [filled.count_eq] at jBelow kBelow
  simp only [filled.dirent_eq]
  exact distinct j jBelow k kBelow

theorem Filled.entryFor_eq {device : Device} {dp : Inode} (filled : Filled sb device dp device' dp')
    (name : List UInt8) : dp'.entryFor device'.block name = dp.entryFor device.block name := by
  have same (k : ℕ) : decide (dp'.Names device'.block name k) = decide (dp.Names device.block name k) := by
    apply decide_eq_decide.2
    simp only [Dinode.Names, filled.dirent_eq]
  simp only [Dinode.entryFor, filled.count_eq, same]

theorem Filled.lookup_eq {device : Device} {dp : Inode} (filled : Filled sb device dp device' dp')
    (name : List UInt8) : dp'.lookup device'.block name = dp.lookup device.block name := by
  simp only [Dinode.lookup, filled.entryFor_eq, filled.dirent_eq]

theorem store_store {dp : Inode} {device : Device} (sameDev : dp.dev = (state.icache d).dev) :
    (state.store d dp device).store d dp' device' = state.store d dp' device' := by
  simp [FsState.store, sameDev]

theorem DirInv.store (inv : DirInv sb p d state)
    (filled : Filled sb (state.deviceOf d) (state.icache d) device' dp') :
    DirInv sb p d (state.store d dp' device') := by
  have same := filled.same_fields
  have isDevice : (state.store d dp' device').deviceOf d = device' :=
    deviceOf_store filled.dev_eq
  constructor
  · exact inv.valid
  · rw [icache_store, filled.type_eq]
    exact inv.isDir
  · rw [(same d).2.2.2]
    exact inv.held
  · rw [(same d).1]
    exact inv.used
  · rw [(same d).2.2.1]
    exact inv.isInode
  · rw [isDevice]
    exact filled.extended.metadata inv.valid inv.metadata
  · rw [isDevice, icache_store]
    exact filled.extended.placed
  · rw [icache_store]
    exact filled.regular inv.regular
  · rw [isDevice, icache_store]
    exact filled.distinct inv.distinct
  · intro i unused
    rw [(same i).1] at unused
    rw [(same i).2.2.2]
    exact inv.free i unused

theorem T_DIR_ne_T_DEV : T_DIR ≠ T_DEV := by decide

theorem dirlookup_spec (inv : DirInv sb p d state) (devsw : Devsw) (name : CString) :
    (state.dirlookup sb devsw d name = .error .blocks ∧
      Exhausted sb (state.deviceOf d) (state.icache d).toDinode) ∨
    ∃ dp' device', Filled sb (state.deviceOf d) (state.icache d) device' dp' ∧
      match (state.icache d).entryFor (state.deviceOf d).block (chars DIRSIZ name) with
      | none => state.dirlookup sb devsw d name = .ok (none, state.store d dp' device')
      | some j =>
          let inum := ((state.icache d).dirent (state.deviceOf d).block j).inum
          state.dirlookup sb devsw d name = .error (.panic "iget: no inodes") ∧
              state.cached (state.icache d).dev inum = none ∧ state.empty = none ∨
            ∃ i after, state.dirlookup sb devsw d name = .ok (some (i, DIRENTSIZE * j), after) ∧
              Got (state.store d dp' device') (state.icache d).dev inum i after := by
  have isDir : ¬(state.icache d).type ≠ T_DIR := not_not.2 inv.isDir
  have notDev : (state.icache d).type ≠ T_DEV := by
    rw [inv.isDir]
    exact T_DIR_ne_T_DEV
  rcases findEntry_spec inv.valid inv.metadata inv.placed notDev inv.regular devsw name with
    ⟨fails, exhausted⟩ | ⟨dp', device', filled, isFound⟩
  · left
    refine ⟨?_, exhausted⟩
    simp only [FsState.dirlookup, if_neg isDir, fails, bind, Except.bind]
  · right
    refine ⟨dp', device', filled, ?_⟩
    cases isEntry : (state.icache d).entryFor (state.deviceOf d).block (chars DIRSIZ name) with
    | none =>
        simp only [FsState.dirlookup, if_neg isDir, isFound, isEntry, bind, Except.bind, pure, Except.pure]
    | some j =>
        simp only [FsState.dirlookup, if_neg isDir, isFound, isEntry, bind, Except.bind, pure,
          Except.pure, filled.dev_eq]
        rcases iget_spec (state.store d dp' device') (state.icache d).dev
          ((state.icache d).dirent (state.deviceOf d).block j).inum with
          ⟨isPanic, uncached, noSlot⟩ | ⟨i, after, isGot, got⟩
        · left
          rw [filled.cached_eq] at uncached
          rw [filled.empty_eq] at noSlot
          simp only [isPanic]
          exact ⟨trivial, uncached, noSlot⟩
        · right
          simp only [isGot]
          exact ⟨i, after, rfl, got⟩

/-- Why `dirlookup` or `dirlink` of a name does not return. The inode of the name can be locked as
the directory itself. -/
inductive Hindered (sb : Superblock) (d : InodeId) (state : FsState) (name : CString) : FsStop → Prop
  | blocks (exhausted : Exhausted sb (state.deviceOf d) (state.icache d).toDinode) :
      Hindered sb d state name .blocks
  | slots {inum : ℕ} (isLookup : state.lookup d name = some inum)
      (uncached : state.cached (state.icache d).dev inum = none) (noSlot : state.empty = none) :
      Hindered sb d state name (.panic "iget: no inodes")
  | locked {inum : ℕ} {i : InodeId} (isLookup : state.lookup d name = some inum)
      (isCached : state.cached (state.icache d).dev inum = some i)
      (isLocked : (state.icache i).holder ≠ none) : Hindered sb d state name .locked
  | full (isFull : (state.icache d).size.toNat = MAXFILE * BSIZE) :
      Hindered sb d state name (.panic "dirlink")

theorem Filled.lookup_store (filled : Filled sb (state.deviceOf d) (state.icache d) device' dp')
    (name : CString) : (state.store d dp' device').lookup d name = state.lookup d name := by
  rw [FsState.lookup, deviceOf_store filled.dev_eq, icache_store]
  exact filled.lookup_eq _

theorem Filled.hindered {stop : FsStop}
    (filled : Filled sb (state.deviceOf d) (state.icache d) device' dp')
    (hindered : Hindered sb d (state.store d dp' device') name stop) : Hindered sb d state name stop := by
  have sameDev : ((state.store d dp' device').icache d).dev = (state.icache d).dev :=
    (filled.same_fields d).2.1
  cases hindered with
  | blocks exhausted =>
      rw [deviceOf_store filled.dev_eq, icache_store] at exhausted
      exact .blocks (filled.extended.exhausted exhausted)
  | slots isLookup uncached noSlot =>
      rw [filled.lookup_store] at isLookup
      rw [filled.cached_eq, sameDev] at uncached
      rw [filled.empty_eq] at noSlot
      exact .slots isLookup uncached noSlot
  | @locked _ i isLookup isCached isLocked =>
      rw [filled.lookup_store] at isLookup
      rw [filled.cached_eq, sameDev] at isCached
      rw [(filled.same_fields i).2.2.2] at isLocked
      exact .locked isLookup isCached isLocked
  | full isFull =>
      rw [icache_store, filled.size_eq] at isFull
      exact .full isFull

section

variable (inv : DirInv sb p d state)

include inv

theorem DirInv.modify {i : InodeId} (other : i ≠ d)
    (others : ∀ k, k ≠ i → after.icache k = state.icache k)
    (sameDevice : after.device = state.device) (unlocked : (after.icache i).holder = none) :
    DirInv sb p d after ∧ after.icache d = state.icache d ∧ after.deviceOf d = state.deviceOf d := by
  have same : after.icache d = state.icache d := others d other.symm
  have sameOf : after.deviceOf d = state.deviceOf d := by
    rw [FsState.deviceOf, FsState.deviceOf, same, sameDevice]
  refine ⟨?_, same, sameOf⟩
  constructor
  · exact inv.valid
  · rw [same]
    exact inv.isDir
  · rw [same]
    exact inv.held
  · rw [same]
    exact inv.used
  · rw [same]
    exact inv.isInode
  · rw [sameOf]
    exact inv.metadata
  · rw [same, sameOf]
    exact inv.placed
  · rw [same]
    exact inv.regular
  · rw [same, sameOf]
    exact inv.distinct
  · intro k unused
    by_cases isSlot : k = i
    · rw [isSlot]
      exact unlocked
    · rw [others k isSlot] at unused ⊢
      exact inv.free k unused

theorem dirlink_present {j inum : ℕ}
    (isEntry : (state.icache d).entryFor (state.deviceOf d).block (chars DIRSIZ name) = some j) :
    (∃ stop, state.dirlink sb devsw p d name inum = .error stop ∧ Hindered sb d state name stop) ∨
    ∃ after, state.dirlink sb devsw p d name inum = .ok (-1, after) ∧ DirInv sb p d after ∧
      (after.icache d).size = (state.icache d).size ∧ ∀ i, after.byteAt d i = state.byteAt d i := by
  have isLookup : state.lookup d name =
      some ((state.icache d).dirent (state.deviceOf d).block j).inum := by
    rw [FsState.lookup, Dinode.lookup, isEntry, Option.map_some]
  rcases dirlookup_spec inv devsw name with ⟨fails, exhausted⟩ | ⟨dp', device', filled, found⟩
  · left
    refine ⟨.blocks, ?_, .blocks exhausted⟩
    simp only [FsState.dirlink, fails, bind, Except.bind]
  rw [isEntry] at found
  rcases found with ⟨fails, uncached, noSlot⟩ | ⟨i, middle, isFound, got⟩
  · left
    refine ⟨_, ?_, .slots isLookup uncached noSlot⟩
    simp only [FsState.dirlink, fails, bind, Except.bind]
  have sameHolder : (middle.icache i).holder = (state.icache i).holder := by
    rw [got.holder, (filled.same_fields i).2.2.2]
  by_cases unlocked : (state.icache i).holder = none
  · right
    have other : i ≠ d := by
      rintro rfl
      rw [inv.held] at unlocked
      contradiction
    have isPut : middle.iput sb p i = .ok (middle.modify i fun ip =>
        { ip with holder := none, ref := ip.ref - 1 }) :=
      iput_kept (sameHolder.trans unlocked) got.kept
    have others : ∀ k, k ≠ i → (middle.modify i fun ip =>
        { ip with holder := none, ref := ip.ref - 1 }).icache k =
        (state.store d dp' device').icache k := by
      intro k notSlot
      rw [← got.others k notSlot]
      exact Function.update_of_ne notSlot ..
    have given : ((middle.modify i fun ip =>
        { ip with holder := none, ref := ip.ref - 1 }).icache i).holder = none := by
      simp [FsState.modify]
    rcases (inv.store filled).modify other others got.device given with ⟨invAfter, same, sameOf⟩
    refine ⟨_, ?_, invAfter, ?_, ?_⟩
    · simp only [FsState.dirlink, isFound, isPut, bind, Except.bind, pure, Except.pure]
    · rw [same, icache_store, filled.size_eq]
    · intro k
      rw [FsState.byteAt, same, sameOf, icache_store, deviceOf_store filled.dev_eq]
      exact filled.bytes k
  · left
    refine ⟨.locked, ?_, ?_⟩
    · have isLocked : (middle.icache i).holder.isSome = true := by
        rw [sameHolder]
        exact Option.isSome_iff_ne_none.2 unlocked
      simp only [FsState.dirlink, isFound, FsState.iput, FsState.acquiresleep, isLocked, if_true, bind,
        Except.bind]
    · rcases got.slot with ⟨isCached, _⟩ | ⟨_, unused, _⟩
      · rw [filled.cached_eq] at isCached
        exact .locked isLookup isCached unlocked
      · rw [(filled.same_fields i).1] at unused
        exact absurd (inv.free i unused) unlocked

theorem DirInv.write {j : ℕ} {de : Dirent}
    (wrote : Wrote sb (state.deviceOf d) (state.icache d) (DIRENTSIZE * j) DIRENTSIZE de.byte device' dp')
    (last : j ≤ (state.icache d).count) (fits : DIRENTSIZE * (j + 1) ≤ MAXFILE * BSIZE)
    (distinct : dp'.Distinct device'.block) : DirInv sb p d (state.store d dp' device') := by
  rcases wrote.same with ⟨addrs, size, isDp⟩
  have sameDev : dp'.dev = (state.icache d).dev := by rw [isDp]
  have isDevice : (state.store d dp' device').deviceOf d = device' := deviceOf_store sameDev
  constructor
  · exact inv.valid
  · rw [icache_store, isDp]
    exact inv.isDir
  · rw [icache_store, isDp]
    exact inv.held
  · rw [icache_store, isDp]
    exact inv.used
  · rw [icache_store, isDp]
    exact inv.isInode
  · rw [isDevice]
    exact wrote.extended.metadata inv.valid inv.metadata
  · rw [isDevice, icache_store]
    exact wrote.extended.placed
  · rw [icache_store]
    exact wrote.regular_entry last inv.regular fits
  · rw [isDevice, icache_store]
    exact distinct
  · intro i unused
    by_cases same : i = d
    · rw [same, icache_store, isDp] at unused
      have used := inv.used
      simp only at unused
      omega
    · rw [icache_store_of_ne same] at unused ⊢
      exact inv.free i unused

theorem DirInv.writei_entry {j : ℕ} (devsw : Devsw) (de : Dirent)
    (last : j ≤ (state.icache d).count) (fits : DIRENTSIZE * (j + 1) ≤ MAXFILE * BSIZE) :
    ((state.icache d).writei sb devsw de.byte (DIRENTSIZE * j) DIRENTSIZE (state.deviceOf d) = none ∧
      Exhausted sb (state.deviceOf d) (state.icache d).toDinode) ∨
    ∃ dp' after, (state.icache d).writei sb devsw de.byte (DIRENTSIZE * j) DIRENTSIZE
        (state.deviceOf d) = some (((DIRENTSIZE : ℕ) : ℤ), dp', after) ∧
      Wrote sb (state.deviceOf d) (state.icache d) (DIRENTSIZE * j) DIRENTSIZE de.byte after dp' := by
  have notDev : (state.icache d).type ≠ T_DEV := by
    rw [inv.isDir]
    exact T_DIR_ne_T_DEV
  have inside : DIRENTSIZE * j ≤ (state.icache d).size.toNat := by
    rw [inv.regular.size_eq]
    exact Nat.mul_le_mul_left _ last
  cases written : (state.icache d).writei sb devsw de.byte (DIRENTSIZE * j) DIRENTSIZE
      (state.deviceOf d) with
  | none =>
      rw [writei_eq notDev inside fits, Option.map_eq_none_iff] at written
      have exhausted := copyIn_exhausts inv.valid inv.metadata inv.placed (Nat.sub_le _ _) fits written
      exact Or.inl ⟨rfl, exhausted.exhausted⟩
  | some result =>
      rcases result with ⟨r, dp', after⟩
      rcases writei_wrote inv.valid inv.metadata inv.placed inv.isInode notDev inside fits written with
        ⟨rfl, wrote⟩
      exact Or.inr ⟨dp', after, rfl, wrote⟩

theorem addEntry_spec (devsw : Devsw) (inum : ℕ)
    (absent : (state.icache d).entryFor (state.deviceOf d).block (chars DIRSIZ name) = none) :
    (∃ stop, state.addEntry sb devsw d name inum = .error stop ∧ Hindered sb d state name stop) ∨
    ∃ after, state.addEntry sb devsw d name inum = .ok (0, after) ∧ DirInv sb p d after ∧
      (0 < inum → inum < 2 ^ 16 → ∀ other, after.lookup d other =
        if chars DIRSIZ other = chars DIRSIZ name then some inum else state.lookup d other) := by
  have notDev : (state.icache d).type ≠ T_DEV := by
    rw [inv.isDir]
    exact T_DIR_ne_T_DEV
  rcases findSlot_spec inv.valid inv.metadata inv.placed notDev inv.regular devsw with
    ⟨fails, exhausted⟩ | ⟨dp₁, device₁, found, j, filled, isSlot, last, free⟩
  · left
    refine ⟨.blocks, ?_, .blocks exhausted⟩
    simp only [FsState.addEntry, fails, bind, Except.bind]
  have stored := inv.store filled
  have isDevice : (state.store d dp₁ device₁).deviceOf d = device₁ := deviceOf_store filled.dev_eq
  have isDp : (state.store d dp₁ device₁).icache d = dp₁ := icache_store
  have last₁ : j ≤ dp₁.count := by
    rw [filled.count_eq]
    exact last
  by_cases fits : DIRENTSIZE * (j + 1) ≤ MAXFILE * BSIZE
  · rcases stored.writei_entry devsw { inum := inum % 2 ^ 16, name := strncpy DIRSIZ name }
      (isDp.symm ▸ last₁) fits with ⟨fails, exhausted⟩ | ⟨dp₂, device₂, written, wrote⟩
    · left
      rw [isDp, isDevice] at fails exhausted
      refine ⟨.blocks, ?_, .blocks (filled.extended.exhausted exhausted)⟩
      simp only [FsState.addEntry, isSlot, fails, bind, Except.bind]
    · right
      have sets := wrote.sets (isDp.symm ▸ last₁) stored.regular (Nat.mod_lt _ (by decide))
      simp only [chars_strncpy, isDp, isDevice] at sets
      have absent₁ : dp₁.entryFor device₁.block (chars DIRSIZ name) = none := by
        rw [filled.entryFor_eq]
        exact absent
      have distinct₁ := filled.distinct inv.distinct
      have invAfter := stored.write wrote (isDp.symm ▸ last₁) fits
        (sets.distinct distinct₁ fun _ => absent₁)
      rw [store_store filled.dev_eq] at invAfter
      refine ⟨state.store d dp₂ device₂, ?_, invAfter, ?_⟩
      · rw [isDp, isDevice] at written
        simp only [FsState.addEntry, isSlot, written, bind, Except.bind, pure, Except.pure, ne_eq,
          not_true_eq_false, if_false]
      · intro positive small other
        have sameDev : dp₂.dev = (state.icache d).dev := by
          rcases wrote.same with ⟨_, _, rfl⟩
          rw [isDp]
          exact filled.dev_eq
        have free₁ : j < dp₁.count → (dp₁.dirent device₁.block j).inum = 0 := by
          rw [filled.count_eq, filled.dirent_eq]
          exact free
        rw [Nat.mod_eq_of_lt small] at sets
        rw [FsState.lookup, icache_store, deviceOf_store sameDev,
          sets.lookup_eq distinct₁ absent₁ free₁ (Nat.ne_of_gt positive), filled.lookup_eq]
        rfl
  · left
    have isSize := inv.regular.size_eq
    have fitsNow := inv.regular.fits
    have isUint : DIRENTSIZE * j < 2 ^ 32 ∧ DIRENTSIZE < 2 ^ 32 := by
      simp only [DIRENTSIZE, DIRSIZ, MAXFILE, NDIRECT, NINDIRECT, BSIZE] at isSize fitsNow ⊢
      omega
    have notDev₁ : dp₁.type ≠ T_DEV := by
      rw [filled.type_eq]
      exact notDev
    have refused : ∀ src, dp₁.writei sb devsw src (DIRENTSIZE * j) DIRENTSIZE device₁ =
        some (-1, dp₁, device₁) :=
      fun src => writei_refused notDev₁ isUint (Or.inr (Nat.lt_of_not_le fits))
    refine ⟨.panic "dirlink", ?_, .full ?_⟩
    · simp only [FsState.addEntry, isSlot, refused, bind, Except.bind]
      rfl
    · simp only [DIRENTSIZE, DIRSIZ, MAXFILE, NDIRECT, NINDIRECT, BSIZE] at isSize fitsNow fits ⊢
      omega

theorem dirlink_absent {inum : ℕ}
    (absent : (state.icache d).entryFor (state.deviceOf d).block (chars DIRSIZ name) = none) :
    (∃ stop, state.dirlink sb devsw p d name inum = .error stop ∧ Hindered sb d state name stop) ∨
    ∃ after, state.dirlink sb devsw p d name inum = .ok (0, after) ∧ DirInv sb p d after ∧
      (0 < inum → inum < 2 ^ 16 → ∀ other, after.lookup d other =
        if chars DIRSIZ other = chars DIRSIZ name then some inum else state.lookup d other) := by
  rcases dirlookup_spec inv devsw name with ⟨fails, exhausted⟩ | ⟨dp₁, device₁, filled, found⟩
  · left
    refine ⟨.blocks, ?_, .blocks exhausted⟩
    simp only [FsState.dirlink, fails, bind, Except.bind]
  rw [absent] at found
  have goesOn : state.dirlink sb devsw p d name inum =
      (state.store d dp₁ device₁).addEntry sb devsw d name inum := by
    simp only [FsState.dirlink, found, bind, Except.bind]
  have stillAbsent : ((state.store d dp₁ device₁).icache d).entryFor
      ((state.store d dp₁ device₁).deviceOf d).block (chars DIRSIZ name) = none := by
    rw [deviceOf_store filled.dev_eq, icache_store, filled.entryFor_eq]
    exact absent
  rw [goesOn]
  rcases addEntry_spec (inv.store filled) devsw inum stillAbsent with
    ⟨stop, fails, hindered⟩ | ⟨after, isAfter, invAfter, updated⟩
  · exact Or.inl ⟨stop, fails, filled.hindered hindered⟩
  · refine Or.inr ⟨after, isAfter, invAfter, ?_⟩
    intro positive small other
    rw [updated positive small, filled.lookup_store]

end

end Link

end Xv6
