import Xv6.Fs.Inode

/-!
# What an inode contains

The blocks of an inode stand at its places: the direct addresses, the indirect block and its
entries. If they are in use, and at one place each, `bmap` only fills places that are empty, with
blocks of zeros, and the bytes of the file stay the same.
-/

namespace Xv6

namespace Dinode

def indirect (dip : Dinode) : ℕ := (dip.addrs (Fin.last NDIRECT)).toNat

/-- The block at a place: the indirect block, or the block with a number. There is none if it
is 0. -/
def addr (dip : Dinode) (blocks : ℕ → BlockData) : Option ℕ → ℕ
  | none => dip.indirect
  | some bn =>
      if direct : bn < NDIRECT then (dip.addrs ⟨bn, Nat.lt_succ_of_lt direct⟩).toNat
      else if bn - NDIRECT < NINDIRECT ∧ dip.indirect ≠ 0 then
        (uint (blocks dip.indirect) (4 * (bn - NDIRECT))).toNat
      else 0

/-- A byte of the contents. Where there is no block it is zero. -/
def byteAt (dip : Dinode) (blocks : ℕ → BlockData) (i : ℕ) : UInt8 :=
  if dip.addr blocks (some (i / BSIZE)) = 0 then 0
  else blocks (dip.addr blocks (some (i / BSIZE))) (i % BSIZE)

/-- The blocks are data blocks in use, each at one place. -/
structure Placed (sb : Superblock) (device : Device) (dip : Dinode) : Prop where
  used : ∀ place, dip.addr device.block place ≠ 0 →
    sb.nmeta ≤ dip.addr device.block place ∧ dip.addr device.block place < sb.size ∧
      device.inUse sb (dip.addr device.block place) = true
  distinct : ∀ place other, dip.addr device.block place ≠ 0 →
    dip.addr device.block place = dip.addr device.block other → place = other

section Addresses

variable {dip dip' : Dinode} {blocks blocks' : ℕ → BlockData} {bn b : ℕ}

theorem addr_direct (direct : bn < NDIRECT) :
    dip.addr blocks (some bn) = (dip.addrs ⟨bn, Nat.lt_succ_of_lt direct⟩).toNat := by
  simp only [addr, dif_pos direct]

theorem addr_entry (isEntry : NDIRECT ≤ bn) (inside : bn < MAXFILE) (present : dip.indirect ≠ 0) :
    dip.addr blocks (some bn) = (uint (blocks dip.indirect) (4 * (bn - NDIRECT))).toNat := by
  have below : bn - NDIRECT < NINDIRECT := by
    simp only [MAXFILE] at inside
    omega
  simp only [addr, dif_neg (Nat.not_lt.2 isEntry), if_pos (And.intro below present)]

theorem addr_of_no_indirect (isEntry : NDIRECT ≤ bn) (absent : dip.indirect = 0) :
    dip.addr blocks (some bn) = 0 := by
  simp [addr, dif_neg (Nat.not_lt.2 isEntry), absent]

theorem addr_of_large (large : MAXFILE ≤ bn) : dip.addr blocks (some bn) = 0 := by
  have isEntry : ¬bn < NDIRECT := by
    simp only [MAXFILE] at large
    omega
  have outside : ¬(bn - NDIRECT < NINDIRECT ∧ dip.indirect ≠ 0) := by
    simp only [MAXFILE] at large
    omega
  simp only [addr, dif_neg isEntry, if_neg outside]

theorem addr_some_congr (sameIndirect : dip'.indirect = dip.indirect)
    (sameDirect : ∀ direct : bn < NDIRECT,
      dip'.addrs ⟨bn, Nat.lt_succ_of_lt direct⟩ = dip.addrs ⟨bn, Nat.lt_succ_of_lt direct⟩)
    (agree : dip.indirect ≠ 0 → ∀ i < BSIZE, blocks' dip.indirect i = blocks dip.indirect i) :
    dip'.addr blocks' (some bn) = dip.addr blocks (some bn) := by
  by_cases direct : bn < NDIRECT
  · rw [addr_direct direct, addr_direct direct, sameDirect direct]
  · have isEntry := Nat.not_lt.1 direct
    by_cases absent : dip.indirect = 0
    · rw [addr_of_no_indirect isEntry absent,
        addr_of_no_indirect isEntry (sameIndirect.trans absent)]
    · by_cases inside : bn < MAXFILE
      · rw [addr_entry isEntry inside absent,
          addr_entry isEntry inside (by rw [sameIndirect]; exact absent), sameIndirect]
        apply congrArg UInt32.toNat
        apply uint_congr
        intro i below
        apply agree absent
        simp only [MAXFILE, NDIRECT, NINDIRECT, BSIZE] at inside isEntry ⊢
        omega
      · rw [addr_of_large (Nat.not_lt.1 inside), addr_of_large (Nat.not_lt.1 inside)]

theorem addr_congr (same : dip'.addrs = dip.addrs)
    (agree : dip.indirect ≠ 0 → ∀ i < BSIZE, blocks' dip.indirect i = blocks dip.indirect i)
    (place : Option ℕ) : dip'.addr blocks' place = dip.addr blocks place := by
  have sameIndirect : dip'.indirect = dip.indirect := by rw [indirect, indirect, same]
  cases place with
  | none => exact sameIndirect
  | some bn => exact addr_some_congr sameIndirect (fun _ => by rw [same]) agree

theorem placed_of_direct {sb : Superblock} {device : Device} (absent : dip.indirect = 0)
    (used : ∀ i : Fin NDIRECT, dip.addrs i.castSucc ≠ 0 → sb.nmeta ≤ (dip.addrs i.castSucc).toNat ∧
      (dip.addrs i.castSucc).toNat < sb.size ∧
      device.inUse sb (dip.addrs i.castSucc).toNat = true)
    (distinct : ∀ i j : Fin NDIRECT, dip.addrs i.castSucc ≠ 0 →
      dip.addrs i.castSucc = dip.addrs j.castSucc → i = j) : dip.Placed sb device := by
  have isDirect : ∀ place, dip.addr device.block place ≠ 0 → ∃ i : Fin NDIRECT,
      place = some i.val ∧ dip.addr device.block place = (dip.addrs i.castSucc).toNat ∧
        dip.addrs i.castSucc ≠ 0 := by
    intro place present
    cases place with
    | none => exact absurd absent present
    | some bn =>
        by_cases direct : bn < NDIRECT
        · rw [addr_direct direct] at present ⊢
          refine ⟨⟨bn, direct⟩, rfl, rfl, ?_⟩
          intro isZero
          exact present (congrArg UInt32.toNat isZero)
        · exact absurd (addr_of_no_indirect (Nat.not_lt.1 direct) absent) present
  constructor
  · intro place present
    rcases isDirect place present with ⟨i, _, isAddr, nonzero⟩
    rw [isAddr]
    exact used i nonzero
  · intro place other present same
    rcases isDirect place present with ⟨i, rfl, isAddr, nonzero⟩
    rcases isDirect other (same ▸ present) with ⟨j, rfl, isOther, _⟩
    rw [isAddr, isOther, UInt32.toNat_inj] at same
    rw [distinct i j nonzero same]

end Addresses

end Dinode

/-! ## One more block -/

/-- A place that is an entry of the indirect block. -/
def isEntry : Option ℕ → Bool
  | none => false
  | some bn => NDIRECT ≤ bn

/-- A place that was empty has got a block of zeros; of the other data blocks, only the indirect
block may have changed. -/
structure Grown (sb : Superblock) (device : Device) (dip : Dinode) (place : Option ℕ) (b : ℕ)
    (after : Device) (dip' : Dinode) : Prop where
  hole : dip.addr device.block place = 0
  addr : ∀ other, dip'.addr after.block other =
    if other = place then b else dip.addr device.block other
  fresh : device.inUse sb b = false
  below : b < sb.size
  isData : sb.nmeta ≤ b
  bits : ∀ c < sb.size, after.inUse sb c = (decide (c = b) || device.inUse sb c)
  zeroed : ∀ i < BSIZE, after.block b i = 0
  kept : ∀ x, sb.nmeta ≤ x → x ≠ b → x ≠ dip.indirect → after.block x = device.block x
  inodes : ∀ inum < sb.ninodes, after.dinode sb inum = device.dinode sb inum
  logged : ∀ c, c ∈ after.logged ↔
    c ∈ device.logged ∨ b = c ∨ sb.bblock b = c ∨ isEntry place ∧ dip'.indirect = c

/-- Blocks have been added to an inode, and its blocks may have been written. -/
structure Extends (sb : Superblock) (device : Device) (dip : Dinode) (after : Device)
    (dip' : Dinode) : Prop where
  placed : dip'.Placed sb after
  grows : ∀ place, dip.addr device.block place ≠ 0 →
    dip'.addr after.block place = dip.addr device.block place
  fresh : ∀ place, dip'.addr after.block place ≠ 0 → dip.addr device.block place = 0 →
    device.inUse sb (dip'.addr after.block place) = false
  bits : ∀ c < sb.size, after.inUse sb c = true ↔
    device.inUse sb c = true ∨ c ≠ 0 ∧ ∃ place, dip'.addr after.block place = c
  kept : ∀ x, sb.nmeta ≤ x → x < sb.size → device.inUse sb x = true →
    (∀ place, dip.addr device.block place ≠ x) → after.block x = device.block x

/-- The blocks logged are those logged before, some blocks of the contents, and what goes with each
place that has been filled. -/
def Logs (sb : Superblock) (device : Device) (dip : Dinode) (after : Device) (dip' : Dinode)
    (these : Set ℕ) : Prop :=
  ∀ c, c ∈ after.logged ↔ c ∈ device.logged ∨ (∃ bn ∈ these, dip'.addr after.block (some bn) = c) ∨
    ∃ place, dip.addr device.block place = 0 ∧ dip'.addr after.block place ≠ 0 ∧
      (dip'.addr after.block place = c ∨ sb.bblock (dip'.addr after.block place) = c ∨
        isEntry place ∧ dip'.indirect = c)

theorem Dinode.indirect_ne_zero {dip : Dinode} {blocks : ℕ → BlockData} {place : Option ℕ}
    (entry : isEntry place) (present : dip.addr blocks place ≠ 0) : dip.indirect ≠ 0 := by
  cases place with
  | none => contradiction
  | some bn => exact fun absent => present (addr_of_no_indirect (of_decide_eq_true entry) absent)

section

variable {sb : Superblock} {device middle after : Device} {dip dip₁ dip' : Dinode}
  {place : Option ℕ} {b : ℕ} {these more : Set ℕ}

theorem ne_zero_of_isData (isData : sb.nmeta ≤ b) : b ≠ 0 := by
  rintro rfl
  simp [Superblock.nmeta] at isData

/-- The blocks are where they were; only in them, or outside of the data blocks, has something changed. -/
theorem Extends.of_same (placed : dip.Placed sb device)
    (sameAddr : ∀ place, dip'.addr after.block place = dip.addr device.block place)
    (sameUse : ∀ c < sb.size, after.inUse sb c = device.inUse sb c)
    (kept : ∀ x, sb.nmeta ≤ x → (∀ place, dip.addr device.block place ≠ x) →
      after.block x = device.block x) : Extends sb device dip after dip' where
  placed := by
    constructor
    · intro place present
      rw [sameAddr] at present ⊢
      rcases placed.used place present with ⟨isData, below, used⟩
      rw [sameUse _ below]
      exact ⟨isData, below, used⟩
    · intro place other present same
      rw [sameAddr] at present
      rw [sameAddr, sameAddr] at same
      exact placed.distinct place other present same
  grows place _ := sameAddr place
  fresh := by
    intro place present hole
    rw [sameAddr] at present
    exact absurd hole present
  bits := by
    intro c below
    rw [sameUse c below]
    constructor
    · exact Or.inl
    · rintro (used | ⟨nonzero, place, rfl⟩)
      · exact used
      · rw [sameAddr] at nonzero ⊢
        exact (placed.used place nonzero).2.2
  kept x isData _ _ foreign := kept x isData foreign

theorem Extends.refl (placed : dip.Placed sb device) : Extends sb device dip device dip :=
  .of_same placed (fun _ => rfl) (fun _ _ => rfl) fun _ _ _ => rfl

theorem Extends.trans (first : Extends sb device dip middle dip₁)
    (second : Extends sb middle dip₁ after dip') : Extends sb device dip after dip' where
  placed := second.placed
  grows := by
    intro place nonzero
    have same := first.grows place nonzero
    rw [second.grows place (by rw [same]; exact nonzero), same]
  fresh := by
    intro place nonzero hole
    by_cases early : dip₁.addr middle.block place = 0
    · have isFree := second.fresh place nonzero early
      have below := (second.placed.used place nonzero).2.1
      by_contra used
      rw [Bool.not_eq_false] at used
      have stillUsed := (first.bits _ below).2 (Or.inl used)
      rw [isFree] at stillUsed
      contradiction
    · rw [second.grows place early]
      exact first.fresh place early hole
  bits := by
    intro c below
    rw [second.bits c below, first.bits c below]
    constructor
    · rintro ((used | ⟨nonzero, place, rfl⟩) | new)
      · exact Or.inl used
      · exact Or.inr ⟨nonzero, place, second.grows place nonzero⟩
      · exact Or.inr new
    · rintro (used | new)
      · exact Or.inl (Or.inl used)
      · exact Or.inr new
  kept := by
    intro x isData below used foreign
    have stillUsed := (first.bits x below).2 (Or.inl used)
    have stillForeign : ∀ place, dip₁.addr middle.block place ≠ x := by
      rintro place rfl
      have nonzero := ne_zero_of_isData isData
      by_cases hole : dip.addr device.block place = 0
      · have isFree := first.fresh place nonzero hole
        rw [used] at isFree
        contradiction
      · exact foreign place (first.grows place hole).symm
    rw [second.kept x isData below stillUsed stillForeign, first.kept x isData below used foreign]

theorem Logs.refl : Logs sb device dip device dip ∅ := by
  intro c
  simp only [Set.mem_empty_iff_false, false_and, exists_false, false_or]
  refine ⟨Or.inl, ?_⟩
  rintro (before | ⟨place, hole, isNew, _⟩)
  · exact before
  · exact absurd hole isNew

theorem Logs.trans (first : Logs sb device dip middle dip₁ these)
    (grew : Extends sb device dip middle dip₁)
    (present : ∀ bn ∈ these, dip₁.addr middle.block (some bn) ≠ 0)
    (extended : Extends sb middle dip₁ after dip') (second : Logs sb middle dip₁ after dip' more) :
    Logs sb device dip after dip' (these ∪ more) := by
  have sameIndirect : ∀ place, isEntry place → dip₁.addr middle.block place ≠ 0 →
      dip'.indirect = dip₁.indirect :=
    fun place entry present => extended.grows none (dip₁.indirect_ne_zero entry present)
  intro c
  rw [second c, first c]
  constructor
  · rintro ((before | ⟨bn, isHere, isAddr⟩ | ⟨place, hole, isNew, isLogged⟩) | ⟨bn, isHere, isAddr⟩ |
      ⟨place, hole, isNew, isLogged⟩)
    · exact Or.inl before
    · refine Or.inr (Or.inl ⟨bn, Or.inl isHere, ?_⟩)
      rw [extended.grows _ (present bn isHere)]
      exact isAddr
    · refine Or.inr (Or.inr ⟨place, hole, ?_⟩)
      rw [extended.grows place isNew]
      refine ⟨isNew, isLogged.imp_right (Or.imp_right ?_)⟩
      rintro ⟨entry, isAddr⟩
      exact ⟨entry, (sameIndirect place entry isNew).trans isAddr⟩
    · exact Or.inr (Or.inl ⟨bn, Or.inr isHere, isAddr⟩)
    · refine Or.inr (Or.inr ⟨place, ?_, isNew, isLogged⟩)
      by_contra wasThere
      rw [grew.grows place wasThere] at hole
      exact wasThere hole
  · rintro (before | ⟨bn, isHere | isLater, isAddr⟩ | ⟨place, hole, isNew, isLogged⟩)
    · exact Or.inl (Or.inl before)
    · rw [extended.grows _ (present bn isHere)] at isAddr
      exact Or.inl (Or.inr (Or.inl ⟨bn, isHere, isAddr⟩))
    · exact Or.inr (Or.inl ⟨bn, isLater, isAddr⟩)
    · by_cases stillHole : dip₁.addr middle.block place = 0
      · exact Or.inr (Or.inr ⟨place, stillHole, isNew, isLogged⟩)
      · rw [extended.grows place stillHole] at isLogged
        refine Or.inl (Or.inr (Or.inr ⟨place, hole, stillHole, isLogged.imp_right (Or.imp_right ?_)⟩))
        rintro ⟨entry, isAddr⟩
        exact ⟨entry, (sameIndirect place entry stillHole).symm.trans isAddr⟩

theorem Logs.trans_empty (first : Logs sb device dip middle dip₁ ∅)
    (grew : Extends sb device dip middle dip₁) (extended : Extends sb middle dip₁ after dip')
    (second : Logs sb middle dip₁ after dip' more) : Logs sb device dip after dip' more := by
  rw [← Set.empty_union more]
  exact first.trans grew (fun _ => False.elim) extended second

theorem Dinode.Placed.ne_indirect (placed : dip.Placed sb device) {bn : ℕ}
    (nonzero : dip.addr device.block (some bn) ≠ 0) :
    dip.addr device.block (some bn) ≠ dip.indirect := by
  intro same
  have samePlace := placed.distinct (some bn) none nonzero same
  contradiction

theorem Dinode.Placed.indirect (placed : dip.Placed sb device) (present : dip.indirect ≠ 0) :
    sb.nmeta ≤ dip.indirect ∧ dip.indirect < sb.size ∧ device.inUse sb dip.indirect = true :=
  placed.used none present

theorem Grown.addr_self (grown : Grown sb device dip place b after dip') :
    dip'.addr after.block place = b := by
  rw [grown.addr, if_pos rfl]

/-- One place has been filled. -/
theorem Grown.logs (grown : Grown sb device dip place b after dip') :
    Logs sb device dip after dip' ∅ := by
  intro c
  rw [grown.logged]
  simp only [Set.mem_empty_iff_false, false_and, exists_false, false_or]
  apply or_congr_right
  constructor
  · intro isHere
    refine ⟨place, grown.hole, ?_⟩
    rw [grown.addr_self]
    exact ⟨ne_zero_of_isData grown.isData, isHere⟩
  · rintro ⟨other, hole, isNew, isHere⟩
    rw [grown.addr] at isNew isHere
    by_cases same : other = place
    · rw [if_pos same] at isHere
      rw [← same]
      exact isHere
    · rw [if_neg same] at isNew
      exact absurd hole isNew

namespace Grown

variable (grown : Grown sb device dip place b after dip') (placed : dip.Placed sb device)

include grown placed

theorem ne_addr {other : Option ℕ} (nonzero : dip.addr device.block other ≠ 0) :
    dip.addr device.block other ≠ b := by
  rintro rfl
  have used := (placed.used other nonzero).2.2
  rw [grown.fresh] at used
  contradiction

theorem extended : Extends sb device dip after dip' where
  placed := by
    constructor
    · intro other nonzero
      rw [grown.addr] at nonzero ⊢
      by_cases same : other = place
      · rw [if_pos same]
        refine ⟨grown.isData, grown.below, ?_⟩
        rw [grown.bits b grown.below]
        simp
      · rw [if_neg same] at nonzero ⊢
        rcases placed.used other nonzero with ⟨isData, below, used⟩
        refine ⟨isData, below, ?_⟩
        rw [grown.bits _ below, used, Bool.or_true]
    · intro first second nonzero same
      rw [grown.addr] at nonzero
      rw [grown.addr, grown.addr] at same
      by_cases firstNew : first = place
      · by_cases secondNew : second = place
        · rw [firstNew, secondNew]
        · rw [if_pos firstNew, if_neg secondNew] at same
          rw [if_pos firstNew, same] at nonzero
          exact absurd same.symm (grown.ne_addr placed nonzero)
      · rw [if_neg firstNew] at nonzero same
        by_cases secondNew : second = place
        · rw [if_pos secondNew] at same
          exact absurd same (grown.ne_addr placed nonzero)
        · rw [if_neg secondNew] at same
          exact placed.distinct first second nonzero same
  grows := by
    intro other nonzero
    rw [grown.addr, if_neg]
    rintro rfl
    exact nonzero grown.hole
  fresh := by
    intro other nonzero hole
    rw [grown.addr] at nonzero ⊢
    by_cases same : other = place
    · rw [if_pos same]
      exact grown.fresh
    · rw [if_neg same] at nonzero
      exact absurd hole nonzero
  bits := by
    intro c below
    rw [grown.bits c below, Bool.or_eq_true, decide_eq_true_iff]
    constructor
    · rintro (rfl | used)
      · refine Or.inr ⟨ne_zero_of_isData grown.isData, place, ?_⟩
        rw [grown.addr, if_pos rfl]
      · exact Or.inl used
    · rintro (used | ⟨nonzero, other, isBlock⟩)
      · exact Or.inr used
      · rw [grown.addr] at isBlock
        by_cases same : other = place
        · rw [if_pos same] at isBlock
          exact Or.inl isBlock.symm
        · rw [if_neg same] at isBlock
          subst isBlock
          exact Or.inr (placed.used other nonzero).2.2
  kept := by
    intro x isData _ used foreign
    apply grown.kept x isData
    · rintro rfl
      rw [grown.fresh] at used
      contradiction
    · exact fun isIndirect => foreign none isIndirect.symm

theorem byteAt_eq (i : ℕ) : dip'.byteAt after.block i = dip.byteAt device.block i := by
  have inside : i % BSIZE < BSIZE := Nat.mod_lt _ (by decide)
  rw [Dinode.byteAt, Dinode.byteAt, grown.addr]
  by_cases same : some (i / BSIZE) = place
  · rw [if_pos same, same, grown.hole, if_neg (ne_zero_of_isData grown.isData), if_pos rfl]
    exact grown.zeroed _ inside
  · rw [if_neg same]
    by_cases hole : dip.addr device.block (some (i / BSIZE)) = 0
    · rw [if_pos hole, if_pos hole]
    · rw [if_neg hole, if_neg hole, grown.kept _ (placed.used _ hole).1 (grown.ne_addr placed hole)
        (placed.ne_indirect hole)]

end Grown

end

/-! ## bmap -/

section Bmap

variable {sb : Superblock} {device after : Device} {ip ip' : Inode} {bn b : ℕ}

namespace Device.Allocated

variable (allocated : Device.Allocated sb device b after) (placed : ip.Placed sb device)
  (valid : sb.Valid)

include allocated placed

omit placed in
/-- An address of the inode itself has been set. -/
theorem grown (place : Option ℕ) {dip' : Dinode} (notEntry : isEntry place = false)
    (hole : ip.addr device.block place = 0) (addr : ∀ other, dip'.addr after.block other =
      if other = place then b else ip.addr device.block other) :
    Grown sb device ip.toDinode place b after dip' where
  hole := hole
  addr := addr
  fresh := allocated.fresh
  below := allocated.below
  isData := allocated.isData
  bits := allocated.bits
  zeroed := allocated.zeroed
  kept x isData other _ := allocated.kept x isData other
  inodes := allocated.inodes
  logged c := by
    rw [allocated.logged, notEntry, List.mem_cons, List.mem_cons]
    grind

theorem ne_indirect (present : ip.indirect ≠ 0) : b ≠ ip.indirect := by
  rintro rfl
  have used := (placed.indirect present).2.2
  rw [allocated.fresh] at used
  contradiction

theorem indirect_kept (present : ip.indirect ≠ 0) :
    after.block ip.indirect = device.block ip.indirect := by
  apply allocated.kept _ (placed.indirect present).1
  exact (allocated.ne_indirect placed present).symm

include valid

omit placed in
theorem toNat_ofNat : (UInt32.ofNat b).toNat = b := by
  have below := allocated.below
  have small := valid.small
  rw [UInt32.toNat_ofNat', Nat.mod_eq_of_lt (by omega)]

theorem grown_direct (direct : bn < NDIRECT) (hole : ip.addr device.block (some bn) = 0) :
    Grown sb device ip.toDinode (some bn) b after
      (ip.setAddr ⟨bn, Nat.lt_succ_of_lt direct⟩ (UInt32.ofNat b)).toDinode := by
  refine allocated.grown (some bn) (decide_eq_false (Nat.not_le.2 direct)) hole ?_
  have sameIndirect : (ip.setAddr ⟨bn, Nat.lt_succ_of_lt direct⟩ (UInt32.ofNat b)).indirect =
      ip.indirect := by
    have other : Fin.last NDIRECT ≠ ⟨bn, Nat.lt_succ_of_lt direct⟩ := by
      intro same
      have isLast := congrArg Fin.val same
      simp only [Fin.val_last] at isLast
      omega
    simp only [Dinode.indirect, Inode.setAddr, Function.update_of_ne other]
  intro place
  cases place with
  | none => exact sameIndirect
  | some m =>
      by_cases same : m = bn
      · subst same
        rw [if_pos rfl, Dinode.addr_direct direct]
        simp only [Inode.setAddr, Function.update_self]
        exact allocated.toNat_ofNat valid
      · rw [if_neg (by simpa using same)]
        apply Dinode.addr_some_congr sameIndirect
        · intro isDirect
          apply Function.update_of_ne
          intro sameIndex
          exact same (congrArg Fin.val sameIndex)
        · intro present i _
          rw [allocated.indirect_kept placed present]

omit placed in
theorem grown_indirect (absent : ip.indirect = 0) :
    Grown sb device ip.toDinode none b after
      (ip.setAddr (Fin.last NDIRECT) (UInt32.ofNat b)).toDinode := by
  refine allocated.grown none rfl absent ?_
  have isIndirect : (ip.setAddr (Fin.last NDIRECT) (UInt32.ofNat b)).indirect = b := by
    simp only [Dinode.indirect, Inode.setAddr, Function.update_self]
    exact allocated.toNat_ofNat valid
  intro place
  cases place with
  | none => exact isIndirect
  | some m =>
      rw [if_neg (by simp)]
      by_cases direct : m < NDIRECT
      · rw [Dinode.addr_direct direct, Dinode.addr_direct direct]
        simp only [Inode.setAddr]
        rw [Function.update_of_ne]
        intro sameIndex
        have isLast := congrArg Fin.val sameIndex
        simp only [Fin.val_last] at isLast
        omega
      · have isEntry := Nat.not_lt.1 direct
        rw [Dinode.addr_of_no_indirect isEntry absent]
        by_cases inside : m < MAXFILE
        · have present : (ip.setAddr (Fin.last NDIRECT) (UInt32.ofNat b)).indirect ≠ 0 := by
            rw [isIndirect]
            exact ne_zero_of_isData allocated.isData
          rw [Dinode.addr_entry isEntry inside present, isIndirect]
          have isZero : uint (after.block b) (4 * (m - NDIRECT)) = 0 := by
            apply uint_of_bytes
            intro i below
            rw [allocated.zeroed]
            · simp [Bytes.byte]
            · simp only [MAXFILE, NDIRECT, NINDIRECT, BSIZE] at inside isEntry ⊢
              omega
          rw [isZero]
          rfl
        · exact Dinode.addr_of_large (Nat.not_lt.1 inside)

theorem grown_entry (entry : NDIRECT ≤ bn) (inside : bn < MAXFILE) (present : ip.indirect ≠ 0)
    (hole : ip.addr device.block (some bn) = 0) :
    Grown sb device ip.toDinode (some bn) b
      (after.logWrite ip.indirect (Bytes.store (after.block ip.indirect) (4 * (bn - NDIRECT)) 4
        (Bytes.byte b))) ip.toDinode where
  hole := hole
  addr := by
    intro place
    cases place with
    | none => rfl
    | some m =>
        by_cases direct : m < NDIRECT
        · have other : m ≠ bn := by omega
          rw [if_neg (by simpa using other), Dinode.addr_direct direct, Dinode.addr_direct direct]
        · have mIsEntry := Nat.not_lt.1 direct
          by_cases mInside : m < MAXFILE
          · rw [Dinode.addr_entry mIsEntry mInside present, Device.block_logWrite_self]
            by_cases same : m = bn
            · subst same
              have stored : uint (Bytes.store (after.block ip.indirect) (4 * (m - NDIRECT)) 4
                  (Bytes.byte (UInt32.ofNat b).toNat)) (4 * (m - NDIRECT)) = UInt32.ofNat b :=
                uint_store
              rw [allocated.toNat_ofNat valid] at stored
              rw [if_pos rfl, stored, allocated.toNat_ofNat valid]
            · rw [if_neg (by simpa using same), Dinode.addr_entry mIsEntry mInside present,
                uint_store_of_disjoint (by omega), allocated.indirect_kept placed present]
          · have other : m ≠ bn := by omega
            rw [if_neg (by simpa using other), Dinode.addr_of_large (Nat.not_lt.1 mInside),
              Dinode.addr_of_large (Nat.not_lt.1 mInside)]
  fresh := allocated.fresh
  below := allocated.below
  isData := allocated.isData
  bits := by
    intro c below
    rw [Device.inUse_logWrite_data (placed.indirect present).1 below]
    exact allocated.bits c below
  zeroed := by
    intro i below
    rw [Device.block_logWrite_of_ne (allocated.ne_indirect placed present)]
    exact allocated.zeroed i below
  kept := by
    intro x isData other notIndirect
    rw [Device.block_logWrite_of_ne notIndirect]
    exact allocated.kept x isData other
  inodes := by
    intro inum isInode
    rw [Device.dinode_logWrite_data valid (placed.indirect present).1 isInode]
    exact allocated.inodes inum isInode
  logged := by
    intro c
    have isHere : isEntry (some bn) = true := decide_eq_true entry
    rw [Device.logWrite, allocated.logged, isHere, List.mem_cons, List.mem_cons, List.mem_cons]
    grind

end Device.Allocated

/-- Empty places have been filled; the bytes of the file stay the same. -/
structure Filled (sb : Superblock) (device : Device) (ip : Inode) (after : Device) (ip' : Inode) :
    Prop where
  extended : Extends sb device ip.toDinode after ip'.toDinode
  bytes : ∀ i, ip'.byteAt after.block i = ip.byteAt device.block i
  same : ∃ addrs, ip' = { ip with addrs := addrs }
  inodes : ∀ inum < sb.ninodes, after.dinode sb inum = device.dinode sb inum
  logs : Logs sb device ip.toDinode after ip'.toDinode ∅

theorem Filled.refl (placed : ip.Placed sb device) : Filled sb device ip device ip :=
  ⟨.refl placed, fun _ => rfl, ⟨ip.addrs, rfl⟩, fun _ _ => rfl, .refl⟩

theorem Filled.trans {middle : Device} {ip₁ : Inode} (first : Filled sb device ip middle ip₁)
    (second : Filled sb middle ip₁ after ip') : Filled sb device ip after ip' where
  extended := first.extended.trans second.extended
  bytes i := (second.bytes i).trans (first.bytes i)
  same := by
    rcases first.same with ⟨_, rfl⟩
    rcases second.same with ⟨addrs, rfl⟩
    exact ⟨addrs, rfl⟩
  inodes inum isInode := (second.inodes inum isInode).trans (first.inodes inum isInode)
  logs := first.logs.trans_empty first.extended second.extended second.logs

theorem Grown.filled {place : Option ℕ} (grown : Grown sb device ip.toDinode place b after ip'.toDinode)
    (placed : ip.Placed sb device) (same : ∃ addrs, ip' = { ip with addrs := addrs }) :
    Filled sb device ip after ip' :=
  ⟨grown.extended placed, grown.byteAt_eq placed, same, grown.inodes, grown.logs⟩

def Device.Metadata (sb : Superblock) (device : Device) : Prop :=
  ∀ b < sb.nmeta, device.inUse sb b = true

theorem Extends.metadata {dip dip' : Dinode} (extended : Extends sb device dip after dip')
    (valid : sb.Valid) (metadata : device.Metadata sb) : after.Metadata sb := by
  intro b isMeta
  have fits := valid.fits
  exact (extended.bits b (by omega)).2 (Or.inl (metadata b isMeta))

variable (valid : sb.Valid) (metadata : device.Metadata sb) (placed : ip.Placed sb device)

theorem bmap_of_ne_zero (inside : bn < MAXFILE) (present : ip.addr device.block (some bn) ≠ 0) :
    ip.bmap sb bn device = some (ip.addr device.block (some bn), ip, device) := by
  by_cases direct : bn < NDIRECT
  · rw [Dinode.addr_direct direct] at present ⊢
    have nonzero : ip.addrs ⟨bn, Nat.lt_succ_of_lt direct⟩ ≠ 0 := by
      intro isZero
      rw [isZero] at present
      exact present rfl
    simp only [Inode.bmap, dif_pos direct, Inode.bmapAddr, if_neg nonzero]
  · have isEntry := Nat.not_lt.1 direct
    have isIndirect : ip.indirect ≠ 0 := by
      intro absent
      exact present (Dinode.addr_of_no_indirect isEntry absent)
    rw [Dinode.addr_entry isEntry inside isIndirect] at present ⊢
    have below : bn - NDIRECT < NINDIRECT := by
      simp only [MAXFILE] at inside
      omega
    have nonzero : ip.addrs (Fin.last NDIRECT) ≠ 0 := by
      intro isZero
      rw [Dinode.indirect, isZero] at isIndirect
      exact isIndirect rfl
    have entry : uint (device.block ip.indirect) (4 * (bn - NDIRECT)) ≠ 0 := by
      intro isZero
      rw [isZero] at present
      exact present rfl
    simp only [Inode.bmap, dif_neg direct, if_pos below, Inode.bmapAddr, if_neg nonzero]
    change (Inode.bmapEntry sb ip.indirect (bn - NDIRECT) device).bind _ = _
    simp only [Inode.bmapEntry, if_neg entry]
    rfl

include valid metadata placed

theorem bmapAddr_last (got : ip.bmapAddr sb (Fin.last NDIRECT) device = some (b, ip', after)) :
    Filled sb device ip after ip' ∧ ip'.indirect = b ∧ b ≠ 0 ∧
      ∀ bn, ip'.addr after.block (some bn) = ip.addr device.block (some bn) := by
  unfold Inode.bmapAddr at got
  split at got
  · rename_i isZero
    rcases Option.map_eq_some_iff.1 got with ⟨⟨addr, device'⟩, allocates, result⟩
    cases result
    have allocated := Device.balloc_allocated valid metadata allocates
    have absent : ip.indirect = 0 := by
      rw [Dinode.indirect, isZero]
      rfl
    have grown := allocated.grown_indirect valid absent
    refine ⟨grown.filled placed ⟨_, rfl⟩, grown.addr_self, ne_zero_of_isData grown.isData, ?_⟩
    intro bn
    rw [grown.addr, if_neg (Option.some_ne_none bn)]
  · rename_i nonzero
    cases got
    refine ⟨.refl placed, rfl, ?_, fun _ => rfl⟩
    intro isZero
    exact nonzero (UInt32.toNat_inj.1 isZero)

/-- `bmap` gives the block at a place, after filling it and the indirect block if need be. No other
place is filled. -/
theorem bmap_fills (got : ip.bmap sb bn device = some (b, ip', after)) :
    (Filled sb device ip after ip' ∧ ip'.addr after.block (some bn) = b ∧ b ≠ 0) ∧
      ∀ place, place ≠ some bn → (place = none → bn < NDIRECT) →
        ip'.addr after.block place = ip.addr device.block place := by
  unfold Inode.bmap at got
  split at got
  · rename_i direct
    unfold Inode.bmapAddr at got
    split at got
    · rename_i isZero
      rcases Option.map_eq_some_iff.1 got with ⟨⟨addr, device'⟩, allocates, result⟩
      cases result
      have allocated := Device.balloc_allocated valid metadata allocates
      have hole : ip.addr device.block (some bn) = 0 := by
        rw [Dinode.addr_direct direct, isZero]
        rfl
      have grown := allocated.grown_direct placed valid direct hole
      refine ⟨⟨grown.filled placed ⟨_, rfl⟩, grown.addr_self, ne_zero_of_isData grown.isData⟩, ?_⟩
      intro place other _
      rw [grown.addr, if_neg other]
    · rename_i nonzero
      cases got
      refine ⟨⟨.refl placed, Dinode.addr_direct direct, ?_⟩, fun _ _ _ => rfl⟩
      intro isZero
      exact nonzero (UInt32.toNat_inj.1 isZero)
  · rename_i notDirect
    split at got
    · rename_i below
      have isEntry := Nat.not_lt.1 notDirect
      have inside : bn < MAXFILE := by
        simp only [MAXFILE]
        omega
      rcases Option.bind_eq_some_iff.1 got with ⟨⟨addr, ip₁, middle⟩, first, rest⟩
      rcases bmapAddr_last valid metadata placed first with ⟨filled, isIndirect, present, sameData⟩
      subst isIndirect
      have sameFirst : ∀ place, (place = none → bn < NDIRECT) →
          ip₁.addr middle.block place = ip.addr device.block place := by
        intro place isData
        cases place with
        | none => exact absurd (isData rfl) notDirect
        | some bn => exact sameData bn
      have stillMetadata := filled.extended.metadata valid metadata
      have stillPlaced := filled.extended.placed
      rcases Option.bind_eq_some_iff.1 rest with ⟨⟨c, last⟩, second, result⟩
      cases result
      unfold Inode.bmapEntry at second
      simp only at second
      split at second
      · rename_i isZero
        rcases Option.map_eq_some_iff.1 second with ⟨⟨new, device'⟩, allocates, result⟩
        cases result
        have allocated := Device.balloc_allocated valid stillMetadata allocates
        have hole : ip'.addr middle.block (some bn) = 0 := by
          rw [Dinode.addr_entry isEntry inside present, isZero]
          rfl
        have grown := allocated.grown_entry stillPlaced valid isEntry inside present hole
        refine ⟨⟨filled.trans (grown.filled stillPlaced ⟨_, rfl⟩), grown.addr_self,
          ne_zero_of_isData grown.isData⟩, ?_⟩
        intro place other isData
        rw [grown.addr, if_neg other]
        exact sameFirst place isData
      · rename_i nonzero
        cases second
        refine ⟨⟨filled, Dinode.addr_entry isEntry inside present, ?_⟩, fun place _ => sameFirst place⟩
        intro isZero
        exact nonzero (UInt32.toNat_inj.1 isZero)
    · contradiction

theorem bmap_filled (got : ip.bmap sb bn device = some (b, ip', after)) :
    Filled sb device ip after ip' ∧ ip'.addr after.block (some bn) = b ∧ b ≠ 0 :=
  (bmap_fills valid metadata placed got).1

end Bmap

/-! ## Other inodes -/

def Dinode.Apart (blocks : ℕ → BlockData) (dip other : Dinode) : Prop :=
  ∀ place place', dip.addr blocks place ≠ 0 → dip.addr blocks place ≠ other.addr blocks place'

section Apart

variable {sb : Superblock} {device after : Device} {dip dip' other : Dinode} {place : Option ℕ}

theorem Dinode.Apart.symm {blocks : ℕ → BlockData} (apart : dip.Apart blocks other) :
    other.Apart blocks dip := by
  intro place place' present same
  rw [same] at present
  exact apart place' place present same.symm

section

variable (extended : Extends sb device dip after dip') (placed : other.Placed sb device)
  (apart : dip.Apart device.block other)

include extended placed apart

theorem Extends.block_other (present : other.addr device.block place ≠ 0) :
    after.block (other.addr device.block place) = device.block (other.addr device.block place) := by
  rcases placed.used place present with ⟨isData, below, isUsed⟩
  apply extended.kept _ isData below isUsed
  intro place' same
  apply apart place' place
  · rw [same]
    exact present
  · exact same

theorem Extends.addr_other (place : Option ℕ) :
    other.addr after.block place = other.addr device.block place := by
  apply Dinode.addr_congr rfl
  intro present i _
  have isIndirect : other.addr device.block none = other.indirect := rfl
  rw [← isIndirect] at present ⊢
  rw [extended.block_other placed apart present]

theorem Extends.byteAt_other (i : ℕ) : other.byteAt after.block i = other.byteAt device.block i := by
  rw [Dinode.byteAt, Dinode.byteAt, extended.addr_other placed apart]
  by_cases absent : other.addr device.block (some (i / BSIZE)) = 0
  · rw [if_pos absent, if_pos absent]
  · rw [if_neg absent, if_neg absent, extended.block_other placed apart absent]

theorem Extends.placed_other : other.Placed sb after where
  used := by
    intro place present
    rw [extended.addr_other placed apart] at present ⊢
    rcases placed.used place present with ⟨isData, below, isUsed⟩
    exact ⟨isData, below, (extended.bits _ below).2 (Or.inl isUsed)⟩
  distinct := by
    intro place place' present same
    rw [extended.addr_other placed apart] at present same
    rw [extended.addr_other placed apart] at same
    exact placed.distinct place place' present same

theorem Extends.apart_other : dip'.Apart after.block other := by
  intro place place' present same
  rw [extended.addr_other placed apart] at same
  by_cases isNew : dip.addr device.block place = 0
  · have unused := extended.fresh place present isNew
    rw [same] at unused present
    rw [(placed.used place' present).2.2] at unused
    contradiction
  · have isOld := extended.grows place isNew
    rw [isOld] at present same
    exact apart place place' present same

end

end Apart

end Xv6
