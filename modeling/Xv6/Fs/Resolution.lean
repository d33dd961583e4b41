import Xv6.Fs.DirectoryMap
import Xv6.Fs.Path

/-!
# Path resolution

The inodes as the kernel sees them form a graph of directories, and a path leads through it.
`namex` follows the path with one inode locked at a time. In each of its steps the reference
counts are those at the start plus the references that the process has taken itself.
-/

namespace Xv6

open Function

namespace FsState

variable (sb : Superblock)

/-- The inode as the kernel sees it: the copy in the cache if it has been read, otherwise the one on
disk. -/
def node (state : FsState) (dev inum : ℕ) : Dinode :=
  match state.cached dev inum with
  | some i =>
      if (state.icache i).valid then (state.icache i).toDinode
      else (state.device dev).dinode sb inum
  | none => (state.device dev).dinode sb inum

/-- The inode that a directory has for a name. -/
def child (state : FsState) (dev inum : ℕ) (name : List UInt8) : Option ℕ :=
  if (state.node sb dev inum).type = T_DIR then
    (state.node sb dev inum).lookup (state.device dev).block name
  else none

/-- The inode reached from another one by looking up names in turn. -/
def resolve (state : FsState) (dev : ℕ) : ℕ → List (List UInt8) → Option ℕ
  | inum, [] => some inum
  | inum, name :: names => (state.child sb dev inum name).bind fun next => resolve state dev next names

/-- The directory reached by all names but the last. -/
def resolveParent (state : FsState) (dev inum : ℕ) (names : List (List UInt8)) : Option ℕ :=
  if names = [] then none
  else (state.resolve sb dev inum names.dropLast).filter fun parent =>
    (state.node sb dev parent).type = T_DIR

/-- The number of references to an inode. -/
def refs (state : FsState) (dev inum : ℕ) : ℕ :=
  match state.cached dev inum with
  | some i => (state.icache i).ref
  | none => 0

def Unique (state : FsState) : Prop :=
  ∀ i j, 0 < (state.icache i).ref → 0 < (state.icache j).ref →
    (state.icache i).dev = (state.icache j).dev → (state.icache i).inum = (state.icache j).inum → i = j

end FsState

/-- A tree of directories at rest: no inode is locked or cached twice, there are free slots, the
directories have whole entries and no holes, and the inodes that they name have links. -/
structure Tree (sb : Superblock) (state : FsState) : Prop where
  unlocked : ∀ i, (state.icache i).holder = none
  unique : state.Unique
  slots : ∃ a b, a ≠ b ∧ (state.icache a).ref = 0 ∧ (state.icache b).ref = 0
  whole : ∀ dev inum, inum < sb.ninodes → (state.node sb dev inum).type = T_DIR →
    (state.node sb dev inum).Regular ∧ (state.node sb dev inum).Solid (state.device dev).block
  named : ∀ dev inum name next, inum < sb.ninodes → state.child sb dev inum name = some next →
    next < sb.ninodes ∧ (state.node sb dev next).type ≠ 0 ∧ (state.node sb dev next).nlink ≠ 0

section Cached

variable {state : FsState} {dev inum : ℕ} {i : InodeId}

theorem cached_eq_some_iff (unique : state.Unique) :
    state.cached dev inum = some i ↔ 0 < (state.icache i).ref ∧ (state.icache i).dev = dev ∧
      (state.icache i).inum = inum := by
  constructor
  · exact cached_eq_some
  · rintro ⟨used, rfl, rfl⟩
    cases isCached : state.cached (state.icache i).dev (state.icache i).inum with
    | none =>
        have notCached := List.find?_eq_none.1 isCached i (List.mem_finRange i)
        rw [decide_eq_true_eq] at notCached
        exact absurd ⟨used, rfl, rfl⟩ notCached
    | some j =>
        rcases cached_eq_some isCached with ⟨jUsed, sameDev, sameInum⟩
        rw [unique j i jUsed used sameDev sameInum]

theorem empty_ne_none (unused : (state.icache i).ref = 0) : state.empty ≠ none := by
  intro full
  have used := List.find?_eq_none.1 full i (List.mem_finRange i)
  simp only [decide_eq_true_eq] at used
  exact used unused

end Cached

/-! ## References and locks -/

/-- A slot of the cache while a process walks: its count is the one at the start and the references
that the process holds, it is locked if the process has locked it, and what has been read is the
inode as it was. -/
structure Accounted (sb : Superblock) (p : Slot) (start : FsState) (k : InodeId) (held : ℕ)
    (lock : Option InodeId) (ip : Inode) : Prop where
  ref : ip.ref = (start.icache k).ref + held
  holder : ip.holder = if lock = some k then some p else none
  sameDev : 0 < (start.icache k).ref → ip.dev = (start.icache k).dev
  sameInum : 0 < (start.icache k).ref → ip.inum = (start.icache k).inum
  stillValid : 0 < (start.icache k).ref → (start.icache k).valid = true → ip.valid = true
  node : 0 < ip.ref → ip.valid = true → ip.toDinode = start.node sb ip.dev ip.inum

structure Balance (sb : Superblock) (p : Slot) (start : FsState) (held : InodeId → ℕ)
    (lock : Option InodeId) (state : FsState) : Prop where
  slot : ∀ k, Accounted sb p start k (held k) lock (state.icache k)
  device : state.device = start.device
  unique : state.Unique

/-- A process that holds one reference, or none. -/
def heldBy (result : Option InodeId) (k : InodeId) : ℕ := if result = some k then 1 else 0

namespace Balance

variable {sb : Superblock} {devsw : Devsw} {p : Slot} {start state after : FsState}
  {held held' : InodeId → ℕ} {lock lock' : Option InodeId} {i j : InodeId} {dev inum : ℕ}

theorem start_of_tree (tree : Tree sb start) : Balance sb p start (heldBy none) none start := by
  refine ⟨?_, rfl, tree.unique⟩
  intro k
  refine ⟨rfl, tree.unlocked k, fun _ => rfl, fun _ => rfl, fun _ valid => valid, ?_⟩
  intro used valid
  have isCached := (cached_eq_some_iff tree.unique).2 ⟨used, rfl, rfl⟩
  rw [FsState.node, isCached]
  exact (if_pos valid).symm

theorem change (balance : Balance sb p start held lock state)
    (others : ∀ k, k ≠ i → after.icache k = state.icache k) (sameDevice : after.device = state.device)
    (unique : after.Unique) (heldOthers : ∀ k, k ≠ i → held' k = held k)
    (lockOthers : ∀ k, k ≠ i → (lock' = some k ↔ lock = some k))
    (accounted : Accounted sb p start i (held' i) lock' (after.icache i)) :
    Balance sb p start held' lock' after := by
  refine ⟨?_, sameDevice.trans balance.device, unique⟩
  intro k
  by_cases isSlot : k = i
  · rw [isSlot]
    exact accounted
  · have slot := balance.slot k
    rw [others k isSlot, heldOthers k isSlot]
    refine ⟨slot.ref, ?_, slot.sameDev, slot.sameInum, slot.stillValid, slot.node⟩
    rw [slot.holder]
    simp only [lockOthers k isSlot]

theorem node_of_unread (balance : Balance sb p start held lock state)
    (used : 0 < (state.icache i).ref) (unread : (state.icache i).valid = false) :
    start.node sb (state.icache i).dev (state.icache i).inum =
      (state.deviceOf i).dinode sb (state.icache i).inum := by
  rw [FsState.deviceOf, balance.device, FsState.node]
  cases isCached : start.cached (state.icache i).dev (state.icache i).inum with
  | none => rfl
  | some k =>
      rcases cached_eq_some isCached with ⟨kUsed, isDev, isInum⟩
      have slot := balance.slot k
      have stillUsed : 0 < (state.icache k).ref := by
        rw [slot.ref]
        omega
      have same : k = i := balance.unique k i stillUsed used ((slot.sameDev kUsed).trans isDev)
        ((slot.sameInum kUsed).trans isInum)
      have startUnread : ¬(start.icache k).valid = true := by
        intro valid
        have stillValid := slot.stillValid kUsed valid
        rw [same, unread] at stillValid
        contradiction
      exact if_neg startUnread

end Balance

theorem FsState.Unique.keep {state after : FsState} {i : InodeId} (unique : state.Unique)
    (used : 0 < (state.icache i).ref) (others : ∀ k, k ≠ i → after.icache k = state.icache k)
    (sameDev : (after.icache i).dev = (state.icache i).dev)
    (sameInum : (after.icache i).inum = (state.icache i).inum) : after.Unique := by
  have back : ∀ k, 0 < (after.icache k).ref → 0 < (state.icache k).ref ∧
      (after.icache k).dev = (state.icache k).dev ∧ (after.icache k).inum = (state.icache k).inum := by
    intro k kUsed
    by_cases isSlot : k = i
    · rw [isSlot]
      exact ⟨used, sameDev, sameInum⟩
    · rw [others k isSlot] at kUsed ⊢
      exact ⟨kUsed, rfl, rfl⟩
  intro k l kUsed lUsed
  rcases back k kUsed with ⟨kBefore, kDev, kInum⟩
  rcases back l lUsed with ⟨lBefore, lDev, lInum⟩
  rw [kDev, kInum, lDev, lInum]
  exact unique k l kBefore lBefore

namespace Balance

variable {sb : Superblock} {devsw : Devsw} {p : Slot} {start state after : FsState}
  {held held' : InodeId → ℕ} {lock lock' : Option InodeId} {i j : InodeId} {dev inum : ℕ}

theorem modify (balance : Balance sb p start held lock state) {change : Inode → Inode}
    (used : 0 < (state.icache i).ref) (sameDev : (change (state.icache i)).dev = (state.icache i).dev)
    (sameInum : (change (state.icache i)).inum = (state.icache i).inum)
    (heldOthers : ∀ k, k ≠ i → held' k = held k)
    (lockOthers : ∀ k, k ≠ i → (lock' = some k ↔ lock = some k))
    (accounted : Accounted sb p start i (held' i) lock' (change (state.icache i))) :
    Balance sb p start held' lock' (state.modify i change) := by
  have others : ∀ k, k ≠ i → (state.modify i change).icache k = state.icache k :=
    fun k isOther => update_of_ne isOther ..
  have isSlot : (state.modify i change).icache i = change (state.icache i) := update_self ..
  apply balance.change others rfl _ heldOthers lockOthers
  · rw [isSlot]
    exact accounted
  · apply balance.unique.keep used others
    · rw [isSlot]
      exact sameDev
    · rw [isSlot]
      exact sameInum

theorem lock_of_none (k : InodeId) (other : k ≠ i) : some i = some k ↔ (none : Option InodeId) = some k := by
  constructor
  · intro same
    exact absurd (Option.some.inj same).symm other
  · intro impossible
    contradiction

theorem ilock (balance : Balance sb p start held none state) (used : 0 < (state.icache i).ref)
    (typed : (start.node sb (state.icache i).dev (state.icache i).inum).type ≠ 0) :
    ∃ after, state.ilock sb p i = .ok after ∧ Balance sb p start held (some i) after ∧
      (after.icache i).toDinode = start.node sb (state.icache i).dev (state.icache i).inum ∧
      (after.icache i).dev = (state.icache i).dev ∧ (after.icache i).inum = (state.icache i).inum ∧
      (after.icache i).valid = true := by
  have slot := balance.slot i
  have isFree : (state.icache i).holder.isSome = false := by
    rw [slot.holder]
    rfl
  have isUsed : ¬(state.icache i).ref < 1 := by omega
  have locked : state.acquiresleep p i = .ok (state.modify i fun ip => { ip with holder := some p }) := by
    simp only [FsState.acquiresleep, isFree, Bool.false_eq_true, if_false]
  have isLocked : (state.modify i fun ip => { ip with holder := some p }).icache i =
      { state.icache i with holder := some p } := update_self ..
  cases isValid : (state.icache i).valid with
  | true =>
      refine ⟨state.modify i fun ip => { ip with holder := some p }, ?_, ?_, ?_⟩
      · simp only [FsState.ilock, if_neg isUsed, locked, isLocked, isValid, bind, Except.bind, if_true,
          pure, Except.pure]
      · refine balance.modify used (by rfl) (by rfl) (fun _ _ => rfl) lock_of_none ?_
        refine ⟨slot.ref, ?_, slot.sameDev, slot.sameInum, slot.stillValid, slot.node⟩
        rw [if_pos rfl]
      · rw [isLocked]
        exact ⟨slot.node used isValid, rfl, rfl, isValid⟩
  | false =>
      have isNode := balance.node_of_unread used isValid
      have sameOf : (state.modify i fun ip => { ip with holder := some p }).deviceOf i =
          state.deviceOf i := by
        rw [FsState.deviceOf, isLocked]
        rfl
      let dip := (state.deviceOf i).dinode sb (state.icache i).inum
      refine ⟨state.modify i fun ip => { ip with holder := some p, toDinode := dip, valid := true },
        ?_, ?_, ?_⟩
      · rw [isNode] at typed
        simp only [FsState.ilock, if_neg isUsed, locked, isLocked, isValid, bind, Except.bind,
          Bool.false_eq_true, if_false, sameOf, if_neg typed, pure, Except.pure]
        simp [FsState.modify, dip]
      · refine balance.modify used (by rfl) (by rfl) (fun _ _ => rfl) lock_of_none ?_
        refine ⟨slot.ref, ?_, slot.sameDev, slot.sameInum, fun _ _ => rfl, fun _ _ => isNode.symm⟩
        rw [if_pos rfl]
      · refine ⟨?_, ?_, ?_, ?_⟩
        · rw [isNode]
          simp [FsState.modify, dip]
        · simp [FsState.modify]
        · simp [FsState.modify]
        · simp [FsState.modify]

theorem iunlock (balance : Balance sb p start held (some i) state) (used : 0 < (state.icache i).ref) :
    ∃ after, state.iunlock p i = .ok after ∧ Balance sb p start held none after ∧
      (after.icache i).dev = (state.icache i).dev ∧ (after.icache i).inum = (state.icache i).inum ∧
      ∀ k, k ≠ i → after.icache k = state.icache k := by
  have slot := balance.slot i
  have goes : ¬((state.icache i).holder ≠ some p ∨ (state.icache i).ref < 1) := by
    rw [slot.holder, if_pos rfl]
    rintro (differ | unused)
    · exact differ rfl
    · omega
  refine ⟨state.modify i fun ip => { ip with holder := none }, ?_, ?_, ?_, ?_, ?_⟩
  · rw [FsState.iunlock, if_neg goes]
  · refine balance.modify used (by rfl) (by rfl) (fun _ _ => rfl) (fun k other => (lock_of_none k other).symm) ?_
    exact ⟨slot.ref, rfl, slot.sameDev, slot.sameInum, slot.stillValid, slot.node⟩
  · simp [FsState.modify]
  · simp [FsState.modify]
  · exact fun k other => update_of_ne other ..

/-- `iput` gives a reference back. The inode is not freed: there are other references, or it has
links. -/
theorem iput (balance : Balance sb p start held none state) (owned : 0 < held i)
    (linked : 0 < (start.icache i).ref ∨ 1 < held i ∨
      (start.node sb (state.icache i).dev (state.icache i).inum).nlink ≠ 0) :
    ∃ after, state.iput sb p i = .ok after ∧
      Balance sb p start (update held i (held i - 1)) none after ∧
      (∀ k, k ≠ i → after.icache k = state.icache k) ∧
      (after.icache i).dev = (state.icache i).dev ∧ (after.icache i).inum = (state.icache i).inum := by
  have slot := balance.slot i
  have isRef := slot.ref
  have used : 0 < (state.icache i).ref := by omega
  have kept : ¬((state.icache i).valid = true ∧ (state.icache i).nlink = 0 ∧
      (state.icache i).ref = 1) := by
    rintro ⟨valid, noLink, last⟩
    rcases linked with others | others | hasLink
    · omega
    · omega
    · rw [← slot.node used valid] at hasLink
      exact hasLink noLink
  refine ⟨_, iput_kept slot.holder kept, ?_, ?_, ?_, ?_⟩
  · refine balance.modify used (by rfl) (by rfl) ?_ (fun _ _ => Iff.rfl) ?_
    · exact fun k other => update_of_ne other ..
    · rw [update_self]
      refine ⟨?_, rfl, slot.sameDev, slot.sameInum, slot.stillValid, ?_⟩
      · change (state.icache i).ref - 1 = _
        omega
      · exact fun _ => slot.node used
  · exact fun k other => update_of_ne other ..
  · simp [FsState.modify]
  · simp [FsState.modify]

theorem iunlockput (balance : Balance sb p start held (some i) state) (owned : 0 < held i)
    (linked : 0 < (start.icache i).ref ∨ 1 < held i ∨
      (start.node sb (state.icache i).dev (state.icache i).inum).nlink ≠ 0) :
    ∃ after, state.iunlockput sb p i = .ok after ∧
      Balance sb p start (update held i (held i - 1)) none after ∧
      ∀ k, (after.icache k).dev = (state.icache k).dev ∧
        (after.icache k).inum = (state.icache k).inum := by
  have isRef := (balance.slot i).ref
  rcases balance.iunlock (by omega) with ⟨middle, unlocked, middleBalance, sameDev, sameInum, others⟩
  rw [← sameDev, ← sameInum] at linked
  rcases middleBalance.iput owned linked with ⟨after, put, afterBalance, othersAfter, devAfter, inumAfter⟩
  refine ⟨after, ?_, afterBalance, ?_⟩
  · simp only [FsState.iunlockput, unlocked, put, bind, Except.bind]
  · intro k
    by_cases isSlot : k = i
    · rw [isSlot, devAfter, inumAfter]
      exact ⟨sameDev, sameInum⟩
    · rw [othersAfter k isSlot, others k isSlot]
      exact ⟨rfl, rfl⟩

theorem got (balance : Balance sb p start held lock state) (got : Got state dev inum i after) :
    Balance sb p start (update held i (held i + 1)) lock after := by
  have slot := balance.slot i
  have isRef := slot.ref
  have heldOthers : ∀ k, k ≠ i → update held i (held i + 1) k = held k :=
    fun k other => update_of_ne other ..
  rcases got.slot with ⟨_, used, isSlot⟩ | ⟨uncached, unused, isRefAfter, invalid⟩
  · apply balance.change got.others got.device _ heldOthers (fun _ _ => Iff.rfl)
    · rw [isSlot, update_self]
      refine ⟨?_, slot.holder, slot.sameDev, slot.sameInum, slot.stillValid, fun _ => slot.node used⟩
      change (state.icache i).ref + 1 = _
      omega
    · apply balance.unique.keep used got.others
      · rw [isSlot]
      · rw [isSlot]
  · have startUnused : ¬0 < (start.icache i).ref := by omega
    apply balance.change got.others got.device _ heldOthers (fun _ _ => Iff.rfl)
    · rw [update_self]
      refine ⟨by omega, ?_, ?_, ?_, ?_, ?_⟩
      · rw [got.holder, slot.holder]
      · exact fun used => absurd used startUnused
      · exact fun used => absurd used startUnused
      · exact fun used => absurd used startUnused
      · intro _ valid
        rw [invalid] at valid
        contradiction
    · -- the new slot has an inode that was not cached
      have fresh : ∀ k, k ≠ i → 0 < (after.icache k).ref →
          ¬((after.icache k).dev = dev ∧ (after.icache k).inum = inum) := by
        rintro k other used ⟨isDev, isInum⟩
        rw [got.others k other] at used isDev isInum
        rw [(cached_eq_some_iff balance.unique).2 ⟨used, isDev, isInum⟩] at uncached
        contradiction
      intro k l kUsed lUsed sameDev sameInum
      by_cases kSlot : k = i
      · by_cases lSlot : l = i
        · rw [kSlot, lSlot]
        · rw [kSlot, got.isDev] at sameDev
          rw [kSlot, got.isInum] at sameInum
          exact absurd ⟨sameDev.symm, sameInum.symm⟩ (fresh l lSlot lUsed)
      · by_cases lSlot : l = i
        · rw [lSlot, got.isDev] at sameDev
          rw [lSlot, got.isInum] at sameInum
          exact absurd ⟨sameDev, sameInum⟩ (fresh k kSlot kUsed)
        · rw [got.others k kSlot] at kUsed sameDev sameInum
          rw [got.others l lSlot] at lUsed sameDev sameInum
          exact balance.unique k l kUsed lUsed sameDev sameInum

end Balance

/-! ## The walk -/

section Walk

variable {sb : Superblock} {devsw : Devsw} {p : Slot} {start state : FsState} {i d : InodeId}
  {dev inum fuel : ℕ} {path : List UInt8} {name : CString} {names : List (List UInt8)} {parent : Bool}

theorem store_self : state.store d (state.icache d) (state.deviceOf d) = state := by
  simp [FsState.store, FsState.deviceOf]

theorem dirlookup_of_solid (sb : Superblock) (isDir : (state.icache d).type = T_DIR) (regular : (state.icache d).Regular)
    (solid : (state.icache d).Solid (state.deviceOf d).block) (slot : state.empty ≠ none)
    (devsw : Devsw) (name : CString) :
    match (state.icache d).lookup (state.deviceOf d).block (chars DIRSIZ name) with
    | none => state.dirlookup sb devsw d name = .ok (none, state)
    | some inum => ∃ i off after, state.dirlookup sb devsw d name = .ok (some (i, off), after) ∧
        Got state (state.icache d).dev inum i after := by
  have notDev : (state.icache d).type ≠ T_DEV := by
    rw [isDir]
    exact T_DIR_ne_T_DEV
  have found : (state.icache d).findEntry sb devsw name (state.deviceOf d) = _ :=
    findEntry_of_solid notDev regular solid devsw name
  have goesOn : ¬(state.icache d).type ≠ T_DIR := not_not.2 isDir
  rw [Dinode.lookup]
  cases isEntry : (state.icache d).entryFor (state.deviceOf d).block (chars DIRSIZ name) with
  | none =>
      rw [isEntry] at found
      simp only [Option.map_none, FsState.dirlookup, if_neg goesOn, found, bind, Except.bind, pure,
        Except.pure, store_self]
  | some j =>
      rw [isEntry] at found
      simp only [Option.map_some, FsState.dirlookup, if_neg goesOn, found, bind, Except.bind, pure,
        Except.pure, store_self]
      rcases iget_spec state (state.icache d).dev ((state.icache d).dirent (state.deviceOf d).block j).inum
        with ⟨_, _, noSlot⟩ | ⟨i, after, isGot, got⟩
      · exact absurd noSlot slot
      · rw [isGot]
        exact ⟨i, DIRENTSIZE * j, after, rfl, got⟩

theorem Balance.empty_ne_none {lock : Option InodeId} (tree : Tree sb start)
    (balance : Balance sb p start (heldBy (some i)) lock state) : state.empty ≠ none := by
  rcases tree.slots with ⟨a, b, differ, aFree, bFree⟩
  have free : ∀ k, k ≠ i → (start.icache k).ref = 0 → (state.icache k).ref = 0 := by
    intro k other unused
    rw [(balance.slot k).ref, unused, heldBy, if_neg]
    intro same
    exact other (Option.some.inj same).symm
  by_cases isA : a = i
  · exact Xv6.empty_ne_none (free b (fun isB => differ (isA.trans isB.symm)) bFree)
  · exact Xv6.empty_ne_none (free a isA aFree)

def FsState.target (sb : Superblock) (start : FsState) (parent : Bool) (dev inum : ℕ)
    (names : List (List UInt8)) : Option ℕ :=
  if parent then start.resolveParent sb dev inum names else start.resolve sb dev inum names

theorem heldBy_self : heldBy (some i) i = 1 := if_pos rfl

theorem heldBy_get (j : InodeId) (result : Option InodeId) (k : InodeId) :
    update (heldBy result) j (heldBy result j + 1) k = heldBy result k + heldBy (some j) k := by
  by_cases same : k = j
  · rw [same, update_self, heldBy_self]
  · rw [update_of_ne same, heldBy, heldBy, if_neg (fun isSame => same (Option.some.inj isSame).symm)]
    rfl

/-- What is known of the inode that the walk has come to. -/
structure Standing (sb : Superblock) (p : Slot) (start state : FsState) (i : InodeId) : Prop where
  balance : Balance sb p start (heldBy (some i)) none state
  isInode : (state.icache i).inum < sb.ninodes
  typed : (start.node sb (state.icache i).dev (state.icache i).inum).type ≠ 0
  linked : 0 < (start.icache i).ref ∨
    (start.node sb (state.icache i).dev (state.icache i).inum).nlink ≠ 0

section

variable (standing : Standing sb p start state i)

include standing

theorem Standing.used : 0 < (state.icache i).ref := by
  rw [(standing.balance.slot i).ref, heldBy_self]
  omega

theorem Standing.dirlookup {middle : FsState} (tree : Tree sb start)
    (balance : Balance sb p start (heldBy (some i)) (some i) middle)
    (isNode : (middle.icache i).toDinode = start.node sb (state.icache i).dev (state.icache i).inum)
    (sameDev : (middle.icache i).dev = (state.icache i).dev)
    (isDir : (start.node sb (state.icache i).dev (state.icache i).inum).type = T_DIR)
    (devsw : Devsw) (name : CString) :
    match start.child sb (state.icache i).dev (state.icache i).inum (chars DIRSIZ name) with
    | none => middle.dirlookup sb devsw i name = .ok (none, middle)
    | some next => ∃ j off after, middle.dirlookup sb devsw i name = .ok (some (j, off), after) ∧
        Got middle (state.icache i).dev next j after := by
  have isDevice : (middle.deviceOf i).block = (start.device (state.icache i).dev).block := by
    rw [FsState.deviceOf, balance.device, sameDev]
  rcases tree.whole _ _ standing.isInode isDir with ⟨regular, solid⟩
  rw [← isNode] at isDir regular solid
  rw [← isDevice] at solid
  have found := dirlookup_of_solid sb isDir regular solid (balance.empty_ne_none tree) devsw name
  rw [isNode, isDevice, sameDev] at found
  rw [isNode] at isDir
  rw [FsState.child, if_pos isDir]
  exact found

end

theorem Balance.cached {after : FsState} {held : InodeId → ℕ} {lock : Option InodeId}
    (balance : Balance sb p start held lock after) (isCached : start.cached dev inum = some i) :
    after.cached dev inum = some i := by
  rcases cached_eq_some isCached with ⟨used, isDev, isInum⟩
  have slot := balance.slot i
  have isRef := slot.ref
  exact (cached_eq_some_iff balance.unique).2
    ⟨by omega, (slot.sameDev used).trans isDev, (slot.sameInum used).trans isInum⟩

def FsState.origin (state : FsState) (cwd : InodeId) (path : List UInt8) : ℕ × ℕ :=
  if path.head? = some slash then (ROOTDEV, ROOTINO)
  else ((state.icache cwd).dev, (state.icache cwd).inum)

/-- There is a root directory, and the process has a current directory. -/
structure Rooted (sb : Superblock) (state : FsState) (cwd : InodeId) : Prop where
  rootInode : ROOTINO < sb.ninodes
  rootTyped : (state.node sb ROOTDEV ROOTINO).type ≠ 0
  rootLinked : (state.node sb ROOTDEV ROOTINO).nlink ≠ 0
  cwdUsed : 0 < (state.icache cwd).ref
  cwdInode : (state.icache cwd).inum < sb.ninodes
  cwdTyped : (state.node sb (state.icache cwd).dev (state.icache cwd).inum).type ≠ 0

theorem Rooted.standing {cwd : InodeId} (tree : Tree sb state) (rooted : Rooted sb state cwd)
    (path : List UInt8) (p : Slot) :
    ∃ i after, state.walkStart cwd path = .ok (i, after) ∧ Standing sb p state after i ∧
      ((after.icache i).dev, (after.icache i).inum) = state.origin cwd path := by
  have balance : Balance sb p state (heldBy none) none state := .start_of_tree tree
  have isHeld : ∀ i, update (heldBy none) i (heldBy none i + 1) = heldBy (some i) := by
    intro i
    funext k
    rw [heldBy_get i none k]
    exact Nat.zero_add _
  by_cases absolute : path.head? = some slash
  · rw [FsState.walkStart, FsState.origin, if_pos absolute, if_pos absolute]
    rcases iget_spec state ROOTDEV ROOTINO with ⟨_, _, noSlot⟩ | ⟨i, after, isGot, got⟩
    · rcases tree.slots with ⟨a, _, _, aFree, _⟩
      exact absurd noSlot (empty_ne_none aFree)
    · have gotBalance := balance.got got
      rw [isHeld] at gotBalance
      refine ⟨i, after, isGot, ⟨gotBalance, ?_, ?_, ?_⟩, ?_⟩
      · rw [got.isInum]
        exact rooted.rootInode
      · rw [got.isDev, got.isInum]
        exact rooted.rootTyped
      · rw [got.isDev, got.isInum]
        exact Or.inr rooted.rootLinked
      · rw [got.isDev, got.isInum]
  · rw [FsState.walkStart, FsState.origin, if_neg absolute, if_neg absolute]
    have isSlot : (state.idup cwd).icache cwd =
        { state.icache cwd with ref := (state.icache cwd).ref + 1 } := update_self ..
    have slot := balance.slot cwd
    have dupBalance : Balance sb p state (heldBy (some cwd)) none (state.idup cwd) := by
      refine balance.modify rooted.cwdUsed (by rfl) (by rfl) ?_ (fun _ _ => Iff.rfl) ?_
      · intro k other
        rw [heldBy, heldBy, if_neg (fun same => other (Option.some.inj same).symm)]
        rfl
      · rw [heldBy_self]
        exact ⟨rfl, slot.holder, slot.sameDev, slot.sameInum, slot.stillValid,
          fun _ => slot.node rooted.cwdUsed⟩
    refine ⟨cwd, state.idup cwd, rfl, ⟨dupBalance, ?_, ?_, ?_⟩, ?_⟩
    · rw [isSlot]
      exact rooted.cwdInode
    · rw [isSlot]
      exact rooted.cwdTyped
    · exact Or.inl rooted.cwdUsed
    · rw [isSlot]

end Walk

/-! ## A root directory with a file -/

end Xv6
