import Xv6.Fs.Inode

/-!
# The inode cache

The functions of `fs.c` over `icache`, as one process runs them: `iget`, `idup`, `ilock`,
`iunlock` and `iput`. They pass on the cache and the devices.
-/

namespace Xv6

/-- Why a function does not return: a panic with its message, a panic of the functions for the
blocks of an inode, a sleep lock that is not free, or a loop that has not ended. -/
inductive FsStop where
  | panic (message : String)
  | blocks
  | locked
  | looping
  deriving DecidableEq, Repr

abbrev InodeId := Fin NINODE

structure FsState where
  icache : InodeId → Inode
  device : ℕ → Device

namespace FsState

def modify (state : FsState) (i : InodeId) (change : Inode → Inode) : FsState :=
  { state with icache := Function.update state.icache i (change (state.icache i)) }

/-- The inode and its device after one of the functions that are called with the inode locked. -/
def store (state : FsState) (i : InodeId) (ip : Inode) (device : Device) : FsState where
  icache := Function.update state.icache i ip
  device := Function.update state.device (state.icache i).dev device

def deviceOf (state : FsState) (i : InodeId) : Device := state.device (state.icache i).dev

def cached (state : FsState) (dev inum : ℕ) : Option InodeId :=
  (List.finRange NINODE).find? fun i =>
    0 < (state.icache i).ref ∧ (state.icache i).dev = dev ∧ (state.icache i).inum = inum

def empty (state : FsState) : Option InodeId :=
  (List.finRange NINODE).find? fun i => (state.icache i).ref = 0

def iget (state : FsState) (dev inum : ℕ) : Except FsStop (InodeId × FsState) :=
  match state.cached dev inum with
  | some i => .ok (i, state.modify i fun ip => { ip with ref := ip.ref + 1 })
  | none =>
      match state.empty with
      | none => .error (.panic "iget: no inodes")
      | some i =>
          .ok (i, state.modify i fun ip => { ip with dev := dev, inum := inum, ref := 1, valid := false })

def idup (state : FsState) (i : InodeId) : FsState :=
  state.modify i fun ip => { ip with ref := ip.ref + 1 }

/-- `acquiresleep(&ip->lock)`, which sleeps while the lock is held, be it by the caller. -/
def acquiresleep (state : FsState) (p : Slot) (i : InodeId) : Except FsStop FsState :=
  if (state.icache i).holder.isSome then .error .locked
  else .ok (state.modify i fun ip => { ip with holder := some p })

variable (sb : Superblock)

def ilock (state : FsState) (p : Slot) (i : InodeId) : Except FsStop FsState :=
  if (state.icache i).ref < 1 then .error (.panic "ilock")
  else do
    let state ← state.acquiresleep p i
    if (state.icache i).valid then return state
    else
      let dip := (state.deviceOf i).dinode sb (state.icache i).inum
      let state := state.modify i fun ip => { ip with toDinode := dip, valid := true }
      if dip.type = 0 then .error (.panic "ilock: no type") else return state

def iunlock (state : FsState) (p : Slot) (i : InodeId) : Except FsStop FsState :=
  if (state.icache i).holder ≠ some p ∨ (state.icache i).ref < 1 then .error (.panic "iunlock")
  else .ok (state.modify i fun ip => { ip with holder := none })

/-- The part of `iput` under the sleep lock: the last reference to an inode without links frees the
inode. -/
def release (state : FsState) (i : InodeId) : Except FsStop FsState :=
  let ip := state.icache i
  if ip.valid ∧ ip.nlink = 0 ∧ ip.ref = 1 then
    match ip.itrunc sb (state.deviceOf i) with
    | none => .error .blocks
    | some (ip, device) =>
        let ip := { ip with type := 0 }
        .ok (state.store i { ip with valid := false } (ip.iupdate sb device))
  else .ok state

def iput (state : FsState) (p : Slot) (i : InodeId) : Except FsStop FsState := do
  let state ← state.acquiresleep p i
  let state ← state.release sb i
  return state.modify i fun ip => { ip with holder := none, ref := ip.ref - 1 }

def iunlockput (state : FsState) (p : Slot) (i : InodeId) : Except FsStop FsState := do
  let state ← state.iunlock p i
  state.iput sb p i

end FsState

/-! ## References -/

section Iget

variable {state after : FsState} {dev inum : ℕ} {i k : InodeId}

/-- What `iget` does to the slot that it returns. -/
structure Got (state : FsState) (dev inum : ℕ) (i : InodeId) (after : FsState) : Prop where
  isDev : (after.icache i).dev = dev
  isInum : (after.icache i).inum = inum
  holder : (after.icache i).holder = (state.icache i).holder
  others : ∀ k, k ≠ i → after.icache k = state.icache k
  device : after.device = state.device
  slot : state.cached dev inum = some i ∧ 0 < (state.icache i).ref ∧
      after.icache i = { state.icache i with ref := (state.icache i).ref + 1 } ∨
    state.cached dev inum = none ∧ (state.icache i).ref = 0 ∧ (after.icache i).ref = 1 ∧
      (after.icache i).valid = false

theorem cached_eq_some (isCached : state.cached dev inum = some i) :
    0 < (state.icache i).ref ∧ (state.icache i).dev = dev ∧ (state.icache i).inum = inum := by
  have passes := List.find?_some isCached
  exact of_decide_eq_true passes

theorem empty_eq_some (isEmpty : state.empty = some i) : (state.icache i).ref = 0 := by
  have passes := List.find?_some isEmpty
  exact of_decide_eq_true passes

theorem iget_spec (state : FsState) (dev inum : ℕ) :
    (state.iget dev inum = .error (.panic "iget: no inodes") ∧ state.cached dev inum = none ∧
      state.empty = none) ∨
    ∃ i after, state.iget dev inum = .ok (i, after) ∧ Got state dev inum i after := by
  cases isCached : state.cached dev inum with
  | some i =>
      rcases cached_eq_some isCached with ⟨used, isDev, isInum⟩
      refine Or.inr ⟨i, state.modify i fun ip => { ip with ref := ip.ref + 1 }, ?_, ?_⟩
      · simp only [FsState.iget, isCached]
      · constructor
        · simpa [FsState.modify] using isDev
        · simpa [FsState.modify] using isInum
        · simp [FsState.modify]
        · intro k other
          exact Function.update_of_ne other ..
        · rfl
        · exact Or.inl ⟨isCached, used, Function.update_self ..⟩
  | none =>
      cases isEmpty : state.empty with
      | none =>
          refine Or.inl ⟨?_, rfl, rfl⟩
          simp only [FsState.iget, isCached, isEmpty]
      | some i =>
          refine Or.inr ⟨i, state.modify i fun ip =>
            { ip with dev := dev, inum := inum, ref := 1, valid := false }, ?_, ?_⟩
          · simp only [FsState.iget, isCached, isEmpty]
          · constructor
            · simp [FsState.modify]
            · simp [FsState.modify]
            · simp [FsState.modify]
            · intro k other
              exact Function.update_of_ne other ..
            · rfl
            · refine Or.inr ⟨isCached, empty_eq_some isEmpty, ?_, ?_⟩
              · simp [FsState.modify]
              · simp [FsState.modify]

theorem Got.kept (got : Got state dev inum i after) :
    ¬((after.icache i).valid = true ∧ (after.icache i).nlink = 0 ∧ (after.icache i).ref = 1) := by
  rcases got.slot with ⟨_, used, isSlot⟩ | ⟨_, _, _, invalid⟩
  · rw [isSlot]
    simp only
    omega
  · rw [invalid]
    simp

end Iget

theorem iput_kept {sb : Superblock} {state : FsState} {p : Slot} {i : InodeId}
    (unlocked : (state.icache i).holder = none)
    (kept : ¬((state.icache i).valid = true ∧ (state.icache i).nlink = 0 ∧ (state.icache i).ref = 1)) :
    state.iput sb p i = .ok (state.modify i fun ip => { ip with holder := none, ref := ip.ref - 1 }) := by
  have isFree : (state.icache i).holder.isSome = false := by rw [unlocked]; rfl
  have stays : ¬(((state.modify i fun ip => { ip with holder := some p }).icache i).valid = true ∧
      ((state.modify i fun ip => { ip with holder := some p }).icache i).nlink = 0 ∧
      ((state.modify i fun ip => { ip with holder := some p }).icache i).ref = 1) := by
    simpa [FsState.modify] using kept
  simp only [FsState.iput, FsState.acquiresleep, isFree, bind, Except.bind, FsState.release,
    if_neg stays, pure, Except.pure, Bool.false_eq_true, if_false]
  simp [FsState.modify]

end Xv6
