import Xv6.Fs.Entries

/-!
# Calls on a directory

Any sequence of `dirlink` calls and clearing of entries, by a process that has locked the directory,
keeps the directory a finite map. `dirlink` gives the inode of a name that is there back with
`iput`, which takes the lock of that inode; if the name stands for the directory itself, the lock
is the one that the process has already, and the call does not return.
-/

namespace Xv6

open Transition

/-- The calls: `dirlink`, and storing an entry with number 0. -/
inductive DirCall where
  | link (name : CString) (inum : ℕ)
  | clear (k : ℕ) (name : CString)

section Calls

variable (sb : Superblock) (devsw : Devsw)

def FsState.clearEntry (state : FsState) (d : InodeId) (k : ℕ) (name : CString) :
    Except FsStop FsState :=
  let de : Dirent := { inum := 0, name := name }
  match (state.icache d).writei sb devsw de.byte (DIRENTSIZE * k) DIRENTSIZE (state.deviceOf d) with
  | none => .error .blocks
  | some (r, dp, device) =>
      if r ≠ DIRENTSIZE then .error (.panic "writei") else .ok (state.store d dp device)

def dirStep (p : Slot) (d : InodeId) (state : FsState) : DirCall → Option FsState
  | .link name inum => (state.dirlink sb devsw p d name inum).toOption.map Prod.snd
  | .clear k name =>
      if k < (state.icache d).count then (state.clearEntry sb devsw d k name).toOption else none

end Calls

section Runs

variable {sb : Superblock} {devsw : Devsw} {p : Slot} {d : InodeId} {start state next : FsState}
  {name : CString} {trace : Trace FsState DirCall}

theorem DirInv.clearEntry {k : ℕ} (inv : DirInv sb p d state) (inside : k < (state.icache d).count)
    (cleared : state.clearEntry sb devsw d k name = .ok next) : DirInv sb p d next := by
  have last : k ≤ (state.icache d).count := Nat.le_of_lt inside
  have fits : DIRENTSIZE * (k + 1) ≤ MAXFILE * BSIZE := by
    apply Nat.le_trans _ inv.regular.fits
    rw [inv.regular.size_eq]
    exact Nat.mul_le_mul_left _ inside
  rcases inv.writei_entry devsw { inum := 0, name := name } last fits with
    ⟨fails, _⟩ | ⟨dp', device', written, wrote⟩
  · simp only [FsState.clearEntry, fails] at cleared
    contradiction
  · simp only [FsState.clearEntry, written, ne_eq, not_true_eq_false, if_false, Except.ok.injEq]
      at cleared
    have sets := wrote.sets last inv.regular (show 0 < 2 ^ 16 by decide)
    rw [← cleared]
    exact inv.write wrote last fits (sets.distinct inv.distinct fun nonzero => absurd rfl nonzero)

def FsState.Yields (sb : Superblock) (devsw : Devsw) (d : InodeId) (state : FsState) (name : CString)
    (value : Option ℕ) : Prop :=
  (∃ stop, state.dirlookup sb devsw d name = .error stop ∧ Hindered sb d state name stop) ∨
    ∃ found after, state.dirlookup sb devsw d name = .ok (found, after) ∧
      found.map (fun entry => (after.icache entry.1).inum) = value

theorem DirInv.yields (inv : DirInv sb p d state) (devsw : Devsw) (name : CString) :
    state.Yields sb devsw d name (state.lookup d name) := by
  rcases dirlookup_spec inv devsw name with ⟨fails, exhausted⟩ | ⟨dp', device', filled, found⟩
  · exact Or.inl ⟨.blocks, fails, .blocks exhausted⟩
  cases isEntry : (state.icache d).entryFor (state.deviceOf d).block (chars DIRSIZ name) with
  | none =>
      rw [isEntry] at found
      refine Or.inr ⟨none, _, found, ?_⟩
      rw [FsState.lookup, Dinode.lookup, isEntry]
      rfl
  | some j =>
      have isLookup : state.lookup d name =
          some ((state.icache d).dirent (state.deviceOf d).block j).inum := by
        rw [FsState.lookup, Dinode.lookup, isEntry, Option.map_some]
      rw [isEntry] at found
      rcases found with ⟨fails, uncached, noSlot⟩ | ⟨i, after, isFound, got⟩
      · exact Or.inl ⟨_, fails, .slots isLookup uncached noSlot⟩
      · refine Or.inr ⟨_, after, isFound, ?_⟩
        rw [isLookup, Option.map_some, got.isInum]

/-- Nothing is in the way of `dirlink`: there is room in the directory, on the disk, in the cache and in
the log, and the inode that the name stands for is not locked. -/
structure Unhindered (sb : Superblock) (devsw : Devsw) (p : Slot) (d : InodeId) (state : FsState)
    (name : CString) (inum : ℕ) : Prop where
  below : (state.icache d).size.toNat < MAXFILE * BSIZE
  blocks : ¬Exhausted sb (state.deviceOf d) (state.icache d).toDinode
  slot : ∀ inum, state.lookup d name = some inum →
    state.cached (state.icache d).dev inum = none → state.empty ≠ none
  unlocked : ∀ inum i, state.lookup d name = some inum →
    state.cached (state.icache d).dev inum = some i → (state.icache i).holder = none
  logRoom : ∀ r after, state.dirlink sb devsw p d name inum = .ok (r, after) → (after.deviceOf d).LogRoom

theorem Unhindered.not_hindered {stop : FsStop} {inum : ℕ}
    (unhindered : Unhindered sb devsw p d state name inum) : ¬Hindered sb d state name stop := by
  intro hindered
  cases hindered with
  | blocks exhausted => exact unhindered.blocks exhausted
  | slots isLookup uncached noSlot => exact unhindered.slot _ isLookup uncached noSlot
  | locked isLookup isCached isLocked => exact isLocked (unhindered.unlocked _ _ isLookup isCached)
  | full isFull => exact Nat.ne_of_lt unhindered.below isFull

theorem Hindered.stop_mem {stop : FsStop} (hindered : Hindered sb d state name stop) :
    stop ∈ [FsStop.blocks, .panic "iget: no inodes", .locked, .panic "dirlink"] := by
  cases hindered with
  | blocks | slots | locked | full => simp

def FsState.Links (sb : Superblock) (devsw : Devsw) (p : Slot) (d : InodeId) (state : FsState)
    (name : CString) (inum : ℕ) : Prop :=
  match state.lookup d name with
  | some _ => ∃ after, state.dirlink sb devsw p d name inum = .ok (-1, after) ∧ (after.deviceOf d).LogRoom ∧
      (after.icache d).size = (state.icache d).size ∧ ∀ i, after.byteAt d i = state.byteAt d i
  | none => ∃ after, state.dirlink sb devsw p d name inum = .ok (0, after) ∧ (after.deviceOf d).LogRoom ∧
      ∀ other, after.Yields sb devsw d other
        (if chars DIRSIZ other = chars DIRSIZ name then some inum else state.lookup d other)

theorem DirInv.dirlink_spec (inv : DirInv sb p d state) (devsw : Devsw) (name : CString) (inum : ℕ) :
    (∃ stop, state.dirlink sb devsw p d name inum = .error stop ∧ Hindered sb d state name stop) ∨
      ∃ r after, state.dirlink sb devsw p d name inum = .ok (r, after) ∧ DirInv sb p d after ∧
        (0 < inum → inum < 2 ^ 16 → (after.deviceOf d).LogRoom → state.Links sb devsw p d name inum) := by
  cases isEntry : (state.icache d).entryFor (state.deviceOf d).block (chars DIRSIZ name) with
  | some j =>
      rcases dirlink_present inv isEntry with fails | ⟨after, isAfter, invAfter, unchanged⟩
      · exact Or.inl fails
      · refine Or.inr ⟨-1, after, isAfter, invAfter, ?_⟩
        intro _ _ logRoom
        rw [FsState.Links, FsState.lookup, Dinode.lookup, isEntry]
        exact ⟨after, isAfter, logRoom, unchanged⟩
  | none =>
      rcases dirlink_absent inv isEntry with fails | ⟨after, isAfter, invAfter, updated⟩
      · exact Or.inl fails
      · refine Or.inr ⟨0, after, isAfter, invAfter, ?_⟩
        intro positive small logRoom
        have isLookup : state.lookup d name = none := by
          rw [FsState.lookup, Dinode.lookup, isEntry, Option.map_none]
        rw [FsState.Links, isLookup]
        refine ⟨after, isAfter, logRoom, ?_⟩
        intro other
        rw [← updated positive small other]
        exact invAfter.yields devsw other

theorem DirInv.dirStep {call : DirCall} (inv : DirInv sb p d state)
    (stepped : dirStep sb devsw p d state call = some next) : DirInv sb p d next := by
  cases call with
  | link name inum =>
      rcases inv.dirlink_spec devsw name inum with ⟨_, fails, _⟩ | ⟨r, after, linked, invAfter, _⟩
      · simp only [Xv6.dirStep, fails, Except.toOption, Option.map_none] at stepped
        contradiction
      · simp only [Xv6.dirStep, linked, Except.toOption, Option.map_some, Option.some.injEq] at stepped
        rw [← stepped]
        exact invAfter
  | clear k name =>
      simp only [Xv6.dirStep] at stepped
      split at stepped
      · rename_i inside
        cases cleared : state.clearEntry sb devsw d k name with
        | error stop =>
            simp only [cleared, Except.toOption] at stepped
            contradiction
        | ok after =>
            simp only [cleared, Except.toOption, Option.some.injEq] at stepped
            rw [← stepped]
            exact inv.clearEntry inside cleared
      · contradiction

theorem DirInv.run (inv : DirInv sb p d start)
    (run : Run (Xv6.dirStep sb devsw p d) start trace state) : DirInv sb p d state := by
  refine run.stateInvariant (DirInv sb p d) inv ?_ (Trace.all_true trace)
  intro state label next before _ stepped
  exact before.dirStep stepped

/-- In every run, the directory is a finite map that `dirlookup` reads and that `dirlink` extends
unless something is in the way, and no entry is cut off. -/
theorem directory_finite_map (inv : DirInv sb p d start)
    (run : Run (Xv6.dirStep sb devsw p d) start trace state) :
    (state.icache d).Distinct (state.deviceOf d).block ∧ DIRENTSIZE ∣ (state.icache d).size.toNat ∧
      (∀ name, state.Yields sb devsw d name (state.lookup d name)) ∧
      (∀ name inum, 0 < inum → inum < 2 ^ 16 → Unhindered sb devsw p d state name inum →
        state.Links sb devsw p d name inum) ∧
      ∀ name inum, state.dirlookup sb devsw d name ≠ .error (.panic "dirlookup read") ∧
        state.dirlink sb devsw p d name inum ≠ .error (.panic "dirlookup read") ∧
        state.dirlink sb devsw p d name inum ≠ .error (.panic "dirlink read") := by
  have now := inv.run run
  refine ⟨now.distinct, now.regular.whole, now.yields devsw, ?_, ?_⟩
  · intro name inum positive small unhindered
    rcases now.dirlink_spec devsw name inum with ⟨_, _, hindered⟩ | ⟨r, after, linked, _, links⟩
    · exact absurd hindered unhindered.not_hindered
    · exact links positive small (unhindered.logRoom r after linked)
  · intro name inum
    have linkStops : ∀ stop, state.dirlink sb devsw p d name inum = .error stop →
        Hindered sb d state name stop := by
      intro stop fails
      rcases now.dirlink_spec devsw name inum with ⟨_, isError, hindered⟩ | ⟨_, _, isOk, _⟩
      · rw [isError] at fails
        cases fails
        exact hindered
      · rw [isOk] at fails
        contradiction
    refine ⟨?_, ?_, ?_⟩
    · intro fails
      rcases now.yields devsw name with ⟨_, isError, hindered⟩ | ⟨_, _, isOk, _⟩
      · rw [isError] at fails
        cases fails
        exact absurd hindered.stop_mem (by decide)
      · rw [isOk] at fails
        contradiction
    · intro fails
      exact absurd (linkStops _ fails).stop_mem (by decide)
    · intro fails
      exact absurd (linkStops _ fails).stop_mem (by decide)

end Runs

/-! ## A home directory -/

def homeSb : Superblock where
  size := 200
  nblocks := 195
  ninodes := 8
  nlog := 0
  logstart := 2
  inodestart := 2
  bmapstart := 4

def noDevices : Devsw where
  read := fun _ => none
  write := fun _ => none

/-- A process has locked a directory with one entry, for the directory itself. -/
def home : FsState where
  icache := fun i =>
    if i = 0 then
      { type := T_DIR, major := 0, minor := 0, nlink := 1, size := 16
        addrs := fun k => if k = 0 then 5 else 0
        dev := ROOTDEV, inum := ROOTINO, ref := 1, holder := some 0, valid := true }
    else
      { type := 0, major := 0, minor := 0, nlink := 0, size := 0, addrs := fun _ => 0
        dev := 0, inum := 0, ref := 0, holder := none, valid := false }
  device := fun _ =>
    { block := fun b i =>
        if b = 4 ∧ i = 0 then 0x3f
        else if b = 5 ∧ i = 0 then 1
        else if b = 5 ∧ i = 2 then 46
        else 0
      logged := [] }

def letter (c : UInt8) : CString := fun i => if i = 0 then c else 0

theorem home_dirInv : DirInv homeSb 0 0 home where
  valid := ⟨by decide, by decide, by decide⟩
  isDir := rfl
  held := rfl
  used := by decide
  isInode := by decide
  metadata := by
    unfold Device.Metadata
    decide
  placed := Dinode.placed_of_direct rfl (by decide) (by decide)
  regular := ⟨by decide, by decide⟩
  distinct := by
    have one : (home.icache 0).count = 1 := rfl
    intro j jBelow k kBelow _ _ _
    omega
  free := by decide

/-- The directory after `dirlink` of another name. -/
def homeWithFile : FsState := arrive (dirStep homeSb noDevices 0 0) home [.link (letter 97) 2]

/-- The name is there, and the call does not return. -/
theorem link_of_own_name_deadlocks :
    DirInv homeSb 0 0 home ∧ (home.icache 0).size.toNat < MAXFILE * BSIZE ∧
      home.lookup 0 (letter 46) = some ROOTINO ∧
      home.dirlink homeSb noDevices 0 0 (letter 46) 5 = .error .locked :=
  ⟨home_dirInv, by decide, by decide +kernel, rfl⟩

theorem homeWithFile_unhindered : Unhindered homeSb noDevices 0 0 homeWithFile (letter 98) 3 where
  below := by decide +kernel
  blocks := by
    apply not_exhausted_of_card (Finset.range 200 \ Finset.range 6) (by decide +kernel)
    decide +kernel
  slot := by
    have absent : homeWithFile.lookup 0 (letter 98) = none := by decide +kernel
    intro inum isLookup
    rw [absent] at isLookup
    contradiction
  unlocked := by
    have absent : homeWithFile.lookup 0 (letter 98) = none := by decide +kernel
    intro inum i isLookup
    rw [absent] at isLookup
    contradiction
  logRoom := by
    have few : (homeWithFile.dirlink homeSb noDevices 0 0 (letter 98) 3).toOption.all fun result =>
        decide ((result.2.deviceOf 0).logged.length < LOGSIZE) := by decide +kernel
    intro r after linked
    rw [linked] at few
    have bound : (after.deviceOf 0).logged.length < LOGSIZE := of_decide_eq_true few
    apply Nat.lt_of_le_of_lt (List.toFinset_card_le _)
    rw [List.length_tail]
    simp only [LOGSIZE, MAXOPBLOCKS] at bound ⊢
    omega

theorem second_name_linked :
    homeWithFile.lookup 0 (letter 97) = some 2 ∧ homeWithFile.lookup 0 (letter 46) = some ROOTINO ∧
      homeWithFile.Links homeSb noDevices 0 0 (letter 98) 3 := by
  have begins : Run (dirStep homeSb noDevices 0 0) home [] home := .refl
  rcases begins.arrive [.link (letter 97) 2] (fun trace => trace.length == 1) (by decide +kernel) with
    ⟨later, run, _⟩
  refine ⟨by decide +kernel, by decide +kernel, ?_⟩
  rcases directory_finite_map home_dirInv run with ⟨_, _, _, links, _⟩
  exact links (letter 98) 3 (by decide) (by decide) homeWithFile_unhindered

end Xv6
