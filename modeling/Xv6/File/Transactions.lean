import Xv6.File.Inodes
import Xv6.Fs.DirectoryMap
import Xv6.Fs.Limits

/-!
# Transactions of open files

An operation may pass `MAXOPBLOCKS` blocks to `log_write`. `filewrite` cuts what it writes into
pieces that are small enough; `filechangesize` does not.
-/

namespace Xv6

open Function

/-- The inode as the process sees it that has locked it. -/
def Inode.lockedBy (ip : Inode) (p : Slot) : Inode := { ip with holder := some p }

namespace FsState

/-- An inode that is in use and not locked, and has been read from disk. -/
structure Usable (sb : Superblock) (state : FsState) (i : InodeId) : Prop where
  used : 1 ≤ (state.icache i).ref
  unlocked : (state.icache i).holder = none
  valid : (state.icache i).valid = true
  isInode : (state.icache i).inum < sb.ninodes
  metadata : (state.deviceOf i).Metadata sb
  placed : (state.icache i).Placed sb (state.deviceOf i)

/-- An operation has passed to `log_write` what it may: blocks of one device. -/
def FitsLog (state : FsState) (i : InodeId) : Prop :=
  (state.deviceOf i).logged.toFinset.card ≤ MAXOPBLOCKS ∧
    ∀ dev ≠ (state.icache i).dev, (state.device dev).logged = []

variable {sb : Superblock} {state after : FsState} {p : Slot} {i : InodeId} {α : Type} {r : α}
  {call : Inode → Device → Option (α × Inode × Device)}

section

variable (usable : state.Usable sb i)

include usable

theorem Usable.beginOp : state.beginOp.Usable sb i where
  used := usable.used
  unlocked := usable.unlocked
  valid := usable.valid
  isInode := usable.isInode
  metadata := usable.metadata
  placed := ⟨usable.placed.used, usable.placed.distinct⟩

theorem Usable.lockedPlaced :
    ((state.icache i).lockedBy p).Placed sb (state.deviceOf i) := usable.placed

theorem Usable.ilock_eq :
    state.ilock sb p i = .ok (state.modify i fun ip => { ip with holder := some p }) := by
  have used : ¬(state.icache i).ref < 1 := Nat.not_lt.2 usable.used
  have isValid : ((state.modify i fun ip => { ip with holder := some p }).icache i).valid = true := by
    simp only [modify, update_self]
    exact usable.valid
  simp only [ilock, if_neg used, acquiresleep, usable.unlocked, Option.isSome_none, Bool.false_eq_true,
    if_false, bind, Except.bind, if_pos isValid]
  rfl

theorem Usable.underLock_eq : state.underLock sb p i call =
      match call ((state.icache i).lockedBy p) (state.deviceOf i) with
      | none => .error .blocks
      | some (r, ip, device) =>
          if ip.holder ≠ some p ∨ ip.ref < 1 then .error (.panic "iunlock")
          else .ok (r, state.store i { ip with holder := none } device) := by
  have isLocked : (state.modify i fun ip => { ip with holder := some p }).icache i =
      (state.icache i).lockedBy p := update_self ..
  have sameDevice : (state.modify i fun ip => { ip with holder := some p }).deviceOf i =
      state.deviceOf i := by
    rw [deviceOf, isLocked]
    rfl
  simp only [underLock, usable.ilock_eq, bind, Except.bind, isLocked, sameDevice]
  cases call ((state.icache i).lockedBy p) (state.deviceOf i) with
  | none => rfl
  | some result =>
      rcases result with ⟨r, ip, device⟩
      simp only [iunlock, store, isLocked, update_self]
      by_cases refused : ip.holder ≠ some p ∨ ip.ref < 1
      · simp only [if_pos refused]
      · simp only [if_neg refused, modify, update_self, update_idem, pure, Except.pure]
        rfl

end

/-- The result of a function that leaves what only the cache has. -/
def put (state : FsState) (i : InodeId) (dip : Dinode) (device : Device) : FsState :=
  state.store i { state.icache i with toDinode := dip } device

theorem Usable.put_eq (usable : state.Usable sb i) {dip : Dinode} {device : Device} :
    state.store i { state.icache i with toDinode := dip, holder := none } device = state.put i dip device := by
  rw [put, ← usable.unlocked]

theorem Usable.underLock_ok {dip : Dinode} {device : Device} (usable : state.Usable sb i)
    (called : call ((state.icache i).lockedBy p) (state.deviceOf i) =
      some (r, { (state.icache i).lockedBy p with toDinode := dip }, device)) :
    state.underLock sb p i call = .ok (r, state.put i dip device) := by
  have unlocks : ¬(some p ≠ some p ∨ (state.icache i).ref < 1) := by
    have used := usable.used
    simp only [ne_eq, not_true_eq_false, false_or]
    omega
  rw [usable.underLock_eq, called, ← usable.put_eq]
  exact if_neg unlocks

theorem Usable.of_underLock (usable : state.Usable sb i)
    (same : ∀ r ip' device, call ((state.icache i).lockedBy p) (state.deviceOf i) =
      some (r, ip', device) → ip' = { (state.icache i).lockedBy p with toDinode := ip'.toDinode })
    (got : state.underLock sb p i call = .ok (r, after)) :
    ∃ ip' device, call ((state.icache i).lockedBy p) (state.deviceOf i) =
      some (r, ip', device) ∧ after = state.put i ip'.toDinode device := by
  rw [usable.underLock_eq] at got
  split at got
  · contradiction
  · rename_i r' ip' device called
    split at got
    · contradiction
    · cases got
      refine ⟨ip', device, called, ?_⟩
      rw [← usable.put_eq]
      apply congrArg (state.store i · device)
      rw [same _ _ _ called]
      rfl

@[simp]
theorem icache_put {dip : Dinode} {device : Device} :
    (state.put i dip device).icache i = { state.icache i with toDinode := dip } :=
  update_self ..

@[simp]
theorem deviceOf_put {dip : Dinode} {device : Device} : (state.put i dip device).deviceOf i = device := by
  rw [deviceOf, icache_put]
  exact update_self ..

theorem Usable.put {dip : Dinode} {device : Device} (usable : state.Usable sb i) (valid : sb.Valid)
    (extended : Extends sb (state.deviceOf i) (state.icache i).toDinode device dip) :
    (state.put i dip device).Usable sb i := by
  constructor
  · rw [icache_put]
    exact usable.used
  · rw [icache_put]
    exact usable.unlocked
  · rw [icache_put]
    exact usable.valid
  · rw [icache_put]
    exact usable.isInode
  · rw [deviceOf_put]
    exact extended.metadata valid usable.metadata
  · rw [icache_put, deviceOf_put]
    exact extended.placed

theorem fitsLog_put {dip : Dinode} {device : Device} :
    (state.beginOp.put i dip device).FitsLog i ↔ device.logged.toFinset.card ≤ MAXOPBLOCKS := by
  rw [FitsLog, deviceOf_put, icache_put]
  apply and_iff_left_of_imp
  · intro _ dev other
    have unchanged : (state.beginOp.put i dip device).device dev = state.beginOp.device dev :=
      update_of_ne other ..
    rw [unchanged]
    rfl

end FsState

/-! ## The blocks of a call -/

section Calls

variable {sb : Superblock} {devsw : Devsw} {device after : Device} {ip ip' : Inode} {off n size : ℕ}
  {src : ℕ → UInt8} {r : ℤ} (valid : sb.Valid) (metadata : device.Metadata sb)
  (placed : ip.Placed sb device)

include valid metadata placed

section

variable (isInode : ip.inum < sb.ninodes) (isUint : off < 2 ^ 32 ∧ n < 2 ^ 32)
  (got : ip.writei sb devsw src off n device = some (r, ip', after))

include isInode isUint got

theorem writei_cases : ip' = ip ∧ after = device ∨
      (ip.type ≠ T_DEV ∧ off ≤ ip.size.toNat ∧ off + n ≤ MAXFILE * BSIZE) ∧ r = n ∧
        Wrote sb device ip off n src after ip' := by
  by_cases notDev : ip.type ≠ T_DEV
  · by_cases refused : ip.size.toNat < off ∨ MAXFILE * BSIZE < off + n
    · rw [writei_refused notDev isUint refused] at got
      cases got
      exact Or.inl ⟨rfl, rfl⟩
    · have inside : off ≤ ip.size.toNat := by omega
      have fits : off + n ≤ MAXFILE * BSIZE := by omega
      exact Or.inr ⟨⟨notDev, inside, fits⟩,
        writei_wrote valid metadata placed isInode notDev inside fits got⟩
  · have isDev := not_not.1 notDev
    left
    simp only [Inode.writei, if_pos isDev] at got
    split at got
    · cases got
      exact ⟨rfl, rfl⟩
    · rcases Prod.mk.inj (Option.some.inj got) with ⟨_, same⟩
      rcases Prod.mk.inj same with ⟨rfl, rfl⟩
      exact ⟨rfl, rfl⟩

theorem writei_same : ip' = { ip with toDinode := ip'.toDinode } := by
  rcases writei_cases valid metadata placed isInode isUint got with ⟨rfl, _⟩ | ⟨_, _, written⟩
  · rfl
  · rcases written.same with ⟨addrs, size, rfl⟩
    rfl

end

theorem card_logged_writei (oneBlock : sb.size ≤ BPB) (begun : device.logged = [])
    (isInode : ip.inum < sb.ninodes) (isUint : off < 2 ^ 32 ∧ n < 2 ^ 32)
    (got : ip.writei sb devsw src off n device = some (r, ip', after)) :
    after.logged.toFinset.card ≤ (places off n).card + 2 := by
  rcases writei_cases valid metadata placed isInode isUint got with
    ⟨_, rfl⟩ | ⟨⟨notDev, inside, fits⟩, _⟩
  · rw [begun]
    exact Nat.zero_le _
  · rw [writei_eq notDev inside fits] at got
    rcases Option.map_eq_some_iff.1 got with ⟨⟨ip₁, middle⟩, copied, result⟩
    have few : middle.logged.toFinset.card ≤ (places off n).card + 1 := by
      rw [(card_logged_copyIn valid metadata placed oneBlock begun copied).1]
      exact Dinode.logCount_le
    rcases Prod.mk.inj result with ⟨_, isEnd⟩
    unfold Inode.writeEnd at isEnd
    split at isEnd
    · rcases Prod.mk.inj isEnd with ⟨_, rfl⟩
      exact Nat.le_trans card_logWrite_le (Nat.add_le_add_right few 1)
    · rcases Prod.mk.inj isEnd with ⟨_, rfl⟩
      exact Nat.le_succ_of_le few

theorem changesize_same (got : ip.changesize sb size device = some (r, ip', after)) :
    ip' = { ip with toDinode := ip'.toDinode } := by
  by_cases isFile : ip.type = T_FILE
  · rw [changesize_eq isFile] at got
    rcases Option.map_eq_some_iff.1 got with ⟨⟨ip₁, middle⟩, copied, result⟩
    rcases (copyIn_written valid metadata placed (Nat.sub_le _ 0) copied).same with ⟨addrs, rfl⟩
    rcases Prod.mk.inj result with ⟨_, isEnd⟩
    rcases Prod.mk.inj isEnd with ⟨rfl, _⟩
    rfl
  · rw [changesize_refused isFile] at got
    rcases Prod.mk.inj (Option.some.inj got) with ⟨_, same⟩
    rcases Prod.mk.inj same with ⟨rfl, _⟩
    rfl

end Calls

/-! ## filewrite -/

namespace InodeFile

/-- The loop of `filewrite`, started with a file and a state, has come to its test. -/
inductive Iterated (sb : Superblock) (devsw : Devsw) (p : Slot) (src : ℕ → UInt8) (n : ℕ)
    (f : InodeFile) (state : FsState) : ℕ → InodeFile → FsState → Prop
  | start : Iterated sb devsw p src n f state 0 f state
  | next {i : ℕ} {f' f'' : InodeFile} {state' state'' : FsState}
      (before : Iterated sb devsw p src n f state i f' state') (unfinished : i < n)
      (wrote : f'.writeChunk sb devsw p (fun j => src (i + j)) (min (n - i) writeMax) state' =
        .ok ((min (n - i) writeMax : ℕ), f'', state'')) :
      Iterated sb devsw p src n f state (i + min (n - i) writeMax) f'' state''

section

variable {sb : Superblock} {devsw : Devsw} {p : Slot} {src : ℕ → UInt8} {n n1 i : ℕ} {r : ℤ}
  {f f' f'' : InodeFile} {state state' state'' : FsState} (valid : sb.Valid)

theorem advance_ip : (f.advance r).ip = f.ip := by
  unfold advance
  split <;> rfl

theorem isUint_of_small (small : n1 ≤ writeMax) : f.off.toNat < 2 ^ 32 ∧ n1 < 2 ^ 32 := by
  refine ⟨f.off.toNat_lt, ?_⟩
  simp only [writeMax, MAXOPBLOCKS] at small
  omega

theorem writeChunk_eq : f.writeChunk sb devsw p src n1 state =
    (state.beginOp.underLock sb p f.ip fun ip device =>
      ip.writei sb devsw src f.off.toNat n1 device).map fun (r, state) => (r, f.advance r, state) := by
  simp only [writeChunk, bind, Except.bind, pure, Except.pure]
  cases state.beginOp.underLock sb p f.ip fun ip device => ip.writei sb devsw src f.off.toNat n1 device with
  | error stop => rfl
  | ok result => rfl

include valid

section

variable (usable : state.Usable sb f.ip) (small : n1 ≤ writeMax)

include usable small

theorem writeChunk_ok {ip' : Inode} {device : Device}
    (called : ((state.icache f.ip).lockedBy p).writei sb devsw src f.off.toNat n1
      (state.beginOp.deviceOf f.ip) = some (r, ip', device)) :
    f.writeChunk sb devsw p src n1 state =
      .ok (r, f.advance r, state.beginOp.put f.ip ip'.toDinode device) := by
  have begun := usable.beginOp
  have same := writei_same valid begun.metadata begun.lockedPlaced begun.isInode (isUint_of_small small)
    called
  rw [same] at called
  rw [writeChunk_eq, begun.underLock_ok called]
  rfl

theorem of_writeChunk (got : f.writeChunk sb devsw p src n1 state = .ok (r, f', state')) :
    f' = f.advance r ∧ ∃ ip' device,
      ((state.icache f.ip).lockedBy p).writei sb devsw src f.off.toNat n1
        (state.beginOp.deviceOf f.ip) = some (r, ip', device) ∧
      state' = state.beginOp.put f.ip ip'.toDinode device := by
  have begun := usable.beginOp
  rw [writeChunk_eq] at got
  cases called : state.beginOp.underLock sb p f.ip (fun ip device =>
      ip.writei sb devsw src f.off.toNat n1 device) with
  | error stop =>
      rw [called] at got
      contradiction
  | ok result =>
      rw [called] at got
      cases got
      refine ⟨rfl, begun.of_underLock ?_ called⟩
      intro r ip' device isResult
      exact writei_same valid begun.metadata begun.lockedPlaced begun.isInode (isUint_of_small small) isResult

theorem writeChunk_usable (got : f.writeChunk sb devsw p src n1 state = .ok (r, f', state')) :
    f'.ip = f.ip ∧ state'.Usable sb f.ip := by
  rcases of_writeChunk valid usable small got with ⟨rfl, ip', device, called, rfl⟩
  have begun := usable.beginOp
  refine ⟨advance_ip, begun.put valid ?_⟩
  rcases writei_cases valid begun.metadata begun.lockedPlaced begun.isInode (isUint_of_small small) called
    with ⟨rfl, rfl⟩ | ⟨_, _, written⟩
  · exact .refl begun.placed
  · exact written.extended

end

theorem writeChunk_fitsLog (oneBlock : sb.size ≤ BPB) (usable : state.Usable sb f.ip)
    (small : n1 ≤ writeMax) (got : f.writeChunk sb devsw p src n1 state = .ok (r, f', state')) :
    state'.FitsLog f.ip := by
  rcases of_writeChunk valid usable small got with ⟨rfl, ip', device, called, rfl⟩
  apply FsState.fitsLog_put.2
  have begun := usable.beginOp
  have few := card_logged_writei valid begun.metadata begun.lockedPlaced oneBlock rfl begun.isInode
    (isUint_of_small small) called
  have touched : (places f.off.toNat n1).card ≤ 4 + 1 := by
    apply @card_places_le f.off.toNat n1 (f.off.toNat / BSIZE) 4
    · exact Nat.div_mul_le_self ..
    · simp only [writeMax, MAXOPBLOCKS, BSIZE] at small ⊢
      omega
  simp only [MAXOPBLOCKS]
  omega

theorem Iterated.usable (usable : state.Usable sb f.ip)
    (iterated : Iterated sb devsw p src n f state i f' state') :
    f'.ip = f.ip ∧ state'.Usable sb f.ip := by
  induction iterated with
  | start => exact ⟨rfl, usable⟩
  | next _ _ wrote ih =>
      rcases ih with ⟨sameIp, stillUsable⟩
      rw [← sameIp] at stillUsable ⊢
      exact writeChunk_usable valid stillUsable (Nat.min_le_right ..) wrote

end

/-- On a disk laid out by `mkfs`, every transaction of `filewrite` fits the log. -/
theorem write_iteration_fits {devsw : Devsw} {p : Slot} {src : ℕ → UInt8} {n i : ℕ} {r : ℤ}
    {f f' f'' : InodeFile} {state state' state'' : FsState} (usable : state.Usable Mkfs.sb f.ip)
    (iterated : Iterated Mkfs.sb devsw p src n f state i f' state')
    (wrote : f'.writeChunk Mkfs.sb devsw p (fun j => src (i + j)) (min (n - i) writeMax) state' =
      .ok (r, f'', state'')) : state''.FitsLog f.ip := by
  rcases iterated.usable Mkfs.sb_valid usable with ⟨sameIp, stillUsable⟩
  rw [← sameIp] at stillUsable ⊢
  exact writeChunk_fitsLog Mkfs.sb_valid (by decide) stillUsable (Nat.min_le_right ..) wrote

/-! ## filechangesize -/

section

variable {sb : Superblock} {p : Slot} {n : ℤ} {r : ℤ} {f f' : InodeFile} {state state' : FsState}

theorem filechangesize_eq (isWritable : f.writable = true) :
    f.filechangesize sb p n state = (state.beginOp.underLock sb p f.ip fun ip device =>
      ip.changesize sb (uintOfInt n) device).map fun (r, state) =>
        (r, if 0 < r then { f with off := UInt32.ofNat r.toNat } else f, state) := by
  have accepted : ¬f.writable = false := by
    rw [isWritable]
    exact Bool.noConfusion
  simp only [filechangesize, if_neg accepted, bind, Except.bind, pure, Except.pure]
  cases state.beginOp.underLock sb p f.ip fun ip device => ip.changesize sb (uintOfInt n) device with
  | error stop => rfl
  | ok result => rfl

variable (valid : sb.Valid) (usable : state.Usable sb f.ip) (isWritable : f.writable = true)

include valid usable isWritable

theorem filechangesize_ok {ip' : Inode} {device : Device}
    (called : ((state.icache f.ip).lockedBy p).changesize sb (uintOfInt n)
      (state.beginOp.deviceOf f.ip) = some (r, ip', device)) :
    f.filechangesize sb p n state = .ok (r, if 0 < r then { f with off := UInt32.ofNat r.toNat } else f,
      state.beginOp.put f.ip ip'.toDinode device) := by
  have begun := usable.beginOp
  have same := changesize_same valid begun.metadata begun.lockedPlaced called
  rw [same] at called
  rw [filechangesize_eq isWritable, begun.underLock_ok called]
  rfl

theorem of_filechangesize (got : f.filechangesize sb p n state = .ok (r, f', state')) :
    f' = (if 0 < r then { f with off := UInt32.ofNat r.toNat } else f) ∧ ∃ ip' device,
      ((state.icache f.ip).lockedBy p).changesize sb (uintOfInt n)
        (state.beginOp.deviceOf f.ip) = some (r, ip', device) ∧
      state' = state.beginOp.put f.ip ip'.toDinode device := by
  have begun := usable.beginOp
  rw [filechangesize_eq isWritable] at got
  cases called : state.beginOp.underLock sb p f.ip (fun ip device =>
      ip.changesize sb (uintOfInt n) device) with
  | error stop =>
      rw [called] at got
      contradiction
  | ok result =>
      rw [called] at got
      cases got
      refine ⟨rfl, begun.of_underLock ?_ called⟩
      intro r ip' device isResult
      exact changesize_same valid begun.metadata begun.lockedPlaced isResult

/-- A resize fits the log exactly if the bytes between the two sizes need few blocks: with the block of
the inode they are not more than an operation may log. -/
theorem resize_fits_iff (isSize : sb.size = FSSIZE) (isFile : (state.icache f.ip).type = T_FILE)
    (got : f.filechangesize sb p n state = .ok (r, f', state')) :
    state'.FitsLog f.ip ↔ (state.icache f.ip).logCount (state.deviceOf f.ip).block
      ((state.icache f.ip).resized (uintOfInt n)).2 ((state.icache f.ip).resized (uintOfInt n)).1 + 1 ≤
        MAXOPBLOCKS := by
  rcases of_filechangesize valid usable isWritable got with ⟨_, ip', device, called, rfl⟩
  have begun := usable.beginOp
  have oneBlock : sb.size ≤ BPB := by
    rw [isSize]
    decide
  have isCount := (card_logged_changesize valid begun.metadata begun.lockedPlaced oneBlock rfl begun.isInode
    isFile called).2
  rw [FsState.fitsLog_put, isCount]
  rfl

end

end InodeFile

/-! ## A file of the empty disk -/

namespace Mkfs

/-- The file without contents is open, and nobody has locked it. -/
def emptyFs : FsState where
  icache _ := { emptyIp with holder := none }
  device _ := emptyDisk

def emptyOpen : InodeFile where
  readable := true
  writable := true
  ip := 0
  off := 0

theorem emptyFs_usable : emptyFs.Usable sb emptyOpen.ip where
  used := by decide
  unlocked := rfl
  valid := rfl
  isInode := by decide
  metadata := emptyDisk_metadata
  placed := emptyIp_placed

/-- The first piece of its contents. -/
theorem write_iteration_fits_first : ∃ r f' state',
    emptyOpen.writeChunk sb noDevices 0 (fun _ => 65) InodeFile.writeMax emptyFs = .ok (r, f', state') ∧
      state'.FitsLog emptyOpen.ip := by
  have written : ∃ ip' after, emptyIp.writei sb noDevices (fun _ => 65) 0 InodeFile.writeMax emptyDisk =
      some (((InodeFile.writeMax : ℕ) : ℤ), ip', after) :=
    writei_isSome sb_valid emptyDisk_metadata emptyIp_placed (by decide) (by decide) (by decide)
      (emptyDisk_room (by decide))
  rcases written with ⟨ip', after, called⟩
  have wrote := InodeFile.writeChunk_ok sb_valid emptyFs_usable (Nat.le_refl _) called
  exact ⟨_, _, _, wrote, @InodeFile.write_iteration_fits noDevices 0 (fun _ => 65) InodeFile.writeMax 0 _ _ _ _
    _ _ _ emptyFs_usable .start wrote⟩

theorem uintOfInt_natCast {n : ℕ} (fits : n ≤ MAXFILE * BSIZE) : uintOfInt n = n := by
  simp only [MAXFILE, NDIRECT, NINDIRECT, BSIZE] at fits
  rw [uintOfInt]
  omega

theorem emptyOpen_resized {size : ℕ} (fits : size ≤ MAXFILE * BSIZE) :
    ∃ ip' after, emptyIp.changesize sb size emptyDisk = some ((size : ℤ), ip', after) ∧
      ∃ f', emptyOpen.filechangesize sb 0 size emptyFs =
        .ok ((size : ℤ), f', emptyFs.beginOp.put 0 ip'.toDinode after) := by
  rcases changesize_isSome sb_valid emptyDisk_metadata emptyIp_placed rfl (Nat.zero_le _)
    fits (emptyIp_room fits) with ⟨ip', after, returned⟩
  refine ⟨ip', after, returned, _, InodeFile.filechangesize_ok sb_valid emptyFs_usable rfl ?_⟩
  rw [uintOfInt_natCast fits]
  exact returned

/-- A resize by ten blocks does not fit: with the block of the inode there are eleven. -/
theorem resize_exceeds : ∃ r f' after, emptyOpen.filechangesize sb 0 (10 * BSIZE : ℕ) emptyFs =
    .ok (r, f', after) ∧ MAXOPBLOCKS < (after.deviceOf 0).logged.toFinset.card := by
  rcases @emptyOpen_resized (10 * BSIZE) (by decide) with ⟨ip', after, returned, f', resized⟩
  refine ⟨_, f', _, resized, ?_⟩
  have isCount := (card_logged_changesize sb_valid emptyDisk_metadata emptyIp_placed (by decide) rfl (by decide)
    rfl returned).2
  have isRange : emptyIp.resized (10 * BSIZE) = (10 * BSIZE, 0) := by decide
  have bound := @Dinode.le_logCount emptyIp.toDinode emptyDisk.block 10
  simp only [isRange] at isCount
  rw [FsState.deviceOf_put, isCount, MAXOPBLOCKS]
  omega

theorem resize_fits_block : ∃ r f' after, emptyOpen.filechangesize sb 0 (BSIZE : ℕ) emptyFs =
    .ok (r, f', after) ∧ after.FitsLog emptyOpen.ip := by
  rcases @emptyOpen_resized BSIZE (by decide) with ⟨ip', after, returned, f', resized⟩
  refine ⟨_, f', _, resized, (InodeFile.resize_fits_iff sb_valid emptyFs_usable rfl rfl rfl resized).2 ?_⟩
  have isRange : (emptyFs.icache emptyOpen.ip).resized (uintOfInt (BSIZE : ℕ)) = (BSIZE, 0) := by decide
  have few := @card_places_le 0 BSIZE 0 1 (Nat.zero_le _) (by decide)
  have isCount := @Dinode.logCount_le (emptyFs.icache emptyOpen.ip).toDinode
    (emptyFs.deviceOf emptyOpen.ip).block 0 BSIZE
  simp only [isRange, MAXOPBLOCKS]
  omega

end Mkfs

end Xv6
