import Xv6.Fs.Logged
import Xv6.Mkfs.Holes

/-!
# The limits of changesize

With a size that a file can have, `changesize` returns it if there are blocks for it, on the disk and in
the log. With a larger one it panics, in `bmap` at the latest.
-/

namespace Xv6

/-- A file becomes as long as the call says, exactly if it can be, and if the bytes between the two sizes
find the blocks that they miss and room in the log. -/
theorem changesize_returns_iff {sb : Superblock} {device : Device} {ip : Inode} {size : ℕ}
    (valid : sb.Valid) (oneBlock : sb.size ≤ BPB) (metadata : device.Metadata sb)
    (placed : ip.Placed sb device) (isInode : ip.inum < sb.ninodes) (isFile : ip.type = T_FILE)
    (bounded : ip.size.toNat ≤ MAXFILE * BSIZE) (begun : device.logged = []) :
    (∃ ip' after, ip.changesize sb size device = some ((size : ℤ), ip', after) ∧
        ip'.size.toNat = size ∧ after.LogRoom) ↔
      size ≤ MAXFILE * BSIZE ∧ Room sb device ip.toDinode (ip.resized size).2 (ip.resized size).1 ∧
        ip.logCount device.block (ip.resized size).2 (ip.resized size).1 < LOGSIZE - 1 := by
  have isCount : ∀ {r ip' after}, ip.changesize sb size device = some (r, ip', after) → _ :=
    fun returned => (card_logged_changesize valid metadata placed oneBlock begun isInode isFile returned).1
  constructor
  · rintro ⟨ip', after, returned, _, room⟩
    have fits : size ≤ MAXFILE * BSIZE := by
      by_contra long
      rw [changesize_panics valid metadata placed isFile (Nat.not_le.1 long) bounded] at returned
      contradiction
    rw [Device.LogRoom, isCount returned] at room
    rw [changesize_eq isFile] at returned
    rcases Option.map_eq_some_iff.1 returned with ⟨_, copied, _⟩
    have written := copyIn_written valid metadata placed (Nat.sub_le _ 0) copied
    rw [Nat.sub_zero] at written
    exact ⟨fits, written.room, room⟩
  · rintro ⟨fits, room, logRoom⟩
    rcases changesize_isSome valid metadata placed isFile bounded fits room with ⟨ip', after, returned⟩
    refine ⟨ip', after, returned,
      (changesize_resized valid metadata placed isFile isInode fits returned).2.size, ?_⟩
    rw [Device.LogRoom, isCount returned]
    exact logRoom

/-! ## An empty disk -/

namespace Mkfs

def emptyState : State where
  sectors := fun _ _ => 0
  length := FSSIZE
  freeinode := 1
  freeblock := nmeta

def emptyDisk : Device := emptyState.image

theorem emptyState_sound : emptyState.Sound where
  length := rfl
  low := Nat.le_refl _
  high := by decide
  fresh _ _ _ _ _ := rfl

theorem emptyDisk_metadata : emptyDisk.Metadata sb := emptyState.shows_image.metadata emptyState_sound

theorem free_emptyDisk : emptyDisk.free sb = Finset.Ico nmeta FSSIZE := by
  ext b
  rw [Device.free, Finset.mem_filter, Finset.mem_range, Finset.mem_Ico, and_comm]
  apply and_congr_left
  intro below
  have inMap : b < BPB := Nat.lt_trans below (by decide)
  have isBit : emptyDisk.inUse sb b = decide (b < nmeta) := emptyState.shows_image.inUse inMap
  rw [isBit, decide_eq_false_iff_not, Nat.not_lt]

theorem many_free_emptyDisk : MAXFILE + 1 < (emptyDisk.free sb).card := by
  rw [free_emptyDisk, Nat.card_Ico]
  decide

def emptyIp : Inode where
  toDinode := newInode T_FILE
  dev := ROOTDEV
  inum := 2
  ref := 1
  holder := some 0
  valid := true

theorem emptyIp_placed : emptyIp.Placed sb emptyDisk where
  used place present := absurd (addr_newInode place) present
  distinct place _ present := absurd (addr_newInode place) present

theorem emptyDisk_room {off n : ℕ} (fits : off + n ≤ MAXFILE * BSIZE) :
    Room sb emptyDisk emptyIp.toDinode off n := room_of_card fits (Nat.le_of_lt many_free_emptyDisk)

theorem emptyIp_room {size : ℕ} (fits : size ≤ MAXFILE * BSIZE) :
    Room sb emptyDisk emptyIp.toDinode (emptyIp.resized size).2 (emptyIp.resized size).1 := by
  apply emptyDisk_room
  rw [(@resized_range emptyIp size).2]
  exact Nat.max_le.2 ⟨Nat.zero_le _, fits⟩

/-- A file has all its `MAXFILE` blocks, and blocks of the disk are left over. It can be resized to its
own size, but one byte more is a panic before anything is logged. -/
theorem changesize_past_last_block : ∃ (ip : Inode) (device : Device),
    (device.Metadata sb ∧ ip.Placed sb device ∧ ip.inum < sb.ninodes ∧ ip.type = T_FILE ∧
      ip.size.toNat = MAXFILE * BSIZE ∧ (∀ bn < MAXFILE, ip.addr device.block (some bn) ≠ 0) ∧
      device.logged = [] ∧ device.balloc sb ≠ none) ∧
    (∃ ip' after, ip.changesize sb (MAXFILE * BSIZE) device =
      some (((MAXFILE * BSIZE : ℕ) : ℤ), ip', after) ∧ after.LogRoom) ∧
    ip.changesize sb (MAXFILE * BSIZE + 1) device = none := by
  rcases changesize_isSome sb_valid emptyDisk_metadata emptyIp_placed rfl (Nat.zero_le _)
    (Nat.le_refl _) (emptyIp_room (Nat.le_refl _)) with ⟨ip, after, returned⟩
  have resized := (changesize_resized sb_valid emptyDisk_metadata emptyIp_placed rfl (by decide)
    (Nat.le_refl _) returned).2
  have metadata : ({ after with logged := [] } : Device).Metadata sb :=
    resized.extended.metadata sb_valid emptyDisk_metadata
  have placed : ip.Placed sb { after with logged := [] } :=
    ⟨resized.extended.placed.used, resized.extended.placed.distinct⟩
  have isInode : ip.inum < sb.ninodes := by
    rcases resized.same with ⟨_, _, rfl⟩
    exact (by decide : emptyIp.inum < sb.ninodes)
  have isFile : ip.type = T_FILE := by
    rcases resized.same with ⟨_, _, rfl⟩
    rfl
  have nothing : ip.resized (MAXFILE * BSIZE) = (0, MAXFILE * BSIZE) := by
    rw [Inode.resized, resized.size, if_neg (Nat.lt_irrefl _), Nat.sub_self]
  refine ⟨ip, { after with logged := [] },
    ⟨metadata, placed, isInode, isFile, resized.size, ?_, rfl, ?_⟩, ?_, ?_⟩
  · intro bn inside
    have here := resized.present (bn * BSIZE) (Nat.zero_le _) (Nat.lt_of_lt_of_le
      (Nat.mul_lt_mul_of_pos_right inside (by decide)) (Nat.le_max_right ..))
    rw [Nat.mul_div_cancel bn (by decide)] at here
    exact here
  · intro full
    have stillFull : after.balloc sb = none := Option.map_eq_none_iff.2 (Option.map_eq_none_iff.1 full)
    apply not_exhausted_of_card (emptyDisk.free sb) many_free_emptyDisk _
      ⟨after, ip.toDinode, resized.extended, stillFull⟩
    intro b isFree
    rcases Finset.mem_filter.1 isFree with ⟨inRange, unused⟩
    rw [free_emptyDisk] at isFree
    have isData : nmeta ≤ b := (Finset.mem_Ico.1 isFree).1
    exact ⟨Nat.ne_of_gt (Nat.lt_of_lt_of_le (by decide) isData), Finset.mem_range.1 inRange, unused⟩
  · rw [changesize_eq isFile, nothing, toInt_small (Nat.le_refl _)]
    exact ⟨_, _, rfl, (by decide : 0 < LOGSIZE - 1)⟩
  · exact changesize_panics sb_valid metadata placed isFile (Nat.lt_succ_self _) (Nat.le_of_eq resized.size)

/-- An empty file becomes one block long. -/
theorem changesize_returns_block :
    ∃ ip' after, emptyIp.changesize sb BSIZE emptyDisk = some ((BSIZE : ℤ), ip', after) ∧
      ip'.size.toNat = BSIZE ∧ after.LogRoom := by
  apply (changesize_returns_iff sb_valid (by decide) emptyDisk_metadata emptyIp_placed (by decide) rfl
    (by decide) rfl).2
  refine ⟨by decide, emptyIp_room (by decide), ?_⟩
  have isRange : emptyIp.resized BSIZE = (BSIZE, 0) := by decide
  have few := @card_places_le 0 BSIZE 0 1 (Nat.zero_le _) (by decide)
  have isCount := @Dinode.logCount_le emptyIp.toDinode emptyDisk.block 0 BSIZE
  have isRoom : LOGSIZE - 1 = 29 := rfl
  simp only [isRange, isRoom]
  omega

end Mkfs

end Xv6
