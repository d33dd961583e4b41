import Xv6.Fs.Space

/-!
# changesize

`changesize` fills the bytes between the old size and the new one with zeros, for a file that becomes
shorter too. It does not compare the size with what a file can have, as `writei` does: `bmap` panics
for the first block past that.
-/

namespace Xv6

structure Resized (sb : Superblock) (device : Device) (ip : Inode) (size : ℕ) (after : Device)
    (ip' : Inode) : Prop where
  extended : Extends sb device ip.toDinode after ip'.toDinode
  bytes : ∀ i, ip'.byteAt after.block i =
    if min ip.size.toNat size ≤ i ∧ i < max ip.size.toNat size then 0 else ip.byteAt device.block i
  present : ∀ i, min ip.size.toNat size ≤ i → i < max ip.size.toNat size →
    ip'.addr after.block (some (i / BSIZE)) ≠ 0
  same : ∃ addrs size, ip' = { ip with addrs := addrs, size := size }
  size : ip'.size.toNat = size
  others : ∀ inum < sb.ninodes, inum ≠ ip.inum → after.dinode sb inum = device.dinode sb inum
  own : after.dinode sb ip.inum = ip'.toDinode

section

variable {sb : Superblock} {device after : Device} {ip ip' : Inode} {size : ℕ}

theorem resized_range : (ip.resized size).2 = min ip.size.toNat size ∧
    (ip.resized size).2 + (ip.resized size).1 = max ip.size.toNat size := by
  by_cases grows : ip.size.toNat < size
  · simp only [Inode.resized, if_pos grows]
    omega
  · simp only [Inode.resized, if_neg grows]
    omega

theorem changesize_eq (isFile : ip.type = T_FILE) :
    ip.changesize sb size device =
      (Inode.copyIn sb (fun _ => 0) (ip.resized size).1 (ip.resized size).1 0 (ip.resized size).2 ip
        device).map fun (ip, device) => (toInt size, Inode.resizeEnd sb size ip device) := by
  have accepted : ¬ip.type ≠ T_FILE := fun other => other isFile
  simp only [Inode.changesize, if_neg accepted, Option.map_eq_bind]
  rfl

theorem changesize_refused (notFile : ip.type ≠ T_FILE) :
    ip.changesize sb size device = some (-1, ip, device) := by
  simp only [Inode.changesize, if_pos notFile]

variable (valid : sb.Valid) (metadata : device.Metadata sb) (placed : ip.Placed sb device)
  (isFile : ip.type = T_FILE)

include valid metadata placed isFile

theorem changesize_resized {r : ℤ} (isInode : ip.inum < sb.ninodes) (fits : size ≤ MAXFILE * BSIZE)
    (got : ip.changesize sb size device = some (r, ip', after)) :
    r = size ∧ Resized sb device ip size after ip' := by
  rw [changesize_eq isFile] at got
  rcases Option.map_eq_some_iff.1 got with ⟨⟨ip₁, middle⟩, copied, result⟩
  rcases Prod.mk.inj result with ⟨rfl, isEnd⟩
  rcases Prod.mk.inj isEnd with ⟨rfl, rfl⟩
  refine ⟨toInt_small fits, ?_⟩
  have written := copyIn_written valid metadata placed (Nat.sub_le _ 0) copied
  rw [Nat.sub_zero] at written
  rcases @resized_range ip size with ⟨isStart, isStop⟩
  rcases written.same with ⟨addrs, isIp⟩
  have sameInum : ip₁.inum = ip.inum := by rw [isIp]
  have isInode₁ : ip₁.inum < sb.ninodes := by
    rw [sameInum]
    exact isInode
  have isNat : (UInt32.ofNat size).toNat = size := by
    simp only [MAXFILE, NDIRECT, NINDIRECT, BSIZE] at fits
    rw [UInt32.toNat_ofNat', Nat.mod_eq_of_lt (by omega)]
  constructor
  · exact written.extended.setDinode valid isInode₁ rfl
  · intro i
    rw [← isStart, ← isStop, ← written.bytes]
    exact byteAt_setDinode valid isInode₁ written.extended.placed
  · intro i start stop isZero
    rw [← isStart] at start
    rw [← isStop] at stop
    apply written.present i start stop
    rw [← addr_setDinode valid isInode₁ written.extended.placed]
    exact isZero
  · exact ⟨addrs, UInt32.ofNat size, by rw [isIp]⟩
  · exact isNat
  · intro inum inRange other
    rw [Inode.iupdate, Device.dinode_setDinode_of_ne (by rw [sameInum]; exact other)]
    exact written.inodes inum inRange
  · rw [← sameInum]
    exact Device.dinode_setDinode

/-- Within the bounds of a file, `changesize` returns if there are blocks for the bytes between the
two sizes. -/
theorem changesize_isSome (bounded : ip.size.toNat ≤ MAXFILE * BSIZE) (fits : size ≤ MAXFILE * BSIZE)
    (room : Room sb device ip.toDinode (ip.resized size).2 (ip.resized size).1) :
    ∃ ip' after, ip.changesize sb size device = some ((size : ℤ), ip', after) := by
  rw [changesize_eq isFile, toInt_small fits]
  rcases @resized_range ip size with ⟨isStart, isStop⟩
  cases copied : Inode.copyIn sb (fun _ => 0) (ip.resized size).1 (ip.resized size).1 0
      (ip.resized size).2 ip device with
  | some result => exact ⟨_, _, rfl⟩
  | none =>
      have exhausted := copyIn_exhausts valid metadata placed (Nat.sub_le _ 0) (by omega) copied
      exact absurd (exhausted.card_lt placed) (Nat.not_lt.2 room)

theorem changesize_panics (long : MAXFILE * BSIZE < size) (bounded : ip.size.toNat ≤ MAXFILE * BSIZE) :
    ip.changesize sb size device = none := by
  rw [changesize_eq isFile, Option.map_eq_none_iff]
  cases copied : Inode.copyIn sb (fun _ => 0) (ip.resized size).1 (ip.resized size).1 0
      (ip.resized size).2 ip device with
  | none => rfl
  | some result =>
      rcases @resized_range ip size with ⟨isStart, isStop⟩
      have written := copyIn_written valid metadata placed (Nat.sub_le _ 0) copied
      have past := lt_maxfile_of_addr (written.present (MAXFILE * BSIZE) (by omega) (by omega))
      rw [Nat.mul_div_cancel MAXFILE (by decide)] at past
      omega

end

end Xv6
