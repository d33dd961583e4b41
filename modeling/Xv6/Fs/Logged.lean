import Xv6.Fs.Resize
import Xv6.Log.Protocol

/-!
# What is passed to log_write

A loop over the contents of an inode passes to `log_write` the blocks of its bytes. For each block
that it allocates, it passes on the block of the bit map too, and the indirect block if the new
one is entered there. `writei` and `changesize` add the block of the inode.
-/

namespace Xv6

/-! ## How many blocks -/

namespace Dinode

/-- The places whose blocks are logged by a loop over some bytes: the blocks of the bytes, and the
indirect block if one of them is to be entered there. -/
def touched (dip : Dinode) (blocks : ℕ → BlockData) (off n : ℕ) : Finset (Option ℕ) :=
  (places off n).filter fun place =>
    place ≠ none ∨ ∃ entry ∈ places off n, isEntry entry ∧ dip.addr blocks entry = 0

/-- How many blocks the loop logs, where the bit map is one block. -/
def logCount (dip : Dinode) (blocks : ℕ → BlockData) (off n : ℕ) : ℕ :=
  (dip.touched blocks off n).card + if ∃ place ∈ places off n, dip.addr blocks place = 0 then 1 else 0

theorem logCount_le {dip : Dinode} {blocks : ℕ → BlockData} {off n : ℕ} :
    dip.logCount blocks off n ≤ (places off n).card + 1 := by
  have fewer : (dip.touched blocks off n).card ≤ (places off n).card := Finset.card_filter_le ..
  unfold logCount
  split <;> omega

end Dinode

section

variable {sb : Superblock} {device after : Device} {ip ip' : Inode} {n off size : ℕ} {src : ℕ → UInt8}
  {place : Option ℕ}

theorem card_logWrite_le {b : ℕ} {data : BlockData} :
    (device.logWrite b data).logged.toFinset.card ≤ device.logged.toFinset.card + 1 := by
  rw [Device.logWrite, List.toFinset_cons]
  exact Finset.card_insert_le ..

theorem Dinode.le_logCount {dip : Dinode} {blocks : ℕ → BlockData} {count : ℕ} :
    count ≤ dip.logCount blocks 0 (count * BSIZE) := by
  have all : (Finset.range count).image some ⊆ dip.touched blocks 0 (count * BSIZE) := by
    intro place isImage
    rcases Finset.mem_image.1 isImage with ⟨bn, below, rfl⟩
    have inside := Nat.mul_lt_mul_of_pos_right (Finset.mem_range.1 below) (by decide : 0 < BSIZE)
    exact Finset.mem_filter.2 ⟨some_mem_places.2 ⟨bn * BSIZE, Nat.zero_le _, by omega,
      Nat.mul_div_cancel bn (by decide)⟩, Or.inl (Option.some_ne_none bn)⟩
  have bound := Finset.card_le_card all
  rw [Finset.card_image_of_injective _ (Option.some_injective ℕ), Finset.card_range] at bound
  exact Nat.le_trans bound (Nat.le_add_right ..)

theorem none_mem_places {entry : Option ℕ} (isHere : entry ∈ places off n) (isEntry : isEntry entry) :
    none ∈ places off n := by
  rcases mem_places.1 isHere with ⟨i, start, stop, isPlace⟩
  rcases mem_placesOf.1 isPlace with rfl | ⟨rfl, _⟩
  · exact mem_places.2 ⟨i, start, stop, mem_placesOf.2 (Or.inr ⟨rfl, of_decide_eq_true isEntry⟩)⟩
  · contradiction

theorem exists_entry_of_none (isHere : none ∈ places off n) : ∃ entry ∈ places off n, isEntry entry := by
  rcases mem_places.1 isHere with ⟨i, start, stop, isPlace⟩
  rcases mem_placesOf.1 isPlace with impossible | ⟨_, isEntry⟩
  · contradiction
  · exact ⟨some (i / BSIZE), some_mem_places.2 ⟨i, start, stop, rfl⟩, decide_eq_true isEntry⟩

theorem Written.present_places (written : Written sb device ip off n src after ip')
    (isHere : place ∈ places off n) : ip'.addr after.block place ≠ 0 := by
  cases place with
  | some bn =>
      rcases some_mem_places.1 isHere with ⟨i, start, stop, rfl⟩
      exact written.present i start stop
  | none =>
      rcases exists_entry_of_none isHere with ⟨entry, isPlace, isEntry⟩
      cases entry with
      | none => contradiction
      | some bn =>
          rcases some_mem_places.1 isPlace with ⟨i, start, stop, rfl⟩
          exact ip'.indirect_ne_zero isEntry (written.present i start stop)

/-- What has been filled was free. -/
theorem Written.room (written : Written sb device ip off n src after ip') :
    Room sb device ip.toDinode off n := by
  apply Finset.card_le_card_of_injOn (ip'.addr after.block)
  · intro place isHole
    rcases Finset.mem_filter.1 isHole with ⟨isHere, hole⟩
    have present := written.present_places isHere
    exact Finset.mem_filter.2 ⟨Finset.mem_range.2 (written.extended.placed.used place present).2.1,
      written.extended.fresh place present hole⟩
  · intro place isHole other _ same
    have present := written.present_places (Finset.mem_filter.1 isHole).1
    exact written.extended.placed.distinct place other present same

variable (valid : sb.Valid) (metadata : device.Metadata sb) (placed : ip.Placed sb device)
  (oneBlock : sb.size ≤ BPB) (begun : device.logged = [])

include valid metadata placed oneBlock begun

theorem logged_copyIn (got : Inode.copyIn sb src n n 0 off ip device = some (ip', after)) :
    after.logged.toFinset = (ip.touched device.block off n).image (ip'.addr after.block) ∪
      if ∃ place ∈ places off n, ip.addr device.block place = 0 then {sb.bmapstart} else ∅ := by
  have written := copyIn_written valid metadata placed (Nat.sub_le n 0) got
  rw [Nat.sub_zero] at written
  have isMap : ∀ place, ip'.addr after.block place ≠ 0 →
      sb.bblock (ip'.addr after.block place) = sb.bmapstart := by
    intro place present
    have below := Nat.lt_of_lt_of_le (written.extended.placed.used place present).2.1 oneBlock
    rw [Superblock.bblock, Nat.div_eq_of_lt below, Nat.zero_add]
  ext c
  rw [List.mem_toFinset, written.logs c, begun, Finset.mem_union, Finset.mem_image]
  constructor
  · rintro (before | ⟨bn, isHere, isAddr⟩ | ⟨place, hole, isNew, isAddr | isBit | ⟨isEntry, isAddr⟩⟩)
    · contradiction
    · exact Or.inl ⟨some bn, Finset.mem_filter.2 ⟨isHere, Or.inl (Option.some_ne_none bn)⟩, isAddr⟩
    · have isHere := written.only place hole isNew
      refine Or.inl ⟨place, Finset.mem_filter.2 ⟨isHere, ?_⟩, isAddr⟩
      cases place with
      | some bn => exact Or.inl (Option.some_ne_none bn)
      | none =>
          -- without an indirect block, no entry has a block
          rcases exists_entry_of_none isHere with ⟨entry, isPlace, isEntry⟩
          refine Or.inr ⟨entry, isPlace, isEntry, ?_⟩
          by_contra present
          exact ip.indirect_ne_zero isEntry present hole
    · right
      rw [if_pos ⟨place, written.only place hole isNew, hole⟩, ← isBit, isMap place isNew]
      exact Finset.mem_singleton_self _
    · have isHere := written.only place hole isNew
      exact Or.inl ⟨none, Finset.mem_filter.2 ⟨none_mem_places isHere isEntry,
        Or.inr ⟨place, isHere, isEntry, hole⟩⟩, isAddr⟩
  · rintro (⟨place, isTouched, isAddr⟩ | isBit)
    · rcases Finset.mem_filter.1 isTouched with ⟨isHere, isData | ⟨entry, isPlace, isEntry, hole⟩⟩
      · rcases Option.ne_none_iff_exists'.1 isData with ⟨bn, rfl⟩
        exact Or.inr (Or.inl ⟨bn, isHere, isAddr⟩)
      · cases place with
        | some bn => exact Or.inr (Or.inl ⟨bn, isHere, isAddr⟩)
        | none => exact Or.inr (Or.inr ⟨entry, hole, written.present_places isPlace,
            Or.inr (Or.inr ⟨isEntry, isAddr⟩)⟩)
    · split at isBit
      · rename_i someHole
        rcases someHole with ⟨place, isHere, hole⟩
        have present := written.present_places isHere
        refine Or.inr (Or.inr ⟨place, hole, present, Or.inr (Or.inl ?_)⟩)
        rw [isMap place present]
        exact (Finset.mem_singleton.1 isBit).symm
      · contradiction

theorem card_logged_copyIn (got : Inode.copyIn sb src n n 0 off ip device = some (ip', after)) :
    after.logged.toFinset.card = ip.logCount device.block off n ∧
      ∀ inum < sb.ninodes, sb.iblock inum ∉ after.logged := by
  have written := copyIn_written valid metadata placed (Nat.sub_le n 0) got
  rw [Nat.sub_zero] at written
  have isSet := logged_copyIn valid metadata placed oneBlock begun got
  have isData : ∀ c ∈ (ip.touched device.block off n).image (ip'.addr after.block), sb.nmeta ≤ c := by
    intro c isImage
    rcases Finset.mem_image.1 isImage with ⟨place, isTouched, rfl⟩
    exact (written.extended.placed.used place (written.present_places (Finset.mem_filter.1 isTouched).1)).1
  have isMeta : sb.bmapstart < sb.nmeta := Nat.lt_succ_of_le (Nat.le_add_right ..)
  refine ⟨?_, ?_⟩
  · rw [isSet, Finset.card_union_of_disjoint, Finset.card_image_of_injOn]
    · unfold Dinode.logCount
      split <;> rfl
    · intro place isTouched other _ same
      have present := written.present_places (Finset.mem_filter.1 isTouched).1
      exact written.extended.placed.distinct place other present same
    · split
      · rw [Finset.disjoint_singleton_right]
        intro isImage
        have above := isData _ isImage
        omega
      · exact Finset.disjoint_empty_right _
  · intro inum isInode isLogged
    have before := @Device.iblock_lt_bblock sb 0 inum valid isInode
    have isFirst : sb.bblock 0 = sb.bmapstart := by rw [Superblock.bblock, Nat.zero_div, Nat.zero_add]
    rw [← List.mem_toFinset, isSet, Finset.mem_union] at isLogged
    rcases isLogged with isImage | isBit
    · have above := isData _ isImage
      omega
    · split at isBit
      · have same := Finset.mem_singleton.1 isBit
        omega
      · contradiction

/-- A resize logs one block more, that of the inode, as the last one. -/
theorem card_logged_changesize {r : ℤ} (isInode : ip.inum < sb.ninodes) (isFile : ip.type = T_FILE)
    (got : ip.changesize sb size device = some (r, ip', after)) :
    after.logged.tail.toFinset.card =
        ip.logCount device.block (ip.resized size).2 (ip.resized size).1 ∧
      after.logged.toFinset.card =
        ip.logCount device.block (ip.resized size).2 (ip.resized size).1 + 1 := by
  rw [changesize_eq isFile] at got
  rcases Option.map_eq_some_iff.1 got with ⟨⟨ip₁, middle⟩, copied, result⟩
  rcases card_logged_copyIn valid metadata placed oneBlock begun copied with ⟨isCount, noInode⟩
  rcases (copyIn_written valid metadata placed (Nat.sub_le _ 0) copied).same with ⟨addrs, rfl⟩
  rcases Prod.mk.inj result with ⟨_, isEnd⟩
  rcases Prod.mk.inj isEnd with ⟨_, rfl⟩
  have isNew : sb.iblock ip.inum ∉ middle.logged.toFinset := by
    rw [List.mem_toFinset]
    exact noInode _ isInode
  refine ⟨isCount, ?_⟩
  rw [← isCount, ← Finset.card_insert_of_notMem isNew, ← List.toFinset_cons]
  rfl

end

/-! ## Room in the log -/

/-- Some blocks passed to `log_write`, the last one of the list first. -/
def logCalls (data : ℕ → Block) (log : Log) : List ℕ → Except String Log
  | [] => .ok log
  | b :: earlier => (logCalls data log earlier).bind fun log => logWrite log (BitVec.ofNat 32 b) (data b)

section

variable {log middle after : Log} {data : ℕ → Block} {blocks : List ℕ}

theorem logWrite_ok_iff {b : BlockNo} {block : Block} (isSize : log.size = LOGSIZE)
    (inside : 1 ≤ log.outstanding) : logWrite log b block = .ok after ↔
      log.lh.n < LOGSIZE - 1 ∧ logWriteRecord log b block = after := by
  unfold logWrite logWriteCheck
  by_cases full : log.lh.n ≥ LOGSIZE ∨ log.lh.n ≥ log.size - 1
  · rw [if_pos full]
    refine ⟨?_, ?_⟩
    · intro fails
      contradiction
    · rintro ⟨room, _⟩
      omega
  · rw [if_neg full, if_neg (by omega)]
    have room : log.lh.n < LOGSIZE - 1 := by omega
    simp only [room, true_and]
    exact ⟨Except.ok.inj, congrArg Except.ok⟩

theorem card_tail_le : blocks.tail.toFinset.card ≤ blocks.toFinset.card :=
  Finset.card_le_card fun _ isHere => List.mem_toFinset.2 (List.mem_of_mem_tail (List.mem_toFinset.1 isHere))

theorem logCalls_blocks (isSize : log.size = LOGSIZE) (inside : 1 ≤ log.outstanding)
    (isEmpty : log.lh.n = 0) (numbers : ∀ b ∈ blocks, b < 2 ^ 32)
    (returned : logCalls data log blocks = .ok after) :
    after.size = LOGSIZE ∧ 1 ≤ after.outstanding ∧ after.lh.n = blocks.toFinset.card ∧
      ∀ b < 2 ^ 32, BitVec.ofNat 32 b ∈ after.lh.blocks ↔ b ∈ blocks := by
  induction blocks generalizing after with
  | nil =>
      cases returned
      refine ⟨isSize, inside, isEmpty, ?_⟩
      intro b _
      simp [LogHeader.blocks, isEmpty]
  | cons b blocks ih =>
      cases earlier : logCalls data log blocks with
      | error message =>
          rw [logCalls, earlier] at returned
          contradiction
      | ok middle =>
          rcases ih (fun c isHere => numbers c (List.mem_cons_of_mem _ isHere)) earlier with
            ⟨sameSize, stillInside, isCount, are⟩
          rw [logCalls, earlier] at returned
          rcases (logWrite_ok_iff sameSize stillInside).1 returned with ⟨_, rfl⟩
          have isNumber := numbers b List.mem_cons_self
          refine ⟨sameSize, stillInside, ?_, ?_⟩
          · rw [n_logWriteRecord, isCount, List.toFinset_cons]
            by_cases isHere : b ∈ blocks
            · rw [if_pos ((are b isNumber).2 isHere),
                Finset.insert_eq_of_mem (List.mem_toFinset.2 isHere)]
            · rw [if_neg (mt (are b isNumber).1 isHere),
                Finset.card_insert_of_notMem (mt List.mem_toFinset.1 isHere)]
              rfl
          · intro c isNumber'
            rw [mem_logWriteRecord (by omega), are c isNumber', List.mem_cons]
            apply or_congr_left
            rw [← BitVec.toNat_inj, BitVec.toNat_ofNat, BitVec.toNat_ofNat, Nat.mod_eq_of_lt isNumber,
              Nat.mod_eq_of_lt isNumber']

/-- No call panics, in an operation that begins with an empty log, exactly if the log has room. -/
theorem logCalls_iff {device : Device} (isSize : log.size = LOGSIZE) (inside : 1 ≤ log.outstanding)
    (isEmpty : log.lh.n = 0) (numbers : ∀ b ∈ device.logged, b < 2 ^ 32) :
    (∃ after, logCalls data log device.logged = .ok after) ↔ device.LogRoom := by
  unfold Device.LogRoom
  generalize device.logged = blocks at numbers ⊢
  induction blocks with
  | nil => exact ⟨fun _ => by decide, fun _ => ⟨log, rfl⟩⟩
  | cons b blocks ih =>
      have are := fun c isHere => numbers c (List.mem_cons_of_mem b isHere)
      rw [List.tail_cons]
      cases earlier : logCalls data log blocks with
      | error message =>
          have room := ih are
          rw [earlier] at room
          rw [logCalls, earlier]
          have full : ¬blocks.tail.toFinset.card < LOGSIZE - 1 := by
            intro fits
            rcases room.2 fits with ⟨_, impossible⟩
            contradiction
          refine ⟨?_, ?_⟩
          · rintro ⟨_, impossible⟩
            contradiction
          · intro fits
            exact absurd (Nat.lt_of_le_of_lt card_tail_le fits) full
      | ok middle =>
          rcases logCalls_blocks isSize inside isEmpty are earlier with ⟨sameSize, stillInside, isCount, _⟩
          rw [logCalls, earlier]
          simp only [Except.bind, logWrite_ok_iff sameSize stillInside, isCount, exists_and_left, exists_eq',
            and_true]
          omega

end

end Xv6
