import Xv6.Fs.Transfer

/-!
# Free blocks

How many free blocks are enough: the bytes that a loop over the contents handles stand at some places
of the inode, and it allocates a block for each of these places that has none. It runs out of
blocks only if there are fewer free blocks than such places.
-/

namespace Xv6

def Device.free (sb : Superblock) (device : Device) : Finset ℕ :=
  (Finset.range sb.size).filter fun b => device.inUse sb b = false

/-- As many blocks are free as are missing at the places that some bytes need. -/
def Room (sb : Superblock) (device : Device) (dip : Dinode) (off n : ℕ) : Prop :=
  ((places off n).filter fun place => dip.addr device.block place = 0).card ≤ (device.free sb).card

/-- The disk has run out of blocks while some places were filled, before all of them were. -/
def ExhaustedIn (sb : Superblock) (device : Device) (dip : Dinode) (places : Finset (Option ℕ)) : Prop :=
  ∃ after dip', Extends sb device dip after dip' ∧ after.balloc sb = none ∧
    (∀ place, dip.addr device.block place = 0 → dip'.addr after.block place ≠ 0 → place ∈ places) ∧
    ∃ place ∈ places, dip'.addr after.block place = 0

theorem Room.mono {sb : Superblock} {device : Device} {dip : Dinode} {off m n : ℕ}
    (room : Room sb device dip off n) (less : m ≤ n) : Room sb device dip off m := by
  apply Nat.le_trans _ room
  apply Finset.card_le_card
  apply Finset.filter_subset_filter
  exact places_mono (Nat.le_refl _) (by omega)

theorem card_places_le {off n first count : ℕ} (start : first * BSIZE ≤ off)
    (stop : off + n ≤ (first + count) * BSIZE) : (places off n).card ≤ count + 1 := by
  have bounded : places off n ⊆ insert none ((Finset.Ico first (first + count)).image some) := by
    intro place isPlace
    rcases mem_places.1 isPlace with ⟨i, low, high, isHere⟩
    have inside : i / BSIZE ∈ Finset.Ico first (first + count) := by
      refine Finset.mem_Ico.2 ⟨?_, ?_⟩
      · exact (Nat.le_div_iff_mul_le (by decide)).2 (Nat.le_trans start low)
      · exact (Nat.div_lt_iff_lt_mul (by decide)).2 (Nat.lt_of_lt_of_le high stop)
    rcases mem_placesOf.1 isHere with rfl | ⟨rfl, _⟩
    · exact Finset.mem_insert_of_mem (Finset.mem_image_of_mem some inside)
    · exact Finset.mem_insert_self ..
  calc (places off n).card
      ≤ (insert none ((Finset.Ico first (first + count)).image some)).card := Finset.card_le_card bounded
    _ ≤ ((Finset.Ico first (first + count)).image some).card + 1 := Finset.card_insert_le ..
    _ ≤ (Finset.Ico first (first + count)).card + 1 := Nat.add_le_add_right Finset.card_image_le 1
    _ = count + 1 := by rw [Nat.card_Ico, Nat.add_sub_cancel_left]

theorem room_of_card {sb : Superblock} {device : Device} {dip : Dinode} {off n : ℕ}
    (fits : off + n ≤ MAXFILE * BSIZE) (enough : MAXFILE + 1 ≤ (device.free sb).card) :
    Room sb device dip off n := by
  have inside : off + n ≤ (0 + MAXFILE) * BSIZE := by
    rw [Nat.zero_add]
    exact fits
  have start : 0 * BSIZE ≤ off := by
    rw [Nat.zero_mul]
    exact Nat.zero_le _
  calc ((places off n).filter fun place => dip.addr device.block place = 0).card
      ≤ (places off n).card := Finset.card_filter_le ..
    _ ≤ MAXFILE + 1 := card_places_le start inside
    _ ≤ (device.free sb).card := enough

section Exhausted

variable {sb : Superblock} {device middle after : Device} {dip dip₁ : Dinode} {ip ip' : Inode}
  {bn off n tot fuel i : ℕ} {src : ℕ → UInt8} {these more : Finset (Option ℕ)}

theorem ExhaustedIn.mono (exhausted : ExhaustedIn sb device dip these) (subset : these ⊆ more) :
    ExhaustedIn sb device dip more := by
  rcases exhausted with ⟨after, dip', extended, full, only, place, isPlace, hole⟩
  exact ⟨after, dip', extended, full, fun place isHole isNew => subset (only place isHole isNew), place,
    subset isPlace, hole⟩

theorem ExhaustedIn.exhausted (exhausted : ExhaustedIn sb device dip these) :
    Exhausted sb device dip := by
  rcases exhausted with ⟨after, dip', extended, full, _⟩
  exact ⟨after, dip', extended, full⟩

theorem Extends.exhaustedIn (extended : Extends sb device dip middle dip₁)
    (only : ∀ place, dip.addr device.block place = 0 → dip₁.addr middle.block place ≠ 0 → place ∈ these)
    (exhausted : ExhaustedIn sb middle dip₁ these) : ExhaustedIn sb device dip these := by
  rcases exhausted with ⟨after, dip', later, full, onlyLater, remaining⟩
  refine ⟨after, dip', extended.trans later, full, ?_, remaining⟩
  intro place isHole isNew
  by_cases stillHole : dip₁.addr middle.block place = 0
  · exact onlyLater place stillHole isNew
  · exact only place isHole stillHole

theorem ExhaustedIn.card_lt (placed : dip.Placed sb device) (exhausted : ExhaustedIn sb device dip these) :
    (device.free sb).card < (these.filter fun place => dip.addr device.block place = 0).card := by
  rcases exhausted with ⟨after, dip', extended, full, only, last, isPlace, hole⟩
  have lastHole : dip.addr device.block last = 0 := by
    by_contra present
    rw [extended.grows last present] at hole
    exact present hole
  have taken : device.free sb ⊆ ((these.filter fun place => dip.addr device.block place = 0).erase last).image
      (dip'.addr after.block) := by
    intro b isFree
    rcases Finset.mem_filter.1 isFree with ⟨inRange, unused⟩
    have below := Finset.mem_range.1 inRange
    have isUsed : after.inUse sb b = true := by
      by_contra stillFree
      rcases Device.balloc_isSome below (Bool.eq_false_of_not_eq_true stillFree) with ⟨c, left, got⟩
      rw [full] at got
      contradiction
    rcases (extended.bits b below).1 isUsed with before | ⟨nonzero, place, isAddr⟩
    · rw [unused] at before
      contradiction
    · have isHole : dip.addr device.block place = 0 := by
        by_contra present
        rw [extended.grows place present] at isAddr
        rw [← isAddr, (placed.used place present).2.2] at unused
        contradiction
      have isNew : dip'.addr after.block place ≠ 0 := by
        rw [isAddr]
        exact nonzero
      refine Finset.mem_image.2 ⟨place, Finset.mem_erase.2 ⟨?_, ?_⟩, isAddr⟩
      · rintro rfl
        exact isNew hole
      · exact Finset.mem_filter.2 ⟨only place isHole isNew, isHole⟩
  have isMember : last ∈ these.filter fun place => dip.addr device.block place = 0 :=
    Finset.mem_filter.2 ⟨isPlace, lastHole⟩
  calc (device.free sb).card
      ≤ (((these.filter fun place => dip.addr device.block place = 0).erase last).image
          (dip'.addr after.block)).card := Finset.card_le_card taken
    _ ≤ ((these.filter fun place => dip.addr device.block place = 0).erase last).card :=
        Finset.card_image_le
    _ < (these.filter fun place => dip.addr device.block place = 0).card :=
        Finset.card_erase_lt_of_mem isMember

variable (valid : sb.Valid) (metadata : device.Metadata sb) (placed : ip.Placed sb device)

include valid metadata placed

theorem bmap_exhausts (inside : i / BSIZE < MAXFILE) (panics : ip.bmap sb (i / BSIZE) device = none) :
    ExhaustedIn sb device ip.toDinode (placesOf i) := by
  have isPlace : some (i / BSIZE) ∈ placesOf i := mem_placesOf.2 (Or.inl rfl)
  unfold Inode.bmap at panics
  split at panics
  · rename_i direct
    refine ⟨device, ip.toDinode, .refl placed, bmapAddr_none panics, ?_, some (i / BSIZE), isPlace, ?_⟩
    · exact fun place hole present => absurd hole present
    · rw [Dinode.addr_direct direct]
      unfold Inode.bmapAddr at panics
      split at panics
      · rename_i isZero
        rw [isZero]
        rfl
      · contradiction
  · rename_i notDirect
    have isEntry := Nat.not_lt.1 notDirect
    have isIndirect : none ∈ placesOf i := mem_placesOf.2 (Or.inr ⟨rfl, isEntry⟩)
    have below : i / BSIZE - NDIRECT < NINDIRECT := by
      simp only [MAXFILE] at inside
      omega
    rw [if_pos below] at panics
    cases first : ip.bmapAddr sb (Fin.last NDIRECT) device with
    | none =>
        refine ⟨device, ip.toDinode, .refl placed, bmapAddr_none first, ?_, none, isIndirect, ?_⟩
        · exact fun place hole present => absurd hole present
        · unfold Inode.bmapAddr at first
          split at first
          · rename_i isZero
            rw [Dinode.addr, Dinode.indirect, isZero]
            rfl
          · contradiction
    | some result =>
        rcases result with ⟨addr, ip₁, middle⟩
        rcases bmapAddr_last valid metadata placed first with ⟨filled, isAddr, present, sameData⟩
        rw [first] at panics
        have entry : Inode.bmapEntry sb addr (i / BSIZE - NDIRECT) middle = none := by
          cases isEntry : Inode.bmapEntry sb addr (i / BSIZE - NDIRECT) middle with
          | none => rfl
          | some result =>
              simp only [bind, Option.bind, isEntry] at panics
              contradiction
        unfold Inode.bmapEntry at entry
        simp only at entry
        split at entry
        · rename_i isZero
          refine ⟨middle, ip₁.toDinode, filled.extended, Option.map_eq_none_iff.1 entry, ?_,
            some (i / BSIZE), isPlace, ?_⟩
          · intro place hole isNew
            cases place with
            | none => exact isIndirect
            | some bn =>
                rw [sameData bn] at isNew
                exact absurd hole isNew
          · rw [← isAddr] at present isZero
            rw [Dinode.addr_entry isEntry inside present, isZero]
            rfl
        · contradiction

omit valid metadata placed in
theorem inside_of_fits (unfinished : tot < n) (fits : off + (n - tot) ≤ MAXFILE * BSIZE) :
    off / BSIZE < MAXFILE :=
  Nat.div_lt_of_lt_mul (by rw [Nat.mul_comm]; omega)

theorem copyIn_exhausts (enough : n - tot ≤ fuel) (fits : off + (n - tot) ≤ MAXFILE * BSIZE)
    (panics : Inode.copyIn sb src n fuel tot off ip device = none) :
    ExhaustedIn sb device ip.toDinode (places off (n - tot)) := by
  induction fuel generalizing tot off ip device with
  | zero => contradiction
  | succ fuel ih =>
      rw [Inode.copyIn] at panics
      by_cases unfinished : tot < n
      · rw [if_pos unfinished] at panics
        have bound := @chunk_le off n tot
        have positive := @chunk_pos off n tot unfinished
        have inside := inside_of_fits unfinished fits
        have here : placesOf off ⊆ places off (n - tot) := by
          intro place isHere
          exact mem_places.2 ⟨off, Nat.le_refl _, by omega, isHere⟩
        cases first : Inode.copyChunk sb src n tot off ip device with
        | none =>
            cases mapped : ip.bmap sb (off / BSIZE) device with
            | none => exact (bmap_exhausts valid metadata placed inside mapped).mono here
            | some result =>
                simp only [Inode.copyChunk, mapped, bind, Option.bind] at first
                contradiction
        | some result =>
            rcases result with ⟨ip₁, middle⟩
            have written := copyChunk_written valid metadata placed unfinished first
            rw [first] at panics
            apply written.extended.exhaustedIn
            · exact fun place hole isNew =>
                places_mono (Nat.le_refl _) (by omega) (written.only place hole isNew)
            · apply (ih (written.extended.metadata valid metadata) written.extended.placed (by omega)
                (by omega) panics).mono
              apply places_mono
              · omega
              · omega
      · rw [if_neg unfinished] at panics
        contradiction

theorem copyOut_none (enough : n - tot ≤ fuel) (fits : off + (n - tot) ≤ MAXFILE * BSIZE)
    (panics : Inode.copyOut sb n fuel tot off ip device = none) :
    Exhausted sb device ip.toDinode := by
  induction fuel generalizing tot off ip device with
  | zero => contradiction
  | succ fuel ih =>
      rw [Inode.copyOut] at panics
      by_cases unfinished : tot < n
      · rw [if_pos unfinished] at panics
        have bound := @chunk_le off n tot
        have positive := @chunk_pos off n tot unfinished
        have inside := inside_of_fits unfinished fits
        cases mapped : ip.bmap sb (off / BSIZE) device with
        | none => exact (bmap_exhausts valid metadata placed inside mapped).exhausted
        | some result =>
            rcases result with ⟨b, ip₁, middle⟩
            rcases bmap_filled valid metadata placed mapped with ⟨filled, _, _⟩
            have loop : Inode.copyOut sb n fuel (tot + Inode.chunk n tot off)
                (off + Inode.chunk n tot off) ip₁ middle = none := by
              cases rest : Inode.copyOut sb n fuel (tot + Inode.chunk n tot off)
                (off + Inode.chunk n tot off) ip₁ middle with
              | none => rfl
              | some result =>
                  simp only [mapped, bind, Option.bind, rest] at panics
                  contradiction
            apply filled.extended.exhausted
            exact ih (filled.extended.metadata valid metadata) filled.extended.placed (by omega)
              (by omega) loop
      · rw [if_neg unfinished] at panics
        contradiction

variable {devsw : Devsw} (notDev : ip.type ≠ T_DEV) (inside : off ≤ ip.size.toNat)
  (fits : off + n ≤ MAXFILE * BSIZE)

include notDev inside fits

theorem writei_exhausts (panics : ip.writei sb devsw src off n device = none) :
    ExhaustedIn sb device ip.toDinode (places off n) := by
  rw [writei_eq notDev inside fits, Option.map_eq_none_iff] at panics
  have exhausted := copyIn_exhausts valid metadata placed (Nat.sub_le n 0) (by omega) panics
  rw [Nat.sub_zero] at exhausted
  exact exhausted

theorem writei_isSome (room : Room sb device ip.toDinode off n) :
    ∃ ip' after, ip.writei sb devsw src off n device = some ((n : ℤ), ip', after) := by
  cases called : ip.writei sb devsw src off n device with
  | none =>
      have exhausted := writei_exhausts valid metadata placed notDev inside fits called
      exact absurd (exhausted.card_lt placed) (Nat.not_lt.2 room)
  | some result =>
      rcases result with ⟨r, ip', after⟩
      rw [writei_eq notDev inside fits] at called
      rcases Option.map_eq_some_iff.1 called with ⟨copied, _, isResult⟩
      have isCount : toInt n = r := (Prod.mk.inj isResult).1
      rw [← isCount, toInt_small (by omega)]
      exact ⟨ip', after, rfl⟩

end Exhausted

end Xv6
