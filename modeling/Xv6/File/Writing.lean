import Xv6.File.Transactions

/-!
# filewrite

The loop of `filewrite` appends its pieces one after the other at the offset of the file. What has
been written when a piece is refused stays written.
-/

namespace Xv6

def Inode.contents (ip : Inode) (device : Device) : List UInt8 :=
  (List.range ip.size.toNat).map (ip.byteAt device.block)

theorem Inode.contents_congr {ip ip' : Inode} {device device' : Device}
    (sameSize : ip'.size.toNat = ip.size.toNat)
    (same : ∀ i, ip'.byteAt device'.block i = ip.byteAt device.block i) :
    ip'.contents device' = ip.contents device := by
  rw [contents, contents, sameSize]
  apply List.map_congr_left
  intro i _
  exact same i

theorem FsState.put_self {state : FsState} {i : InodeId} :
    state.put i (state.icache i).toDinode (state.deviceOf i) = state := by
  have sameCache : Function.update state.icache i (state.icache i) = state.icache :=
    Function.update_eq_self ..
  have sameDevice : Function.update state.device (state.icache i).dev (state.deviceOf i) = state.device :=
    Function.update_eq_self ..
  unfold put store
  rw [sameDevice]
  exact congrArg (FsState.mk · state.device) sameCache

namespace InodeFile

/-- Some bytes have been written through a file, from its offset on. -/
structure Progress (sb : Superblock) (f : InodeFile) (state : FsState) (data : List UInt8)
    (f' : InodeFile) (state' : FsState) : Prop where
  usable : state'.Usable sb f.ip
  type : (state'.icache f.ip).type = (state.icache f.ip).type
  file : f' = { f with off := UInt32.ofNat (f.off.toNat + data.length) }
  fits : f.off.toNat + data.length ≤ MAXFILE * BSIZE
  extended : Extends sb (state.deviceOf f.ip) (state.icache f.ip).toDinode (state'.deviceOf f.ip)
    (state'.icache f.ip).toDinode
  only : ∀ place, (state.icache f.ip).addr (state.deviceOf f.ip).block place = 0 →
    (state'.icache f.ip).addr (state'.deviceOf f.ip).block place ≠ 0 →
    place ∈ places f.off.toNat data.length
  bytes : ∀ i, (state'.icache f.ip).byteAt (state'.deviceOf f.ip).block i =
    if f.off.toNat ≤ i ∧ i < f.off.toNat + data.length then data.getD (i - f.off.toNat) 0
    else (state.icache f.ip).byteAt (state.deviceOf f.ip).block i
  size : (state'.icache f.ip).size.toNat =
    max (state.icache f.ip).size.toNat (f.off.toNat + data.length)

section

variable {sb : Superblock} {devsw : Devsw} {p : Slot} {src : ℕ → UInt8} {n n1 total : ℕ}
  {f f' f'' : InodeFile} {state state' state'' : FsState} {data : List UInt8}

theorem Progress.start (usable : state.Usable sb f.ip) (inside : f.off.toNat ≤ (state.icache f.ip).size.toNat)
    (bounded : (state.icache f.ip).size.toNat ≤ MAXFILE * BSIZE) : Progress sb f state [] f state where
  usable := usable
  type := rfl
  file := by simp
  fits := Nat.le_trans inside bounded
  extended := .refl usable.placed
  only _ hole isNew := absurd hole isNew
  bytes i := by rw [if_neg (by simp only [List.length_nil]; omega)]
  size := (Nat.max_eq_left inside).symm

section

variable (progress : Progress sb f state data f' state')

include progress

theorem Progress.off : f'.ip = f.ip ∧ f'.off.toNat = f.off.toNat + data.length := by
  have fits := progress.fits
  simp only [MAXFILE, NDIRECT, NINDIRECT, BSIZE] at fits
  rw [progress.file]
  refine ⟨rfl, ?_⟩
  rw [UInt32.toNat_ofNat', Nat.mod_eq_of_lt (by omega)]

theorem Progress.inside : f'.off.toNat ≤ (state'.icache f.ip).size.toNat := by
  rw [progress.off.2, progress.size]
  exact Nat.le_max_right ..

theorem Progress.beginOp : Progress sb f state data f' state'.beginOp where
  usable := progress.usable.beginOp
  type := progress.type
  file := progress.file
  fits := progress.fits
  extended := progress.extended.trans
    (.of_same progress.extended.placed (fun _ => rfl) (fun _ _ => rfl) fun _ _ _ => rfl)
  only := progress.only
  bytes := progress.bytes
  size := progress.size

end

theorem advance_ofNat : ({ f with off := UInt32.ofNat n } : InodeFile).advance n1 =
    { f with off := UInt32.ofNat (n + n1) } := by
  unfold advance
  split
  · rw [UInt32.ofNat_add]
    rfl
  · have isZero : n1 = 0 := by omega
    rw [isZero]
    rfl

variable (valid : sb.Valid) (notDev : (state.icache f.ip).type ≠ T_DEV)
  (progress : Progress sb f state data f' state')
  (fits : f.off.toNat + data.length + n1 ≤ MAXFILE * BSIZE)

include valid notDev progress fits

theorem Progress.writei {r : ℤ} {ip' : Inode} {device : Device}
    (called : ((state'.icache f.ip).lockedBy p).writei sb devsw src f'.off.toNat n1
      (state'.deviceOf f.ip) = some (r, ip', device)) :
    r = n1 ∧ Progress sb f state (data ++ (List.range n1).map src) (f'.advance r)
      (state'.put f.ip ip'.toDinode device) := by
  rcases progress.off with ⟨_, isOff⟩
  have usable := progress.usable
  have notDev' : ((state'.icache f.ip).lockedBy p).type ≠ T_DEV := by
    intro isDev
    exact notDev (progress.type.symm.trans isDev)
  have inside : f.off.toNat + data.length ≤ ((state'.icache f.ip).lockedBy p).size.toNat := by
    rw [← isOff]
    exact progress.inside
  rw [isOff] at called
  rcases writei_wrote valid usable.metadata usable.lockedPlaced usable.isInode notDev' inside fits called
    with ⟨rfl, wrote⟩
  refine ⟨rfl, ?_⟩
  have isLength : (data ++ (List.range n1).map src).length = data.length + n1 := by simp
  constructor
  · exact usable.put valid wrote.extended
  · rw [FsState.icache_put]
    rcases wrote.same with ⟨addrs, size, rfl⟩
    exact progress.type
  · rw [progress.file, advance_ofNat, isLength, Nat.add_assoc]
  · rw [isLength, ← Nat.add_assoc]
    exact fits
  · rw [FsState.icache_put, FsState.deviceOf_put]
    exact progress.extended.trans wrote.extended
  · rw [FsState.icache_put, FsState.deviceOf_put, isLength, places_add]
    intro place hole isNew
    by_cases stillHole : (state'.icache f.ip).addr (state'.deviceOf f.ip).block place = 0
    · exact Finset.mem_union_right _ (wrote.only place stillHole isNew)
    · exact Finset.mem_union_left _ (progress.only place hole stillHole)
  · rw [FsState.icache_put, FsState.deviceOf_put, isLength]
    intro i
    rw [wrote.bytes]
    have earlier : ((state'.icache f.ip).lockedBy p).byteAt (state'.deviceOf f.ip).block i = _ :=
      progress.bytes i
    by_cases isNew : f.off.toNat + data.length ≤ i ∧ i < f.off.toNat + data.length + n1
    · have isIndex : i - f.off.toNat - data.length = i - (f.off.toNat + data.length) := by omega
      rw [if_pos isNew, if_pos (by omega), List.getD_append_right _ _ _ _ (by omega), isIndex,
        List.getD_eq_getElem _ _ (by rw [List.length_map, List.length_range]; omega), List.getElem_map,
        List.getElem_range]
    · rw [if_neg isNew, earlier]
      by_cases isOld : f.off.toNat ≤ i ∧ i < f.off.toNat + data.length
      · rw [if_pos isOld, if_pos (by omega), List.getD_append _ _ _ _ (by omega)]
      · rw [if_neg isOld, if_neg (by omega)]
  · have isSize := wrote.size
    have earlier : ((state'.icache f.ip).lockedBy p).size.toNat = _ := progress.size
    rw [earlier] at isSize
    rw [FsState.icache_put, isLength, isSize]
    split <;> omega

theorem Progress.append {r : ℤ} (small : n1 ≤ writeMax)
    (got : f'.writeChunk sb devsw p src n1 state' = .ok (r, f'', state'')) :
    r = n1 ∧ Progress sb f state (data ++ (List.range n1).map src) f'' state'' := by
  have sameIp := progress.off.1
  have usable := progress.usable
  rw [← sameIp] at usable
  rcases of_writeChunk valid usable small got with ⟨rfl, ip', device, called, rfl⟩
  rw [sameIp] at called ⊢
  exact progress.beginOp.writei valid notDev fits called

theorem Progress.writeChunk (small : n1 ≤ writeMax)
    (placed : (state.icache f.ip).Placed sb (state.deviceOf f.ip)) (bound : data.length + n1 ≤ total)
    (room : Room sb (state.deviceOf f.ip) (state.icache f.ip).toDinode f.off.toNat total) :
    ∃ f'' state'', f'.writeChunk sb devsw p src n1 state' = .ok ((n1 : ℤ), f'', state'') ∧
      Progress sb f state (data ++ (List.range n1).map src) f'' state'' := by
  rcases progress.off with ⟨sameIp, isOff⟩
  have begun := progress.usable.beginOp
  have notDev' : ((state'.beginOp.icache f.ip).lockedBy p).type ≠ T_DEV := by
    intro isDev
    exact notDev (progress.type.symm.trans isDev)
  have inside : f.off.toNat + data.length ≤ ((state'.beginOp.icache f.ip).lockedBy p).size.toNat := by
    rw [← isOff]
    exact progress.inside
  cases called : ((state'.beginOp.icache f.ip).lockedBy p).writei sb devsw src
      (f.off.toNat + data.length) n1 (state'.beginOp.deviceOf f.ip) with
  | none =>
      -- then blocks have run out since the beginning
      have exhausted := writei_exhausts valid begun.metadata begun.lockedPlaced notDev' inside fits called
      have fromStart : ExhaustedIn sb (state.deviceOf f.ip) (state.icache f.ip).toDinode
          (places f.off.toNat total) := by
        apply progress.beginOp.extended.exhaustedIn
        · intro place hole isNew
          exact places_mono (Nat.le_refl _) (by omega) (progress.only place hole isNew)
        · apply exhausted.mono
          apply places_mono
          · omega
          · omega
      exact absurd (fromStart.card_lt placed) (Nat.not_lt.2 room)
  | some result =>
      rcases result with ⟨r, ip', device⟩
      have usable := progress.usable
      rw [← sameIp] at usable called
      rw [← isOff] at called
      have wrote := writeChunk_ok valid usable small called
      rcases progress.append valid notDev fits small wrote with ⟨isCount, longer⟩
      rw [isCount] at wrote
      exact ⟨_, _, wrote, by rw [isCount] at longer; exact longer⟩

omit notDev fits in
theorem Progress.refused (small : n1 ≤ writeMax) (notDev : (state.icache f.ip).type ≠ T_DEV)
    (long : MAXFILE * BSIZE < f.off.toNat + data.length + n1) :
    ∃ state'', f'.writeChunk sb devsw p src n1 state' = .ok (-1, f', state'') ∧
      Progress sb f state data f' state'' := by
  rcases progress.off with ⟨sameIp, isOff⟩
  have usable := progress.usable
  rw [← sameIp] at usable
  have notDev' : ((state'.icache f'.ip).lockedBy p).type ≠ T_DEV := by
    rw [sameIp]
    intro isDev
    exact notDev (progress.type.symm.trans isDev)
  have called : ((state'.icache f'.ip).lockedBy p).writei sb devsw src f'.off.toNat n1
      (state'.beginOp.deviceOf f'.ip) = some (-1, _, _) :=
    writei_refused notDev' (isUint_of_small small) (Or.inr (by omega))
  have wrote := writeChunk_ok valid usable small called
  have unchanged : state'.beginOp.put f'.ip ((state'.icache f'.ip).lockedBy p).toDinode
      (state'.beginOp.deviceOf f'.ip) = state'.beginOp := FsState.put_self
  rw [unchanged] at wrote
  exact ⟨state'.beginOp, wrote, progress.beginOp⟩

end

/-! ## The loop -/

/-- How many bytes `filewrite` writes: all of them, or as many pieces as the file can take. -/
def fitting (off n : ℕ) : ℕ :=
  if off + n ≤ MAXFILE * BSIZE then n else (MAXFILE * BSIZE - off) / writeMax * writeMax

section

variable {sb : Superblock} {devsw : Devsw} {p : Slot} {src : ℕ → UInt8} {n fuel i : ℕ}
  {f f' : InodeFile} {state state' : FsState}

theorem map_range_add {m : ℕ} : (List.range i).map src ++ (List.range m).map (fun j => src (i + j)) =
    (List.range (i + m)).map src := by
  rw [List.range_add, List.map_append, List.map_map]
  rfl

theorem writeLoop_more {f'' : InodeFile} {state'' : FsState} (unfinished : i < n)
    (wrote : f'.writeChunk sb devsw p (fun j => src (i + j)) (min (n - i) writeMax) state' =
      .ok (((min (n - i) writeMax : ℕ) : ℤ), f'', state'')) :
    writeLoop sb devsw p src n (fuel + 1) i f' state' =
      writeLoop sb devsw p src n fuel (i + min (n - i) writeMax) f'' state'' := by
  have accepted : ¬((min (n - i) writeMax : ℕ) : ℤ) < 0 := Int.not_lt.2 (Int.natCast_nonneg _)
  have complete : ¬((min (n - i) writeMax : ℕ) : ℤ) ≠ ((min (n - i) writeMax : ℕ) : ℤ) := not_not.2 rfl
  rw [writeLoop, if_pos unfinished]
  simp only [wrote, bind, Except.bind, if_neg accepted, if_neg complete]

theorem writeLoop_refused {state'' : FsState} (unfinished : i < n)
    (refused : f'.writeChunk sb devsw p (fun j => src (i + j)) (min (n - i) writeMax) state' =
      .ok (-1, f', state'')) :
    writeLoop sb devsw p src n (fuel + 1) i f' state' = .ok (i, f', state'') := by
  rw [writeLoop, if_pos unfinished]
  simp only [refused, bind, Except.bind]
  rfl

theorem writeLoop_spec (valid : sb.Valid) (notDev : (state.icache f.ip).type ≠ T_DEV)
    (placed : (state.icache f.ip).Placed sb (state.deviceOf f.ip))
    (room : Room sb (state.deviceOf f.ip) (state.icache f.ip).toDinode f.off.toNat
      (min n (MAXFILE * BSIZE - f.off.toNat)))
    (progress : Progress sb f state ((List.range i).map src) f' state') (inRange : i ≤ n)
    (whole : i = n ∨ writeMax ∣ i) (enough : n - i < fuel) :
    ∃ f'' state'', writeLoop sb devsw p src n fuel i f' state' = .ok (fitting f.off.toNat n, f'', state'') ∧
      Progress sb f state ((List.range (fitting f.off.toNat n)).map src) f'' state'' := by
  induction fuel generalizing i f' state' with
  | zero => omega
  | succ fuel ih =>
      have isLength : ((List.range i).map src).length = i := by simp
      have reached := progress.fits
      rw [isLength] at reached
      by_cases unfinished : i < n
      · have isWhole : writeMax ∣ i := by
          rcases whole with finished | isWhole
          · omega
          · exact isWhole
        have small : min (n - i) writeMax ≤ writeMax := Nat.min_le_right ..
        by_cases fits : f.off.toNat + i + min (n - i) writeMax ≤ MAXFILE * BSIZE
        · have written := @Progress.writeChunk sb devsw p (fun j => src (i + j)) (min (n - i) writeMax)
            (min n (MAXFILE * BSIZE - f.off.toNat)) f f' state state' _ valid notDev progress
            (by rw [isLength]; exact fits) small placed (by rw [isLength]; omega) room
          rcases written with ⟨f'', state'', wrote, longer⟩
          rw [map_range_add] at longer
          rw [writeLoop_more unfinished wrote]
          apply ih longer
          · omega
          · by_cases last : n - i ≤ writeMax
            · left
              omega
            · right
              rw [Nat.min_eq_right (by omega)]
              exact Nat.dvd_add isWhole (Nat.dvd_refl _)
          · simp only [writeMax, MAXOPBLOCKS]
            omega
        · have long : MAXFILE * BSIZE < f.off.toNat + ((List.range i).map src).length +
              min (n - i) writeMax := by
            rw [isLength]
            exact Nat.not_le.1 fits
          rcases @Progress.refused sb devsw p (fun j => src (i + j)) _ _ _ _ _ _ valid progress small notDev long
            with ⟨state'', refused, same⟩
          have isAll : fitting f.off.toNat n = i := by
            rcases isWhole with ⟨k, rfl⟩
            have isCount : (MAXFILE * BSIZE - f.off.toNat) / writeMax = k := by
              have isProduct := Nat.mul_comm k writeMax
              have next : (k + 1) * writeMax = k * writeMax + writeMax := Nat.succ_mul ..
              apply Nat.div_eq_of_lt_le
              · omega
              · omega
            rw [fitting, if_neg (by omega), isCount, Nat.mul_comm]
          rw [writeLoop_refused unfinished refused, isAll]
          exact ⟨f', state'', rfl, same⟩
      · have finished : i = n := by omega
        have isAll : fitting f.off.toNat n = n := by
          rw [fitting, if_pos (by omega)]
        rw [writeLoop, if_neg unfinished, isAll, ← finished]
        exact ⟨f', state', rfl, progress⟩

theorem filewrite_spec (valid : sb.Valid) (usable : state.Usable sb f.ip)
    (notDev : (state.icache f.ip).type ≠ T_DEV)
    (bounded : (state.icache f.ip).size.toNat ≤ MAXFILE * BSIZE) (isWritable : f.writable = true)
    (inside : f.off.toNat ≤ (state.icache f.ip).size.toNat)
    (room : Room sb (state.deviceOf f.ip) (state.icache f.ip).toDinode f.off.toNat
      (min n (MAXFILE * BSIZE - f.off.toNat))) :
    ∃ f' state', f.filewrite sb devsw p src n state =
        .ok (if f.off.toNat + n ≤ MAXFILE * BSIZE then (n : ℤ) else -1, f', state') ∧
      Progress sb f state ((List.range (fitting f.off.toNat n)).map src) f' state' := by
  have accepted : ¬f.writable = false := by
    rw [isWritable]
    exact Bool.noConfusion
  rcases @writeLoop_spec sb devsw p src n (n + 1) 0 f f state state valid notDev usable.placed room
    (.start usable inside bounded) (Nat.zero_le _) (Or.inr (Nat.dvd_zero _)) (by omega) with
    ⟨f', state', looped, progress⟩
  refine ⟨f', state', ?_, progress⟩
  simp only [filewrite, if_neg accepted, Int.toNat_natCast, looped, bind, Except.bind, pure, Except.pure]
  by_cases fits : f.off.toNat + n ≤ MAXFILE * BSIZE
  · have isAll : ((fitting f.off.toNat n : ℕ) : ℤ) = n := by rw [fitting, if_pos fits]
    rw [if_pos isAll, if_pos fits]
  · have isPart : ¬((fitting f.off.toNat n : ℕ) : ℤ) = n := by
      have less := Nat.div_mul_le_self (MAXFILE * BSIZE - f.off.toNat) writeMax
      rw [fitting, if_neg fits]
      omega
    rw [if_neg isPart, if_neg fits]

theorem Progress.contents_eq {m : ℕ} {ip' : Inode} {device' : Device}
    (progress : Progress sb f state ((List.range m).map src) f' state')
    (inside : f.off.toNat ≤ (state.icache f.ip).size.toNat)
    (wrote : Wrote sb (state.beginOp.deviceOf f.ip) (state.icache f.ip) f.off.toNat m src device' ip') :
    (state'.icache f.ip).contents (state'.deviceOf f.ip) = ip'.contents device' := by
  have isLength : ((List.range m).map src).length = m := by simp
  apply Inode.contents_congr
  · rw [progress.size, wrote.size, isLength]
    split
    · omega
    · rfl
  · intro i
    have sameBlock : (state.beginOp.deviceOf f.ip).block = (state.deviceOf f.ip).block := rfl
    rw [progress.bytes, wrote.bytes, isLength, sameBlock]
    by_cases isNew : f.off.toNat ≤ i ∧ i < f.off.toNat + m
    · rw [if_pos isNew, if_pos isNew, List.getD_eq_getElem _ _ (by omega), List.getElem_map,
        List.getElem_range]
    · rw [if_neg isNew, if_neg isNew]

theorem length_contents {ip : Inode} {device : Device} : (ip.contents device).length = ip.size.toNat := by
  simp [Inode.contents]

theorem Progress.contents_splice {data : List UInt8} (progress : Progress sb f state data f' state')
    (inside : f.off.toNat ≤ (state.icache f.ip).size.toNat) :
    (state'.icache f.ip).contents (state'.deviceOf f.ip) =
      ((state.icache f.ip).contents (state.deviceOf f.ip)).take f.off.toNat ++ data ++
        ((state.icache f.ip).contents (state.deviceOf f.ip)).drop (f.off.toNat + data.length) := by
  have size := progress.size
  apply List.ext_getElem
  · simp only [List.length_append, List.length_take, List.length_drop, length_contents]
    omega
  · intro i below _
    rw [length_contents] at below
    have isStart : min f.off.toNat (state.icache f.ip).size.toNat = f.off.toNat := Nat.min_eq_left inside
    simp only [Inode.contents, List.getElem_append, List.length_append, List.length_take, List.length_map,
      List.length_range, List.getElem_take, List.getElem_drop, List.getElem_map, List.getElem_range, isStart]
    rw [progress.bytes]
    by_cases before : i < f.off.toNat
    · rw [if_neg (by omega), dif_pos (by omega), dif_pos before]
    · by_cases here : i < f.off.toNat + data.length
      · rw [if_pos (by omega), dif_pos here, dif_neg before, List.getD_eq_getElem _ _ (by omega)]
      · have isIndex : f.off.toNat + data.length + (i - (f.off.toNat + data.length)) = i := by omega
        rw [if_neg (by omega), dif_neg here, isIndex]

theorem writeChunk_logRoom (valid : sb.Valid) (oneBlock : sb.size ≤ BPB) (usable : state.Usable sb f.ip)
    {f'' : InodeFile} {state'' : FsState} {r : ℤ} (iterated : Iterated sb devsw p src n f state i f' state')
    (wrote : f'.writeChunk sb devsw p (fun j => src (i + j)) (min (n - i) writeMax) state' =
      .ok (r, f'', state'')) : (state''.deviceOf f.ip).LogRoom := by
  rcases iterated.usable valid usable with ⟨sameIp, stillUsable⟩
  rw [← sameIp] at stillUsable ⊢
  have few := (writeChunk_fitsLog valid oneBlock stillUsable (Nat.min_le_right ..) wrote).1
  exact Nat.lt_of_le_of_lt (Nat.le_trans card_tail_le few) (by decide)

/-- `filewrite` returns the count or -1, as one `writei` would if the log had room for it, and no piece
finds the log full. The pieces that fit have been written, from the offset on. -/
theorem filewrite_agrees (valid : sb.Valid) (oneBlock : sb.size ≤ BPB) (usable : state.Usable sb f.ip)
    (isFile : (state.icache f.ip).type = T_FILE)
    (bounded : (state.icache f.ip).size.toNat ≤ MAXFILE * BSIZE) (isWritable : f.writable = true)
    (inside : f.off.toNat ≤ (state.icache f.ip).size.toNat) (isInt : n < 2 ^ 31)
    (room : Room sb (state.deviceOf f.ip) (state.icache f.ip).toDinode f.off.toNat
      (min n (MAXFILE * BSIZE - f.off.toNat))) :
    (∀ i f₁ state₁ r f₂ state₂, Iterated sb devsw p src n f state i f₁ state₁ →
      f₁.writeChunk sb devsw p (fun j => src (i + j)) (min (n - i) writeMax) state₁ = .ok (r, f₂, state₂) →
      (state₂.deviceOf f.ip).LogRoom) ∧
    ∃ r f' state', f.filewrite sb devsw p src n state = .ok (r, f', state') ∧
      r = (if f.off.toNat + n ≤ MAXFILE * BSIZE then (n : ℤ) else -1) ∧
      f'.off.toNat = f.off.toNat + fitting f.off.toNat n ∧
      (state'.icache f.ip).contents (state'.deviceOf f.ip) =
        ((state.icache f.ip).contents (state.deviceOf f.ip)).take f.off.toNat ++
          (List.range (fitting f.off.toNat n)).map src ++
          ((state.icache f.ip).contents (state.deviceOf f.ip)).drop (f.off.toNat + fitting f.off.toNat n) ∧
      ∃ r' ip' device', (state.icache f.ip).writei sb devsw src f.off.toNat n (state.beginOp.deviceOf f.ip) =
          some (r', ip', device') ∧
        (device'.LogRoom → r' = r ∧
          (r = n → (state'.icache f.ip).contents (state'.deviceOf f.ip) = ip'.contents device')) := by
  have notDev : (state.icache f.ip).type ≠ T_DEV := by
    rw [isFile]
    decide
  refine ⟨fun i f₁ state₁ r f₂ state₂ => writeChunk_logRoom valid oneBlock usable, ?_⟩
  rcases @filewrite_spec sb devsw p src n f state valid usable notDev bounded isWritable inside room with
    ⟨f', state', returned, progress⟩
  have isOff := progress.off.2
  have isSplice := progress.contents_splice inside
  rw [List.length_map, List.length_range] at isOff isSplice
  refine ⟨_, f', state', returned, rfl, isOff, isSplice, ?_⟩
  by_cases all : f.off.toNat + n ≤ MAXFILE * BSIZE
  · have isAll : fitting f.off.toNat n = n := if_pos all
    rw [isAll] at progress
    rcases @writei_isSome sb (state.beginOp.deviceOf f.ip) (state.icache f.ip) f.off.toNat n src valid
      usable.metadata usable.beginOp.placed devsw notDev inside all (room.mono (by omega)) with
      ⟨ip', device', called⟩
    refine ⟨n, ip', device', called, ?_⟩
    intro _
    refine ⟨(if_pos all).symm, ?_⟩
    intro _
    have begun := usable.beginOp
    exact progress.contents_eq inside
      (writei_wrote valid begun.metadata begun.placed begun.isInode notDev inside all called).2
  · refine ⟨-1, _, _, writei_refused notDev ⟨f.off.toNat_lt, by omega⟩ (Or.inr (Nat.not_le.1 all)), ?_⟩
    intro _
    refine ⟨(if_neg all).symm, ?_⟩
    rw [if_neg all]
    intro impossible
    omega

end

end InodeFile

/-! ## Writing to the empty file -/

namespace Mkfs

theorem emptyOpen_room {n : ℕ} : Room sb (emptyFs.deviceOf emptyOpen.ip)
    (emptyFs.icache emptyOpen.ip).toDinode emptyOpen.off.toNat
    (min n (MAXFILE * BSIZE - emptyOpen.off.toNat)) := by
  apply emptyDisk_room
  have start : emptyOpen.off.toNat = 0 := rfl
  omega

/-- More than a file can have: `writei` refuses that, and `filewrite` writes 46 pieces first. -/
theorem filewrite_too_long :
    emptyIp.writei sb noDevices (fun _ => 65) 0 (MAXFILE * BSIZE + 1) emptyDisk =
      some (-1, emptyIp, emptyDisk) ∧
    ∃ f' state', emptyOpen.filewrite sb noDevices 0 (fun _ => 65) (MAXFILE * BSIZE + 1 : ℕ) emptyFs =
      .ok (-1, f', state') ∧ f'.off.toNat = 70656 ∧ (state'.icache emptyOpen.ip).size.toNat = 70656 := by
  refine ⟨writei_refused (by decide) (by decide) (Or.inr (by decide)), ?_⟩
  rcases @InodeFile.filewrite_spec sb noDevices 0 (fun _ => 65) (MAXFILE * BSIZE + 1) emptyOpen emptyFs sb_valid
    emptyFs_usable (by decide) (by decide) rfl (by decide) emptyOpen_room with ⟨f', state', returned, progress⟩
  have isOff := progress.off.2
  have isSize := progress.size
  have isCount : InodeFile.fitting emptyOpen.off.toNat (MAXFILE * BSIZE + 1) = 70656 := by decide
  rw [List.length_map, List.length_range, isCount] at isOff isSize
  have long : ¬emptyOpen.off.toNat + (MAXFILE * BSIZE + 1) ≤ MAXFILE * BSIZE := by decide
  rw [if_neg long] at returned
  exact ⟨f', state', returned, isOff, isSize⟩

/-- Two pieces. -/
theorem filewrite_two_pieces : ∃ f' state',
    emptyOpen.filewrite sb noDevices 0 (fun _ => 65) (2000 : ℕ) emptyFs = .ok ((2000 : ℕ), f', state') ∧
      f'.off.toNat = 2000 ∧
      (state'.icache emptyOpen.ip).contents (state'.deviceOf emptyOpen.ip) = List.replicate 2000 65 := by
  rcases (@InodeFile.filewrite_agrees sb noDevices 0 (fun _ => 65) 2000 emptyOpen emptyFs sb_valid (by decide)
    emptyFs_usable rfl (by decide) rfl (by decide) (by decide) emptyOpen_room).2 with
    ⟨r, f', state', returned, isResult, isOff, isContents, _⟩
  have fits : emptyOpen.off.toNat + 2000 ≤ MAXFILE * BSIZE := by decide
  have isAll : InodeFile.fitting emptyOpen.off.toNat 2000 = 2000 := if_pos fits
  have isEmpty : (emptyFs.icache emptyOpen.ip).contents (emptyFs.deviceOf emptyOpen.ip) = [] := rfl
  rw [if_pos fits] at isResult
  rw [isAll] at isOff isContents
  rw [isEmpty, List.take_nil, List.drop_nil, List.nil_append, List.append_nil, List.map_const', List.length_range]
    at isContents
  rw [isResult] at returned
  exact ⟨f', state', returned, isOff.trans (Nat.zero_add _), isContents⟩

end Mkfs

end Xv6
