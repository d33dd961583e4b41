import Xv6.Fs.Contents

/-!
# Reading and writing the contents of an inode

The loops of `readi`, `writei` and `changesize` go through the contents block by block. Within the
bounds of a file they panic only if the disk runs out of blocks.
-/

namespace Xv6

/-! ## Places -/

/-- The places that a byte needs: its block, and the indirect block if its block is an entry there. -/
def placesOf (i : ℕ) : Finset (Option ℕ) :=
  if i / BSIZE < NDIRECT then {some (i / BSIZE)} else {none, some (i / BSIZE)}

def places (off n : ℕ) : Finset (Option ℕ) := (Finset.Ico off (off + n)).biUnion placesOf

theorem mem_placesOf {i : ℕ} {place : Option ℕ} :
    place ∈ placesOf i ↔ place = some (i / BSIZE) ∨ (place = none ∧ NDIRECT ≤ i / BSIZE) := by
  by_cases direct : i / BSIZE < NDIRECT
  · rw [placesOf, if_pos direct, Finset.mem_singleton]
    constructor
    · exact Or.inl
    · rintro (isHere | ⟨_, isEntry⟩)
      · exact isHere
      · omega
  · rw [placesOf, if_neg direct, Finset.mem_insert, Finset.mem_singleton, or_comm,
      and_iff_left (Nat.not_lt.1 direct)]

theorem mem_places {off n : ℕ} {place : Option ℕ} :
    place ∈ places off n ↔ ∃ i, off ≤ i ∧ i < off + n ∧ place ∈ placesOf i := by
  simp only [places, Finset.mem_biUnion, Finset.mem_Ico, and_assoc]

theorem places_mono {off off' m n : ℕ} (start : off ≤ off') (stop : off' + m ≤ off + n) :
    places off' m ⊆ places off n := by
  intro place isPlace
  rcases mem_places.1 isPlace with ⟨i, low, high, isHere⟩
  exact mem_places.2 ⟨i, by omega, by omega, isHere⟩

theorem some_mem_places {off n bn : ℕ} : some bn ∈ places off n ↔ ∃ i, off ≤ i ∧ i < off + n ∧ i / BSIZE = bn := by
  simp only [mem_places, mem_placesOf, Option.some.injEq, reduceCtorEq, false_and, or_false, eq_comm]

theorem places_add {off m k : ℕ} : places off (m + k) = places off m ∪ places (off + m) k := by
  rw [places, places, places, ← Finset.union_biUnion,
    Finset.Ico_union_Ico_eq_Ico (Nat.le_add_right ..) (Nat.le_add_right ..), Nat.add_assoc]

theorem places_zero {off : ℕ} : places off 0 = ∅ := by
  rw [places, Nat.add_zero, Finset.Ico_self, Finset.biUnion_empty]

/-! ## Copying -/

section Copy

variable {sb : Superblock} {device middle after : Device} {ip ip₁ ip' : Inode} {off m n tot fuel : ℕ}
  {src : ℕ → UInt8} {bytes : List UInt8}

/-- A range of the contents has been written, and has blocks. -/
structure Written (sb : Superblock) (device : Device) (ip : Inode) (off m : ℕ) (src : ℕ → UInt8)
    (after : Device) (ip' : Inode) : Prop where
  extended : Extends sb device ip.toDinode after ip'.toDinode
  same : ∃ addrs, ip' = { ip with addrs := addrs }
  inodes : ∀ inum < sb.ninodes, after.dinode sb inum = device.dinode sb inum
  bytes : ∀ i, ip'.byteAt after.block i =
    if off ≤ i ∧ i < off + m then src (i - off) else ip.byteAt device.block i
  present : ∀ i, off ≤ i → i < off + m → ip'.addr after.block (some (i / BSIZE)) ≠ 0
  only : ∀ place, ip.addr device.block place = 0 → ip'.addr after.block place ≠ 0 → place ∈ places off m
  logs : Logs sb device ip.toDinode after ip'.toDinode {bn | some bn ∈ places off m}

theorem Written.refl (placed : ip.Placed sb device) : Written sb device ip off 0 src device ip where
  extended := .refl placed
  same := ⟨ip.addrs, rfl⟩
  inodes _ _ := rfl
  bytes i := by rw [if_neg (by omega)]
  present i _ _ := by omega
  only _ hole isNew := absurd hole isNew
  logs := by
    simp only [places_zero, Finset.notMem_empty]
    exact .refl

theorem Written.trans {k : ℕ} (first : Written sb device ip off m src middle ip₁)
    (second : Written sb middle ip₁ (off + m) k (fun i => src (m + i)) after ip') :
    Written sb device ip off (m + k) src after ip' where
  extended := first.extended.trans second.extended
  same := by
    rcases first.same with ⟨_, rfl⟩
    rcases second.same with ⟨addrs, rfl⟩
    exact ⟨addrs, rfl⟩
  inodes inum isInode := (second.inodes inum isInode).trans (first.inodes inum isInode)
  bytes := by
    intro i
    rw [second.bytes, first.bytes]
    by_cases later : off + m ≤ i ∧ i < off + m + k
    · have index : m + (i - (off + m)) = i - off := by omega
      rw [if_pos later, if_pos (by omega), index]
    · rw [if_neg later]
      by_cases early : off ≤ i ∧ i < off + m
      · rw [if_pos early, if_pos (by omega)]
      · rw [if_neg early, if_neg (by omega)]
  present := by
    intro i start stop
    by_cases later : off + m ≤ i
    · exact second.present i later (by omega)
    · have early := first.present i start (by omega)
      rw [second.extended.grows _ early]
      exact early
  only := by
    intro place hole isNew
    rw [places_add, Finset.mem_union]
    by_cases stillHole : ip₁.addr middle.block place = 0
    · exact Or.inr (second.only place stillHole isNew)
    · exact Or.inl (first.only place hole stillHole)
  logs := by
    simp only [places_add, Finset.mem_union]
    apply first.logs.trans first.extended _ second.extended second.logs
    intro bn isHere
    rcases some_mem_places.1 isHere with ⟨i, start, stop, rfl⟩
    exact first.present i start stop

theorem Filled.written (filled : Filled sb device ip middle ip₁)
    (fills : ∀ place, ip.addr device.block place = 0 → ip₁.addr middle.block place ≠ 0 → place ∈ places off m)
    (written : Written sb middle ip₁ off m src after ip') : Written sb device ip off m src after ip' where
  extended := filled.extended.trans written.extended
  same := by
    rcases filled.same with ⟨_, rfl⟩
    rcases written.same with ⟨addrs, rfl⟩
    exact ⟨addrs, rfl⟩
  inodes inum isInode := (written.inodes inum isInode).trans (filled.inodes inum isInode)
  bytes i := by rw [written.bytes, filled.bytes]
  present := written.present
  only := by
    intro place hole isNew
    by_cases stillHole : ip₁.addr middle.block place = 0
    · exact written.only place stillHole isNew
    · exact fills place hole stillHole
  logs := filled.logs.trans_empty filled.extended written.extended written.logs

theorem Dinode.Placed.addr_logWrite {dip : Dinode} {bn : ℕ} {data : BlockData}
    (placed : dip.Placed sb device) (nonzero : dip.addr device.block (some bn) ≠ 0) (place : Option ℕ) :
    dip.addr (device.logWrite (dip.addr device.block (some bn)) data).block place =
      dip.addr device.block place := by
  apply Dinode.addr_congr rfl
  intro _ i _
  rw [Device.block_logWrite_of_ne (placed.ne_indirect nonzero).symm]

theorem written_logWrite {b : ℕ} (valid : sb.Valid) (placed : ip.Placed sb device)
    (isAddr : ip.addr device.block (some (off / BSIZE)) = b) (nonzero : b ≠ 0) (positive : 0 < m)
    (inBlock : off % BSIZE + m ≤ BSIZE) :
    Written sb device ip off m src
      (device.logWrite b (Bytes.store (device.block b) (off % BSIZE) m src)) ip := by
  subst isAddr
  have isData := (placed.used _ nonzero).1
  have sameAddr : ∀ place, ip.addr (device.logWrite (ip.addr device.block (some (off / BSIZE)))
      (Bytes.store (device.block (ip.addr device.block (some (off / BSIZE)))) (off % BSIZE) m
        src)).block place = ip.addr device.block place := placed.addr_logWrite nonzero
  have sameBlock : ∀ i, off ≤ i → i < off + m → i / BSIZE = off / BSIZE := by
    simp only [BSIZE] at inBlock ⊢
    omega
  constructor
  · refine .of_same placed sameAddr (fun c below => Device.inUse_logWrite_data isData below) ?_
    exact fun x _ foreign => Device.block_logWrite_of_ne (foreign _).symm
  · exact ⟨ip.addrs, rfl⟩
  · intro inum isInode
    exact Device.dinode_logWrite_data valid isData isInode
  · intro i
    rw [Dinode.byteAt, Dinode.byteAt, sameAddr]
    by_cases here : i / BSIZE = off / BSIZE
    · rw [here, if_neg nonzero, if_neg nonzero, Device.block_logWrite_self, Bytes.store]
      have range : off % BSIZE ≤ i % BSIZE ∧ i % BSIZE < off % BSIZE + m ↔ off ≤ i ∧ i < off + m := by
        simp only [BSIZE] at here inBlock ⊢
        omega
      have index : off ≤ i → i % BSIZE - off % BSIZE = i - off := by
        simp only [BSIZE] at here ⊢
        omega
      by_cases inRange : off ≤ i ∧ i < off + m
      · rw [if_pos (range.2 inRange), if_pos inRange, index inRange.1]
      · rw [if_neg (fun isIn => inRange (range.1 isIn)), if_neg inRange]
    · have outside : ¬(off ≤ i ∧ i < off + m) := by
        simp only [BSIZE] at here inBlock ⊢
        omega
      rw [if_neg outside]
      by_cases hole : ip.addr device.block (some (i / BSIZE)) = 0
      · rw [if_pos hole, if_pos hole]
      · rw [if_neg hole, if_neg hole, Device.block_logWrite_of_ne]
        intro same
        have samePlace := placed.distinct _ _ hole same
        exact here (by simpa using samePlace)
  · intro i start stop
    rw [sameAddr, sameBlock i start stop]
    exact nonzero
  · intro place hole isNew
    rw [sameAddr] at isNew
    exact absurd hole isNew
  · intro c
    simp only [sameAddr]
    rw [Device.logWrite, List.mem_cons]
    constructor
    · rintro (rfl | before)
      · exact Or.inr (Or.inl ⟨_, some_mem_places.2 ⟨off, Nat.le_refl _, by omega, rfl⟩, rfl⟩)
      · exact Or.inl before
    · rintro (before | ⟨bn, isHere, isAddr⟩ | ⟨place, hole, isNew, _⟩)
      · exact Or.inr before
      · rcases some_mem_places.1 isHere with ⟨i, start, stop, rfl⟩
        rw [sameBlock i start stop] at isAddr
        exact Or.inl isAddr.symm
      · exact absurd hole isNew

theorem chunk_le : Inode.chunk n tot off ≤ n - tot ∧ off % BSIZE + Inode.chunk n tot off ≤ BSIZE := by
  have inside : off % BSIZE < BSIZE := Nat.mod_lt _ (by decide)
  simp only [Inode.chunk]
  omega

theorem chunk_pos (unfinished : tot < n) : 0 < Inode.chunk n tot off := by
  have inside : off % BSIZE < BSIZE := Nat.mod_lt _ (by decide)
  simp only [Inode.chunk]
  omega

theorem copyChunk_written (valid : sb.Valid) (metadata : device.Metadata sb)
    (placed : ip.Placed sb device) (unfinished : tot < n)
    (got : Inode.copyChunk sb src n tot off ip device = some (ip', after)) :
    Written sb device ip off (Inode.chunk n tot off) (fun i => src (tot + i)) after ip' := by
  rcases Option.bind_eq_some_iff.1 got with ⟨⟨b, ip₁, middle⟩, mapped, result⟩
  rcases bmap_fills valid metadata placed mapped with ⟨⟨filled, isAddr, nonzero⟩, same⟩
  cases result
  have positive := @chunk_pos off n tot unfinished
  refine filled.written ?_ (written_logWrite valid filled.extended.placed isAddr nonzero positive chunk_le.2)
  intro place hole isNew
  by_contra notHere
  have missing : place ∉ placesOf off :=
    fun isHere => notHere (mem_places.2 ⟨off, Nat.le_refl _, by omega, isHere⟩)
  rw [mem_placesOf, not_or] at missing
  apply isNew
  rw [same place missing.1]
  · exact hole
  · intro isIndirect
    by_contra entry
    exact missing.2 ⟨isIndirect, Nat.not_lt.1 entry⟩

theorem copyIn_written (valid : sb.Valid) (metadata : device.Metadata sb)
    (placed : ip.Placed sb device) (enough : n - tot ≤ fuel)
    (got : Inode.copyIn sb src n fuel tot off ip device = some (ip', after)) :
    Written sb device ip off (n - tot) (fun i => src (tot + i)) after ip' := by
  induction fuel generalizing tot off ip device with
  | zero =>
      cases got
      have none : n - tot = 0 := by omega
      rw [none]
      exact .refl placed
  | succ fuel ih =>
      rw [Inode.copyIn] at got
      by_cases unfinished : tot < n
      · rw [if_pos unfinished] at got
        rcases Option.bind_eq_some_iff.1 got with ⟨⟨ip₁, middle⟩, first, rest⟩
        have written := copyChunk_written valid metadata placed unfinished first
        have bound := @chunk_le off n tot
        have positive := @chunk_pos off n tot unfinished
        have enoughRest : n - (tot + Inode.chunk n tot off) ≤ fuel := by omega
        have later := ih (written.extended.metadata valid metadata) written.extended.placed enoughRest rest
        have total : n - tot = Inode.chunk n tot off + (n - (tot + Inode.chunk n tot off)) := by omega
        rw [total]
        apply written.trans
        simpa [Nat.add_assoc] using later
      · rw [if_neg unfinished] at got
        cases got
        have none : n - tot = 0 := by omega
        rw [none]
        exact .refl placed

theorem load_eq_bytes {dip : Dinode} {blocks : ℕ → BlockData} {b : ℕ}
    (isAddr : dip.addr blocks (some (off / BSIZE)) = b) (nonzero : b ≠ 0)
    (inBlock : off % BSIZE + m ≤ BSIZE) :
    Bytes.load (blocks b) (off % BSIZE) m = (List.range m).map fun i => dip.byteAt blocks (off + i) := by
  rw [Bytes.load]
  apply List.map_congr_left
  intro i mem
  have inside : i < m := List.mem_range.1 mem
  have sameBlock : (off + i) / BSIZE = off / BSIZE := by
    simp only [BSIZE] at inBlock ⊢
    omega
  have index : (off + i) % BSIZE = off % BSIZE + i := by
    simp only [BSIZE] at inBlock ⊢
    omega
  rw [Dinode.byteAt, sameBlock, isAddr, if_neg nonzero, index]

theorem copyOut_filled (valid : sb.Valid) (metadata : device.Metadata sb)
    (placed : ip.Placed sb device) (enough : n - tot ≤ fuel)
    (got : Inode.copyOut sb n fuel tot off ip device = some (bytes, ip', after)) :
    Filled sb device ip after ip' ∧
      bytes = (List.range (n - tot)).map fun i => ip.byteAt device.block (off + i) := by
  induction fuel generalizing tot off ip device bytes with
  | zero =>
      cases got
      have none : n - tot = 0 := by omega
      rw [none]
      exact ⟨.refl placed, rfl⟩
  | succ fuel ih =>
      rw [Inode.copyOut] at got
      by_cases unfinished : tot < n
      · rw [if_pos unfinished] at got
        rcases Option.bind_eq_some_iff.1 got with ⟨⟨b, ip₁, middle⟩, mapped, rest⟩
        rcases Option.bind_eq_some_iff.1 rest with ⟨⟨later, ip₂, last⟩, loop, result⟩
        cases result
        rcases bmap_filled valid metadata placed mapped with ⟨filled, isAddr, nonzero⟩
        have bound := @chunk_le off n tot
        have positive := @chunk_pos off n tot unfinished
        have enoughRest : n - (tot + Inode.chunk n tot off) ≤ fuel := by omega
        rcases ih (filled.extended.metadata valid metadata) filled.extended.placed enoughRest loop with
          ⟨filledRest, laterBytes⟩
        refine ⟨filled.trans filledRest, ?_⟩
        have total : n - tot = Inode.chunk n tot off + (n - (tot + Inode.chunk n tot off)) := by omega
        rw [total, List.range_add, List.map_append, laterBytes]
        congr 1
        · rw [load_eq_bytes isAddr nonzero bound.2]
          apply List.map_congr_left
          intro i _
          exact filled.bytes _
        · rw [List.map_map]
          apply List.map_congr_left
          intro i _
          rw [filled.bytes, Function.comp_apply, Nat.add_assoc]
      · rw [if_neg unfinished] at got
        cases got
        have none : n - tot = 0 := by omega
        rw [none]
        exact ⟨.refl placed, rfl⟩

end Copy

/-! ## Reading where there are blocks -/

def Dinode.Solid (dip : Dinode) (blocks : ℕ → BlockData) : Prop :=
  ∀ i < dip.size.toNat, dip.addr blocks (some (i / BSIZE)) ≠ 0

section Read

variable {sb : Superblock} {device : Device} {ip : Inode} {off n tot fuel bn : ℕ} {devsw : Devsw}

theorem lt_maxfile_of_addr {dip : Dinode} {blocks : ℕ → BlockData}
    (present : dip.addr blocks (some bn) ≠ 0) : bn < MAXFILE := by
  by_contra large
  exact present (Dinode.addr_of_large (Nat.not_lt.1 large))

theorem copyOut_of_present (enough : n - tot ≤ fuel)
    (present : ∀ i, off ≤ i → i < off + (n - tot) → ip.addr device.block (some (i / BSIZE)) ≠ 0) :
    Inode.copyOut sb n fuel tot off ip device =
      some ((List.range (n - tot)).map fun i => ip.byteAt device.block (off + i), ip, device) := by
  induction fuel generalizing tot off with
  | zero =>
      have none : n - tot = 0 := by omega
      rw [none]
      rfl
  | succ fuel ih =>
      rw [Inode.copyOut]
      by_cases unfinished : tot < n
      · have bound := @chunk_le off n tot
        have positive := @chunk_pos off n tot unfinished
        have here := present off (Nat.le_refl _) (by omega)
        have enoughRest : n - (tot + Inode.chunk n tot off) ≤ fuel := by omega
        have presentRest : ∀ i, off + Inode.chunk n tot off ≤ i →
            i < off + Inode.chunk n tot off + (n - (tot + Inode.chunk n tot off)) →
            ip.addr device.block (some (i / BSIZE)) ≠ 0 :=
          fun i start stop => present i (by omega) (by omega)
        have total : n - tot = Inode.chunk n tot off + (n - (tot + Inode.chunk n tot off)) := by omega
        have bytes : Bytes.load (device.block (ip.addr device.block (some (off / BSIZE)))) (off % BSIZE)
            (Inode.chunk n tot off) = _ := load_eq_bytes rfl here bound.2
        simp only [if_pos unfinished, bmap_of_ne_zero (lt_maxfile_of_addr here) here, bind,
          Option.bind, ih enoughRest presentRest, bytes]
        rw [total, List.range_add, List.map_append, List.map_map]
        simp only [Function.comp_def, Nat.add_assoc]
        rfl
      · have none : n - tot = 0 := by omega
        rw [if_neg unfinished, none]
        rfl

theorem toInt_small (small : n ≤ MAXFILE * BSIZE) : toInt n = n := by
  simp only [MAXFILE, NDIRECT, NINDIRECT, BSIZE] at small
  have low : -((2 ^ 32 : ℕ) / 2 : ℤ) ≤ n := by omega
  have high : (n : ℤ) < ((2 ^ 32 : ℕ) + 1) / 2 := by omega
  exact Int.bmod_eq_of_le low high

variable (notDev : ip.type ≠ T_DEV)

include notDev

theorem readi_eq {count : ℕ} (isCount : count = min n (ip.size.toNat - off))
    (inside : off ≤ ip.size.toNat) (noWrap : off + n < 2 ^ 32) :
    ip.readi sb devsw off n device = (Inode.copyOut sb count count 0 off ip device).map
      fun (bytes, ip, device) => ((toInt count, bytes), ip, device) := by
  have accepted : ¬(ip.size.toNat < off ∨ (off + n) % 2 ^ 32 < off) := by
    rw [Nat.mod_eq_of_lt noWrap]
    omega
  have sameCount : (if ip.size.toNat < (off + n) % 2 ^ 32 then ip.size.toNat - off else n) =
      count := by
    rw [Nat.mod_eq_of_lt noWrap, isCount]
    split <;> omega
  simp only [Inode.readi, if_neg notDev, if_neg accepted, sameCount]

theorem readi_refused (refused : ip.size.toNat < off ∨ (off + n) % 2 ^ 32 < off) :
    ip.readi sb devsw off n device = some ((-1, []), ip, device) := by
  simp only [Inode.readi, if_neg notDev, if_pos refused]

theorem readi_of_solid {count : ℕ} (isCount : count = min n (ip.size.toNat - off))
    (inside : off ≤ ip.size.toNat) (noWrap : off + n < 2 ^ 32) (solid : ip.Solid device.block) :
    ip.readi sb devsw off n device =
      some ((toInt count, (List.range count).map fun i => ip.byteAt device.block (off + i)), ip,
        device) := by
  rw [readi_eq notDev isCount inside noWrap, copyOut_of_present (by omega)]
  · rfl
  · intro i _ stop
    exact solid i (by omega)

theorem readi_unchanged (isUint : off < 2 ^ 32 ∧ n < 2 ^ 32) (solid : ip.Solid device.block) :
    ∃ result, ip.readi sb devsw off n device = some (result, ip, device) := by
  by_cases refused : ip.size.toNat < off ∨ (off + n) % 2 ^ 32 < off
  · exact ⟨_, readi_refused notDev refused⟩
  · have noWrap : off + n < 2 ^ 32 := by omega
    exact ⟨_, readi_of_solid notDev rfl (by omega) noWrap solid⟩

theorem readi_present {result : ℤ × List UInt8} {ip' : Inode} {after : Device} (valid : sb.Valid)
    (metadata : device.Metadata sb) (placed : ip.Placed sb device) (nonempty : 0 < n)
    (inside : off < ip.size.toNat) (noWrap : off + n < 2 ^ 32)
    (read : ip.readi sb devsw off n device = some (result, ip', after)) :
    ip'.addr after.block (some (off / BSIZE)) ≠ 0 := by
  rcases Nat.exists_eq_succ_of_ne_zero (show min n (ip.size.toNat - off) ≠ 0 by omega) with ⟨count, isCount⟩
  rw [readi_eq notDev isCount.symm (Nat.le_of_lt inside) noWrap, Inode.copyOut,
    if_pos (Nat.succ_pos count)] at read
  rcases Option.map_eq_some_iff.1 read with ⟨⟨bytes, ip₁, device₁⟩, copied, isResult⟩
  have sameInode : ip₁ = ip' := congrArg (fun result => result.2.1) isResult
  have sameDevice : device₁ = after := congrArg (fun result => result.2.2) isResult
  subst sameInode sameDevice
  rcases Option.bind_eq_some_iff.1 copied with ⟨⟨b, ip₂, middle⟩, mapped, rest⟩
  rcases Option.bind_eq_some_iff.1 rest with ⟨⟨more, ip₃, device₃⟩, copiedRest, isLast⟩
  cases isLast
  rcases bmap_filled valid metadata placed mapped with ⟨filled, isAddr, nonzero⟩
  have positive := @chunk_pos off count.succ 0 (Nat.succ_pos count)
  rcases copyOut_filled valid (filled.extended.metadata valid metadata) filled.extended.placed (by omega)
    copiedRest with ⟨filledRest, _⟩
  rw [← isAddr] at nonzero
  rw [filledRest.extended.grows _ nonzero]
  exact nonzero

end Read

/-! ## Writing -/

section Inodes

variable {sb : Superblock} {device : Device} {dip dip' : Dinode} {inum : ℕ} {place : Option ℕ}
  (valid : sb.Valid) (isInode : inum < sb.ninodes) (placed : dip.Placed sb device)

include valid isInode placed

theorem addr_setDinode :
    dip.addr (device.setDinode sb inum dip').block place = dip.addr device.block place := by
  apply Dinode.addr_congr rfl
  intro present i _
  rw [Device.block_setDinode valid isInode (placed.indirect present).1]

theorem Dinode.Placed.setDinode : dip.Placed sb (device.setDinode sb inum dip') where
  used := by
    intro place present
    rw [addr_setDinode valid isInode placed] at present ⊢
    rw [Device.inUse_setDinode valid isInode]
    exact placed.used place present
  distinct := by
    intro place other present same
    rw [addr_setDinode valid isInode placed] at present
    rw [addr_setDinode valid isInode placed, addr_setDinode valid isInode placed] at same
    exact placed.distinct place other present same

theorem byteAt_setDinode {i : ℕ} :
    dip.byteAt (device.setDinode sb inum dip').block i = dip.byteAt device.block i := by
  rw [Dinode.byteAt, Dinode.byteAt, addr_setDinode valid isInode placed]
  by_cases hole : dip.addr device.block (some (i / BSIZE)) = 0
  · rw [if_pos hole, if_pos hole]
  · rw [if_neg hole, if_neg hole, Device.block_setDinode valid isInode (placed.used _ hole).1]

end Inodes

section Write

variable {sb : Superblock} {device after : Device} {ip ip' : Inode} {off n : ℕ} {src : ℕ → UInt8}
  {devsw : Devsw} (notDev : ip.type ≠ T_DEV)

include notDev

theorem writei_eq (inside : off ≤ ip.size.toNat) (fits : off + n ≤ MAXFILE * BSIZE) :
    ip.writei sb devsw src off n device = (Inode.copyIn sb src n n 0 off ip device).map
      fun (ip, device) => (toInt n, Inode.writeEnd sb n (off + n) ip device) := by
  have noWrap : (off + n) % 2 ^ 32 = off + n := by
    simp only [MAXFILE, NDIRECT, NINDIRECT, BSIZE] at fits
    omega
  have accepted : ¬(ip.size.toNat < off ∨ (off + n) % 2 ^ 32 < off) := by omega
  have short : ¬MAXFILE * BSIZE < (off + n) % 2 ^ 32 := by omega
  simp only [Inode.writei, if_neg notDev, if_neg accepted, if_neg short, Option.map_eq_bind]
  rfl

theorem writei_refused (isUint : off < 2 ^ 32 ∧ n < 2 ^ 32)
    (refused : ip.size.toNat < off ∨ MAXFILE * BSIZE < off + n) :
    ip.writei sb devsw src off n device = some (-1, ip, device) := by
  by_cases early : ip.size.toNat < off ∨ (off + n) % 2 ^ 32 < off
  · simp only [Inode.writei, if_neg notDev, if_pos early]
  · have long : MAXFILE * BSIZE < (off + n) % 2 ^ 32 := by omega
    simp only [Inode.writei, if_neg notDev, if_neg early, if_pos long]

end Write

/-- What `writei` leaves behind: a range of the contents has been written, and the inode is stored on
disk if its size has changed. -/
structure Wrote (sb : Superblock) (device : Device) (ip : Inode) (off n : ℕ) (src : ℕ → UInt8)
    (after : Device) (ip' : Inode) : Prop where
  extended : Extends sb device ip.toDinode after ip'.toDinode
  bytes : ∀ i, ip'.byteAt after.block i =
    if off ≤ i ∧ i < off + n then src (i - off) else ip.byteAt device.block i
  present : ∀ i, off ≤ i → i < off + n → ip'.addr after.block (some (i / BSIZE)) ≠ 0
  only : ∀ place, ip.addr device.block place = 0 → ip'.addr after.block place ≠ 0 → place ∈ places off n
  same : ∃ addrs size, ip' = { ip with addrs := addrs, size := size }
  size : ip'.size.toNat = if n = 0 then ip.size.toNat else max ip.size.toNat (off + n)
  others : ∀ inum < sb.ninodes, inum ≠ ip.inum → after.dinode sb inum = device.dinode sb inum
  own : after.dinode sb ip.inum = ip'.toDinode ∨
    ip'.size = ip.size ∧ after.dinode sb ip.inum = device.dinode sb ip.inum

section Wrote

variable {sb : Superblock} {device middle after : Device} {ip ip₁ ip' : Inode} {off n : ℕ}
  {src : ℕ → UInt8}

theorem Extends.setDinode {dip dip' dip'' : Dinode} {inum : ℕ}
    (extended : Extends sb device dip middle dip') (valid : sb.Valid) (isInode : inum < sb.ninodes)
    (sameAddrs : dip''.addrs = dip'.addrs) :
    Extends sb device dip (middle.setDinode sb inum dip'') dip'' := by
  have sameAddr : ∀ place, dip''.addr (middle.setDinode sb inum dip'').block place =
      dip'.addr middle.block place := by
    intro place
    rw [← addr_setDinode valid isInode extended.placed]
    exact Dinode.addr_congr sameAddrs (fun _ _ _ => rfl) place
  apply extended.trans (.of_same extended.placed sameAddr _ _)
  · exact fun c _ => Device.inUse_setDinode valid isInode
  · exact fun x isData _ => Device.block_setDinode valid isInode isData

theorem writeEnd_wrote (valid : sb.Valid) (isInode : ip.inum < sb.ninodes)
    (fits : off + n ≤ MAXFILE * BSIZE) (written : Written sb device ip off n src middle ip₁)
    (isEnd : Inode.writeEnd sb n (off + n) ip₁ middle = (ip', after)) :
    Wrote sb device ip off n src after ip' := by
  rcases written.same with ⟨addrs, isIp⟩
  have sameSize : ip₁.size = ip.size := by rw [isIp]
  have sameInum : ip₁.inum = ip.inum := by rw [isIp]
  unfold Inode.writeEnd at isEnd
  split at isEnd
  · rename_i grows
    rcases Prod.mk.inj isEnd with ⟨rfl, rfl⟩
    have isNat : (UInt32.ofNat (off + n)).toNat = off + n := by
      simp only [MAXFILE, NDIRECT, NINDIRECT, BSIZE] at fits
      rw [UInt32.toNat_ofNat', Nat.mod_eq_of_lt (by omega)]
    rw [sameSize] at grows
    have isInode₁ : ip₁.inum < sb.ninodes := by rw [sameInum]; exact isInode
    constructor
    · exact written.extended.setDinode valid isInode₁ rfl
    · intro i
      rw [← written.bytes]
      exact byteAt_setDinode valid isInode₁ written.extended.placed
    · intro i start stop isZero
      apply written.present i start stop
      rw [← addr_setDinode valid isInode₁ written.extended.placed]
      exact isZero
    · intro place hole isNew
      apply written.only place hole
      rw [← addr_setDinode valid isInode₁ written.extended.placed]
      exact isNew
    · exact ⟨addrs, UInt32.ofNat (off + n), by rw [isIp]⟩
    · rw [if_neg (by omega), isNat]
      omega
    · intro inum inRange other
      rw [Inode.iupdate, Device.dinode_setDinode_of_ne (by rw [sameInum]; exact other)]
      exact written.inodes inum inRange
    · left
      rw [← sameInum]
      exact Device.dinode_setDinode
  · rename_i stays
    rcases Prod.mk.inj isEnd with ⟨rfl, rfl⟩
    rw [sameSize] at stays
    constructor
    · exact written.extended
    · exact written.bytes
    · exact written.present
    · exact written.only
    · exact ⟨addrs, ip.size, isIp⟩
    · rw [sameSize]
      split <;> omega
    · exact fun inum inRange _ => written.inodes inum inRange
    · exact Or.inr ⟨sameSize, written.inodes _ isInode⟩

theorem writei_wrote {devsw : Devsw} {r : ℤ} (valid : sb.Valid) (metadata : device.Metadata sb)
    (placed : ip.Placed sb device) (isInode : ip.inum < sb.ninodes) (notDev : ip.type ≠ T_DEV)
    (inside : off ≤ ip.size.toNat) (fits : off + n ≤ MAXFILE * BSIZE)
    (got : ip.writei sb devsw src off n device = some (r, ip', after)) :
    r = n ∧ Wrote sb device ip off n src after ip' := by
  rw [writei_eq notDev inside fits] at got
  rcases Option.map_eq_some_iff.1 got with ⟨⟨ip₁, middle⟩, copied, result⟩
  rcases Prod.mk.inj result with ⟨rfl, isEnd⟩
  have written := copyIn_written valid metadata placed (Nat.sub_le n 0) copied
  simp only [Nat.sub_zero, Nat.zero_add] at written
  exact ⟨toInt_small (by omega), writeEnd_wrote valid isInode fits written isEnd⟩

end Wrote

/-! ## A disk without free blocks -/

/-- The disk has run out of blocks while blocks were added to an inode. -/
def Exhausted (sb : Superblock) (device : Device) (dip : Dinode) : Prop :=
  ∃ after dip', Extends sb device dip after dip' ∧ after.balloc sb = none

section Exhausted

variable {sb : Superblock} {device middle : Device} {ip : Inode}

theorem Extends.exhausted {dip dip' : Dinode} (extended : Extends sb device dip middle dip')
    (exhausted : Exhausted sb middle dip') : Exhausted sb device dip := by
  rcases exhausted with ⟨after, last, later, full⟩
  exact ⟨after, last, extended.trans later, full⟩

theorem bmapAddr_none {i : Fin (NDIRECT + 1)} (panics : ip.bmapAddr sb i device = none) :
    device.balloc sb = none := by
  unfold Inode.bmapAddr at panics
  split at panics
  · exact Option.map_eq_none_iff.1 panics
  · contradiction

theorem not_exhausted_of_card {dip : Dinode} (free : Finset ℕ) (enough : MAXFILE + 1 < free.card)
    (isFree : ∀ b ∈ free, b ≠ 0 ∧ b < sb.size ∧ device.inUse sb b = false) :
    ¬Exhausted sb device dip := by
  rintro ⟨after, dip', extended, full⟩
  have taken : free ⊆ (insert none ((Finset.range MAXFILE).image some)).image
      (dip'.addr after.block) := by
    intro b mem
    rcases isFree b mem with ⟨nonzero, below, unused⟩
    have isUsed : after.inUse sb b = true := by
      by_contra stillFree
      rcases Device.balloc_isSome below (Bool.eq_false_of_not_eq_true stillFree) with ⟨c, last, got⟩
      rw [full] at got
      contradiction
    rcases (extended.bits b below).1 isUsed with before | ⟨_, place, isPlace⟩
    · rw [unused] at before
      contradiction
    · apply Finset.mem_image.2 ⟨place, ?_, isPlace⟩
      cases place with
      | none => exact Finset.mem_insert_self ..
      | some bn =>
          apply Finset.mem_insert_of_mem
          apply Finset.mem_image_of_mem
          apply Finset.mem_range.2
          by_contra large
          rw [Dinode.addr_of_large (Nat.not_lt.1 large)] at isPlace
          exact nonzero isPlace.symm
  have bound : free.card ≤ MAXFILE + 1 :=
    calc free.card
      _ ≤ ((insert none ((Finset.range MAXFILE).image some)).image (dip'.addr after.block)).card :=
        Finset.card_le_card taken
      _ ≤ (insert none ((Finset.range MAXFILE).image some)).card := Finset.card_image_le
      _ ≤ ((Finset.range MAXFILE).image some).card + 1 := Finset.card_insert_le ..
      _ ≤ MAXFILE + 1 := by
        apply Nat.add_le_add_right
        exact Nat.le_trans Finset.card_image_le (Nat.le_of_eq (Finset.card_range _))
  omega

end Exhausted

end Xv6
