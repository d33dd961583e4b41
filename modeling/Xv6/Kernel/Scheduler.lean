import Xv6.Kernel.Code

/-!
# The choice of the scheduler

`roundrobin`, `lcfs` and `bestjobfirst` of `proc.c`, and which process `scheduler` takes. The
ranks of `bestjobfirst` are exact.
-/

namespace Xv6

variable {Sub : Type} {kern : Kern Sub} {slot other last : Slot} {queue : ℤ}

/-- An `int` converted to `float`: 24 significant bits, halves to the even neighbour. -/
def toFloat (n : ℤ) : ℤ :=
  let unit : ℤ := 2 ^ (n.natAbs.log2 - 23)
  let below := n / unit
  let rest := 2 * (n % unit)
  if rest < unit ∨ rest = unit ∧ below % 2 = 0 then below * unit else (below + 1) * unit

def tenth : ℚ := 13421773 / 2 ^ 27

def bjfrank (proc : Proc) : ℚ :=
  proc.scheduleStatus.priority * proc.scheduleStatus.priorityRatio +
    proc.scheduleStatus.arrivalTime * proc.scheduleStatus.arrivalTimeRatio +
    proc.scheduleStatus.executedCycle * tenth * proc.scheduleStatus.executedCycleRatio

namespace Kern

/-- The process is `RUNNABLE` and in this queue. -/
def Waits (kern : Kern Sub) (queue : ℤ) (slot : Slot) : Prop :=
  (kern.proc slot).state = .runnable ∧ (kern.proc slot).scheduleStatus.queueId = queue

instance (kern : Kern Sub) (queue : ℤ) (slot : Slot) : Decidable (kern.Waits queue slot) :=
  inferInstanceAs (Decidable (_ ∧ _))

/-- The loop of `roundrobin`. It comes back to where it began after `NPROC` turns. -/
def roundrobinLoop (kern : Kern Sub) (lastScheduledIdx : Slot) : ℕ → Slot → Option Slot
  | 0, _ => none
  | turns + 1, i =>
      let i := i + 1
      if kern.Waits ROUND_ROBIN i then some i
      else if i = lastScheduledIdx then none
      else roundrobinLoop kern lastScheduledIdx turns i

def roundrobin (kern : Kern Sub) (lastScheduledIdx : Slot) : Option Slot :=
  kern.roundrobinLoop lastScheduledIdx NPROC lastScheduledIdx

/-- The loops of `lcfs` and `bestjobfirst`: the process found so far is replaced by one that is
better. -/
def scan (kern : Kern Sub) (queue : ℤ) (better : Proc → Proc → Bool) : Option Slot :=
  (List.finRange NPROC).foldl (fun result p =>
    if kern.Waits queue p then
      match result with
      | none => some p
      | some best => if better (kern.proc p) (kern.proc best) then some p else some best
    else result) none

def lcfs (kern : Kern Sub) : Option Slot :=
  kern.scan LCFS fun p result =>
    toFloat p.scheduleStatus.arrivalTime > toFloat result.scheduleStatus.arrivalTime

def bestjobfirst (kern : Kern Sub) : Option Slot :=
  kern.scan BJF fun p result => bjfrank p < bjfrank result

/-- The process that `scheduler` switches to. -/
def choose (kern : Kern Sub) (lastScheduledIdx : Slot) : Option Slot :=
  match kern.roundrobin lastScheduledIdx with
  | some idx => some idx
  | none =>
      match kern.lcfs with
      | some p => some p
      | none => kern.bestjobfirst

end Kern

/-! ## Round robin -/

/-- The number of slots that `roundrobin` looks at before this one. -/
def turnsTo (last slot : Slot) : ℕ := (slot.val + NPROC - 1 - last.val) % NPROC

theorem turnsTo_lt : turnsTo last slot < NPROC := Nat.mod_lt _ (by decide)

theorem turnsTo_self : turnsTo last last = NPROC - 1 := by
  simp only [turnsTo, NPROC]
  omega

theorem turnsTo_next : turnsTo last (last + 1) = 0 := by
  simp only [turnsTo, NPROC, Fin.val_add]
  omega

theorem turnsTo_succ (different : slot ≠ last) :
    turnsTo last (slot + 1) = turnsTo last slot + 1 := by
  have unequal : slot.val ≠ last.val := fun same => different (Fin.ext same)
  simp only [turnsTo, NPROC, Fin.val_add]
  omega

theorem eq_of_turnsTo (same : turnsTo last slot = turnsTo last other) : slot = other := by
  have bound := slot.isLt
  have otherBound := other.isLt
  simp only [turnsTo, NPROC] at same bound otherBound
  ext
  omega

theorem turnsTo_add (before : turnsTo last slot < turnsTo last other) :
    turnsTo last slot + 1 + turnsTo slot other = turnsTo last other := by
  simp only [turnsTo, NPROC] at before ⊢
  omega

theorem turnsTo_add_lt (before : turnsTo last slot + 1 + turnsTo slot other < NPROC) :
    turnsTo last other = turnsTo last slot + 1 + turnsTo slot other := by
  have bound := slot.isLt
  have otherBound := other.isLt
  have lastBound := last.isLt
  simp only [turnsTo, NPROC] at before bound otherBound lastBound ⊢
  omega

/-- `found` is the first process that waits in round robin, counted from the last one. -/
def Kern.FirstAfter (kern : Kern Sub) (last : Slot) (found : Option Slot) : Prop :=
  (found = none → ∀ slot, ¬kern.Waits ROUND_ROBIN slot) ∧
    ∀ slot, found = some slot → kern.Waits ROUND_ROBIN slot ∧
      ∀ other, kern.Waits ROUND_ROBIN other → turnsTo last slot ≤ turnsTo last other

theorem Kern.roundrobinLoop_spec {turns : ℕ} {i : Slot}
    (position : turnsTo last (i + 1) + turns = NPROC)
    (passed : ∀ other, kern.Waits ROUND_ROBIN other → turnsTo last (i + 1) ≤ turnsTo last other) :
    kern.FirstAfter last (kern.roundrobinLoop last turns i) := by
  induction turns generalizing i with
  | zero =>
      have bound : turnsTo last (i + 1) < NPROC := turnsTo_lt
      omega
  | succ turns ih =>
      simp only [roundrobinLoop]
      split
      · rename_i waits
        refine ⟨by simp, ?_⟩
        rintro slot ⟨⟩
        exact ⟨waits, passed⟩
      · rename_i notWaits
        have others : ∀ other, kern.Waits ROUND_ROBIN other →
            turnsTo last (i + 1) < turnsTo last other := by
          intro other waits
          apply lt_of_le_of_ne (passed other waits)
          intro same
          rw [eq_of_turnsTo same] at notWaits
          exact notWaits waits
        split
        · rename_i isLast
          refine ⟨fun _ other waits => ?_, by simp⟩
          have beyond := others other waits
          have bound : turnsTo last other < NPROC := turnsTo_lt
          rw [isLast, turnsTo_self] at beyond
          omega
        · rename_i notLast
          have next := turnsTo_succ notLast
          apply ih
          · omega
          · intro other waits
            have beyond := others other waits
            omega

theorem Kern.roundrobin_spec (kern : Kern Sub) (last : Slot) :
    kern.FirstAfter last (kern.roundrobin last) := by
  apply Kern.roundrobinLoop_spec
  · rw [turnsTo_next, Nat.zero_add]
  · intro other _
    rw [turnsTo_next]
    exact Nat.zero_le _

/-! ## The scans of the table -/

/-- The processes that wait in a queue, in the order of the table. -/
def Kern.waiting (kern : Kern Sub) (queue : ℤ) : List Slot :=
  (List.finRange NPROC).filter fun slot => kern.Waits queue slot

theorem Kern.mem_waiting : slot ∈ kern.waiting queue ↔ kern.Waits queue slot := by
  simp [waiting]

theorem Kern.waiting_sorted : (kern.waiting queue).Pairwise (· < ·) :=
  (List.pairwise_lt_finRange NPROC).filter _

theorem Kern.scan_eq_argmin {Key : Type} [LinearOrder Key] (key : Proc → Key) :
    (kern.scan queue fun p result => key p < key result) =
      (kern.waiting queue).argmin fun slot => key (kern.proc slot) := by
  rw [List.argmin, waiting, List.foldl_filter, scan]
  congr 1
  funext result p
  by_cases waits : kern.Waits queue p
  · cases result with
    | none | some => simp [waits, List.argAux]
  · simp [waits]

theorem Kern.scan_spec {Key : Type} [LinearOrder Key] (key : Proc → Key) :
    ((kern.scan queue fun p result => key p < key result) = none →
        ∀ slot, ¬kern.Waits queue slot) ∧
      ∀ slot, (kern.scan queue fun p result => key p < key result) = some slot →
        kern.Waits queue slot ∧ ∀ other, kern.Waits queue other →
          key (kern.proc slot) ≤ key (kern.proc other) ∧
            (key (kern.proc other) ≤ key (kern.proc slot) → slot ≤ other) := by
  rw [scan_eq_argmin]
  refine ⟨fun isNone slot waits => ?_, fun slot isSome => ?_⟩
  · have mem := mem_waiting.mpr waits
    rw [List.argmin_eq_none.mp isNone] at mem
    exact List.not_mem_nil mem
  · rcases List.mem_argmin_iff.mp isSome with ⟨mem, least, first⟩
    refine ⟨mem_waiting.mp mem, fun other waits => ⟨least other (mem_waiting.mpr waits), ?_⟩⟩
    intro alsoLeast
    have before := first other (mem_waiting.mpr waits) alsoLeast
    have bound := List.idxOf_lt_length_of_mem mem
    have otherBound := List.idxOf_lt_length_of_mem (mem_waiting.mpr waits)
    have ordered : (kern.waiting queue).Pairwise (· < ·) := waiting_sorted
    rcases lt_or_eq_of_le before with earlier | same
    · have less := List.pairwise_iff_getElem.mp ordered _ _ bound otherBound earlier
      simpa using less.le
    · exact (List.idxOf_inj mem).mp same |>.le

/-- The arrival time of a process, as `lcfs` compares it. -/
def Kern.arrival (kern : Kern Sub) (slot : Slot) : ℤ :=
  toFloat (kern.proc slot).scheduleStatus.arrivalTime

theorem Kern.lcfs_spec : (kern.lcfs = none → ∀ slot, ¬kern.Waits LCFS slot) ∧
    ∀ slot, kern.lcfs = some slot → kern.Waits LCFS slot ∧ ∀ other, kern.Waits LCFS other →
      kern.arrival other ≤ kern.arrival slot ∧
        (kern.arrival slot ≤ kern.arrival other → slot ≤ other) := by
  have isScan : kern.lcfs = kern.scan LCFS fun p result =>
      -toFloat p.scheduleStatus.arrivalTime < -toFloat result.scheduleStatus.arrivalTime := by
    simp [lcfs]
  rw [isScan]
  rcases scan_spec fun p : Proc => -toFloat p.scheduleStatus.arrivalTime with ⟨none, found⟩
  simp only [neg_le_neg_iff] at found
  exact ⟨none, found⟩

/-- `lcfs` takes the lowest of the slots with the greatest arrival time. -/
theorem Kern.lcfs_lowest_slot : kern.lcfs = some slot ↔ kern.Waits LCFS slot ∧
    ∀ other, kern.Waits LCFS other → kern.arrival other ≤ kern.arrival slot ∧
      (kern.arrival other = kern.arrival slot → slot ≤ other) := by
  rcases kern.lcfs_spec with ⟨none, found⟩
  constructor
  · intro isFound
    rcases found slot isFound with ⟨waits, last⟩
    refine ⟨waits, fun other otherWaits => ⟨(last other otherWaits).1, ?_⟩⟩
    exact fun same => (last other otherWaits).2 same.ge
  · rintro ⟨waits, last⟩
    cases isFound : kern.lcfs with
    | none => exact absurd waits (none isFound slot)
    | some first =>
        rcases found first isFound with ⟨firstWaits, best⟩
        have same := (best slot waits).1.antisymm (last first firstWaits).1
        have before := (last first firstWaits).2 same.symm
        exact congrArg some (((best slot waits).2 same.ge).antisymm before)

/-- A number rounded to a multiple of a unit, and to an even one of two that are as near. -/
def roundTo (unit n : ℤ) : ℤ :=
  if 2 * (n % unit) < unit ∨ 2 * (n % unit) = unit ∧ n / unit % 2 = 0 then n / unit * unit
  else (n / unit + 1) * unit

theorem toFloat_eq (n : ℤ) : toFloat n = roundTo (2 ^ (n.natAbs.log2 - 23)) n := rfl

theorem roundTo_mono {unit a b : ℤ} (positive : 0 < unit) (le : a ≤ b) :
    roundTo unit a ≤ roundTo unit b := by
  rcases (Int.ediv_le_ediv positive le).eq_or_lt with same | less
  · have remainder : a % unit ≤ b % unit := by
      have isA := Int.mul_ediv_add_emod a unit
      have isB := Int.mul_ediv_add_emod b unit
      rw [same] at isA
      omega
    simp only [roundTo, same]
    split_ifs with first second second
    · exact le_rfl
    · exact mul_le_mul_of_nonneg_right (by omega) positive.le
    · omega
    · exact le_rfl
  · simp only [roundTo]
    split_ifs <;> exact mul_le_mul_of_nonneg_right (by omega) positive.le

/-- Rounding does not lead past a power of two. -/
theorem toFloat_bounds {n : ℤ} (nonneg : 0 ≤ n) :
    (n ≠ 0 → 2 ^ n.natAbs.log2 ≤ toFloat n) ∧ toFloat n ≤ 2 ^ (n.natAbs.log2 + 1) := by
  obtain ⟨unit, isUnit⟩ : ∃ unit : ℤ, unit = 2 ^ (n.natAbs.log2 - 23) := ⟨_, rfl⟩
  have positive : 0 < unit := isUnit ▸ by positivity
  have power : ∀ k ≥ n.natAbs.log2, roundTo unit (2 ^ k) = 2 ^ k := by
    intro k above
    rcases isUnit ▸ pow_dvd_pow (2 : ℤ) (by omega : n.natAbs.log2 - 23 ≤ k) with ⟨times, isTimes⟩
    rw [isTimes, roundTo, Int.mul_emod_right, Int.mul_ediv_cancel_left _ positive.ne']
    simp [positive, mul_comm]
  rw [toFloat_eq, ← isUnit, ← power (n.natAbs.log2 + 1) (Nat.le_succ _)]
  refine ⟨?_, roundTo_mono positive ?_⟩
  · intro notZero
    have low := Nat.log2_self_le (n := n.natAbs) (by omega)
    rw [← power _ le_rfl]
    apply roundTo_mono positive
    zify at low
    rwa [abs_of_nonneg nonneg] at low
  · have high := Nat.lt_log2_self (n := n.natAbs)
    zify at high
    rw [abs_of_nonneg nonneg] at high
    exact high.le

theorem toFloat_mono {a b : ℤ} (nonneg : 0 ≤ a) (le : a ≤ b) : toFloat a ≤ toFloat b := by
  have logs : a.natAbs.log2 ≤ b.natAbs.log2 := by
    rw [Nat.log2_eq_log_two, Nat.log2_eq_log_two]
    exact Nat.log_mono_right (by omega)
  rcases logs.eq_or_lt with same | less
  · rw [toFloat_eq, toFloat_eq, same]
    exact roundTo_mono (by positivity) le
  · have notZero : b ≠ 0 := by
      rintro rfl
      exact absurd less (Nat.not_lt_zero _)
    calc toFloat a ≤ 2 ^ (a.natAbs.log2 + 1) := (toFloat_bounds nonneg).2
      _ ≤ 2 ^ b.natAbs.log2 := pow_le_pow_right₀ (by decide) less
      _ ≤ toFloat b := (toFloat_bounds (nonneg.trans le)).1 notZero

/-- `lcfs` takes the process that came last exactly if none before it in the table has the same
arrival time as a `float`. -/
theorem Kern.lcfs_greatest_iff
    (nonneg : ∀ other, kern.Waits LCFS other → 0 ≤ (kern.proc other).scheduleStatus.arrivalTime)
    (waits : kern.Waits LCFS slot)
    (greatest : ∀ other, kern.Waits LCFS other →
      (kern.proc other).scheduleStatus.arrivalTime ≤ (kern.proc slot).scheduleStatus.arrivalTime) :
    kern.lcfs = some slot ↔
      ∀ other < slot, kern.Waits LCFS other → kern.arrival other ≠ kern.arrival slot := by
  rcases kern.lcfs_spec with ⟨none, found⟩
  constructor
  · intro isFound other before otherWaits same
    exact absurd (((found slot isFound).2 other otherWaits).2 same.ge) (not_le.mpr before)
  · intro first
    cases isFound : kern.lcfs with
    | none => exact absurd waits (none isFound slot)
    | some best =>
        rcases found best isFound with ⟨bestWaits, last⟩
        have same := (toFloat_mono (nonneg best bestWaits) (greatest best bestWaits)).antisymm
          (last slot waits).1
        rcases ((last slot waits).2 same.le).eq_or_lt with rfl | before
        · rfl
        · exact absurd same (first best before bestWaits)

/-- Two processes in the queue of `lcfs`, with their arrival times. -/
def twoArrivals (first second : ℤ) : Kern Unit where
  proc := fun slot =>
    if slot = 0 then
      { Proc.empty with
        state := .runnable
        scheduleStatus := { SchedStat.fresh with queueId := LCFS, arrivalTime := first } }
    else if slot = 1 then
      { Proc.empty with
        state := .runnable
        scheduleStatus := { SchedStat.fresh with queueId := LCFS, arrivalTime := second } }
    else Proc.empty
  initproc := 0
  nextpid := 3
  ticks := 0
  freePages := []
  sub := ()

theorem Kern.lcfs_greatest_second : (twoArrivals 5 (2 ^ 24 + 2)).lcfs = some 1 :=
  (lcfs_greatest_iff (by decide) (by decide) (by decide)).mpr (by decide +kernel)

/-- The later one of two arrivals is not taken: as a `float` it is the same. -/
theorem Kern.lcfs_rounds_down : (twoArrivals (2 ^ 24) (2 ^ 24 + 1)).lcfs = some 0 := by
  decide +kernel

theorem Kern.bestjobfirst_spec : (kern.bestjobfirst = none → ∀ slot, ¬kern.Waits BJF slot) ∧
    ∀ slot, kern.bestjobfirst = some slot → kern.Waits BJF slot ∧
      ∀ other, kern.Waits BJF other → bjfrank (kern.proc slot) ≤ bjfrank (kern.proc other) ∧
        (bjfrank (kern.proc other) ≤ bjfrank (kern.proc slot) → slot ≤ other) :=
  scan_spec bjfrank

/-! ## The choice -/

/-- The number of a queue that processes are put in. -/
def IsQueue (queue : ℤ) : Prop := queue = ROUND_ROBIN ∨ queue = LCFS ∨ queue = BJF

instance (queue : ℤ) : Decidable (IsQueue queue) := inferInstanceAs (Decidable (_ ∨ _))

/-- The process is the right one to switch to: no queue that comes first has a process that
waits, and in its own queue it comes first. -/
structure Kern.RightChoice (kern : Kern Sub) (last slot : Slot) : Prop where
  runnable : (kern.proc slot).state = .runnable
  queue : IsQueue (kern.proc slot).scheduleStatus.queueId
  highest : ∀ other, (kern.proc other).state = .runnable →
    (kern.proc slot).scheduleStatus.queueId ≤ (kern.proc other).scheduleStatus.queueId
  nextInTurn : kern.Waits ROUND_ROBIN slot → ∀ other, kern.Waits ROUND_ROBIN other →
    turnsTo last slot ≤ turnsTo last other
  bestJob : kern.Waits BJF slot → ∀ other, kern.Waits BJF other →
    bjfrank (kern.proc slot) ≤ bjfrank (kern.proc other) ∧
      (bjfrank (kern.proc other) ≤ bjfrank (kern.proc slot) → slot ≤ other)

section

variable
  (queued : ∀ slot, (kern.proc slot).state = .runnable → IsQueue (kern.proc slot).scheduleStatus.queueId)

include queued

/-- A process that waits in a queue is the right one, if nobody waits in a queue before that and
it is the right one there. -/
theorem Kern.RightChoice.of_waits (waits : kern.Waits queue slot)
    (highest : ∀ other higher, kern.Waits higher other → IsQueue higher → queue ≤ higher)
    (nextInTurn : queue = ROUND_ROBIN → ∀ other, kern.Waits ROUND_ROBIN other →
      turnsTo last slot ≤ turnsTo last other)
    (bestJob : queue = BJF → ∀ other, kern.Waits BJF other →
      bjfrank (kern.proc slot) ≤ bjfrank (kern.proc other) ∧
        (bjfrank (kern.proc other) ≤ bjfrank (kern.proc slot) → slot ≤ other)) :
    kern.RightChoice last slot where
  runnable := waits.1
  queue := queued slot waits.1
  highest := by
    intro other runs
    rw [waits.2]
    exact highest other _ ⟨runs, rfl⟩ (queued other runs)
  nextInTurn := fun here => nextInTurn (waits.2.symm.trans here.2)
  bestJob := fun here => bestJob (waits.2.symm.trans here.2)

/-- With every process that can run in a queue, `scheduler` finds one if there is one, and it is
the right one. -/
theorem Kern.choose_spec (last : Slot) :
    (kern.choose last = none ↔ ∀ slot, (kern.proc slot).state ≠ .runnable) ∧
      ∀ slot, kern.choose last = some slot → kern.RightChoice last slot := by
  rcases kern.roundrobin_spec last with ⟨noTurn, inTurn⟩
  rcases kern.lcfs_spec with ⟨noLast, lastCome⟩
  rcases kern.bestjobfirst_spec with ⟨noJob, bestJob⟩
  simp only [choose]
  split
  · rename_i idx found
    rcases inTurn idx found with ⟨waits, first⟩
    refine ⟨⟨by simp, fun none => absurd waits.1 (none idx)⟩, ?_⟩
    rintro slot ⟨⟩
    apply RightChoice.of_waits queued waits
    · rintro other higher _ (rfl | rfl | rfl) <;> decide
    · exact fun _ => first
    · intro isBjf
      contradiction
  · rename_i noneInTurn
    have empty := noTurn noneInTurn
    split
    · rename_i p found
      have waits := (lastCome p found).1
      refine ⟨⟨by simp, fun none => absurd waits.1 (none p)⟩, ?_⟩
      rintro slot ⟨⟩
      apply RightChoice.of_waits queued waits
      · rintro other higher elsewhere (rfl | rfl | rfl)
        · exact absurd elsewhere (empty other)
        · exact le_rfl
        · decide
      · intro isTurn
        contradiction
      · intro isBjf
        contradiction
    · rename_i noneLast
      have alsoEmpty := noLast noneLast
      refine ⟨⟨?_, ?_⟩, ?_⟩
      · intro noneBest slot runs
        rcases queued slot runs with isTurn | isLast | isBjf
        · exact empty slot ⟨runs, isTurn⟩
        · exact alsoEmpty slot ⟨runs, isLast⟩
        · exact noJob noneBest slot ⟨runs, isBjf⟩
      · intro none
        cases found : kern.bestjobfirst with
        | none => rfl
        | some p => exact absurd (bestJob p found).1.1 (none p)
      · intro slot found
        rcases bestJob slot found with ⟨waits, best⟩
        apply RightChoice.of_waits queued waits
        · rintro other higher elsewhere (rfl | rfl | rfl)
          · exact absurd elsewhere (empty other)
          · exact absurd elsewhere (alsoEmpty other)
          · exact le_rfl
        · intro isTurn
          contradiction
        · exact fun _ => best

end

end Xv6
