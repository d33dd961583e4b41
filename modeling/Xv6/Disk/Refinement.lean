import Xv6.Disk.Ide
import Xv6.Lib.Linked

/-!
# The driver of the disk refines that of the disk in memory

The requests that have arrived and are not completed are the queue, in the order of their arrival,
and the disk works on its head. A request takes effect for `memide.c` when the interrupt completes
it.
-/

namespace Xv6.Ide

open Transition Function

variable {Data : Type}

/-! ## The invariant -/

namespace Machine

/-- A process waits for a buffer, asleep or woken up. -/
def Waits (machine : Machine Data) (p : Slot) (b : BufId) : Prop :=
  machine.call p = .asleep b ∨ machine.call p = .awake b

/-- What the disk does: nothing if the queue is empty, otherwise it carries out the command for the
head or has raised its interrupt. -/
def Works (machine : Machine Data) : List BufId → Prop
  | [] => machine.controller.command = none ∧ machine.controller.irq = false
  | b :: _ =>
      machine.started = some b ∧
        (machine.controller.command = some (machine.buf b).command ∧ machine.controller.irq = false ∨
          machine.controller.command = none ∧ machine.controller.irq = true ∧
            ((machine.buf b).dirty = false →
              machine.controller.port = some (machine.disks 1 (machine.buf b).blockno)))

structure Inv (machine : Machine Data) (queue : List BufId) : Prop where
  linked : Linked machine.qnext machine.idequeue queue
  nodup : queue.Nodup
  present : machine.havedisk1 = true
  owned : ∀ p b, machine.current p = some b → (machine.buf b).holder = some p ∧
    (machine.buf b).dev = 1 ∧ (machine.buf b).blockno < FSSIZE
  entering : ∀ p b, machine.call p = .entering b → b ∉ queue ∧ ¬(machine.buf b).Synced
  queued : ∀ b ∈ queue, ¬(machine.buf b).Synced ∧ ∃ p, machine.Waits p b
  asleep : ∀ p b, machine.call p = .asleep b → ¬(machine.buf b).Synced
  waiting : ∀ p b, machine.Waits p b → ¬(machine.buf b).Synced → b ∈ queue
  works : machine.Works queue

end Machine

/-! ## The relation to memide.c -/

/-- Where a process is if its call takes effect with the interrupt. -/
def Machine.progress (machine : Machine Data) (p : Slot) : AtomicCall :=
  match machine.call p with
  | .idle => .idle
  | .entering b => .called b
  | .asleep b | .awake b => if (machine.buf b).Synced then .completed b else .called b

/-- The contents of the disk, from those at the last completion: between the end of a write and its
interrupt the disk is ahead. -/
def Machine.ahead (machine : Machine Data) (memdisk : ℕ → Data) : ℕ → Data :=
  match machine.controller.irq, machine.idequeue with
  | true, some b =>
      if (machine.buf b).dirty then
        Function.update memdisk (machine.buf b).blockno (machine.buf b).data
      else memdisk
  | _, _ => memdisk

/-- The buffers are those of `memide.c`, and so is the disk, up to a write that has no interrupt
yet. -/
structure Refines (machine : Machine Data) (memide : Memide Data) : Prop where
  buf : memide.buf = machine.buf
  size : memide.disksize = FSSIZE
  call : ∀ p, memide.call p = machine.progress p
  disk : machine.disks 1 = machine.ahead memide.memdisk

def observe (machine : Machine Data) : Label Data → Option (AtomicLabel Data)
  | .call p b => some (.call p b)
  | .test p =>
      match machine.call p with
      | .awake b => if (machine.buf b).Synced then some (.return p) else none
      | _ => none
  | .change b buf => some (.change b buf)
  | .intr => machine.idequeue.bind fun b => (machine.buf b).holder.map .complete
  | .append _ | .kill _ | .disk => none

/-- The buffer that a step appends to the queue. -/
def arrival (machine : Machine Data) : Label Data → Option BufId
  | .append p => machine.current p
  | _ => none

/-- The buffer whose request a step completes. -/
def completion (machine : Machine Data) : Label Data → Option BufId
  | .intr => machine.idequeue
  | _ => none

/-- The requests are for blocks of the disk. -/
def OfDisk (machine : Machine Data) : Label Data → Prop
  | .call _ b => (machine.buf b).dev = 1 ∧ (machine.buf b).blockno < FSSIZE
  | _ => True

/-- What a step keeps: the invariant and the relation, with the queue one longer or one shorter. -/
structure Simulates (machine : Machine Data) (queue : List BufId) (memide : Memide Data)
    (label : Label Data) (next : Machine Data) (after : List BufId) (memideAfter : Memide Data) :
    Prop where
  inv : next.Inv after
  refines : Refines next memideAfter
  order : queue ++ (arrival machine label).toList = (completion machine label).toList ++ after
  steps : match observe machine label with
    | none => memideAfter = memide
    | some atomic => atomicStep memide atomic = some memideAfter

section Steps

variable {machine next : Machine Data} {queue : List BufId} {memide : Memide Data} {p q : Slot}
  {b : BufId} {call : Call}

namespace Machine

/-- The buffer of a call is locked by its process, and is for a block of the disk. -/
def Owns (machine : Machine Data) (p : Slot) (b : BufId) : Prop :=
  (machine.buf b).holder = some p ∧ (machine.buf b).dev = 1 ∧ (machine.buf b).blockno < FSSIZE

/-- What the invariant says of one call. -/
def Fits (machine : Machine Data) (queue : List BufId) (p : Slot) : Call → Prop
  | .idle => True
  | .entering b => machine.Owns p b ∧ b ∉ queue ∧ ¬(machine.buf b).Synced
  | .asleep b => machine.Owns p b ∧ b ∈ queue ∧ ¬(machine.buf b).Synced
  | .awake b => machine.Owns p b ∧ (¬(machine.buf b).Synced → b ∈ queue)

theorem Waits.current (waits : machine.Waits p b) : machine.current p = some b := by
  rcases waits with asleep | awake
  · simp [Machine.current, asleep]
  · simp [Machine.current, awake]

theorem Inv.fits (inv : machine.Inv queue) (p : Slot) : machine.Fits queue p (machine.call p) := by
  have owned := inv.owned p
  have waiting := inv.waiting p
  rw [Machine.current] at owned
  simp only [Waits] at waiting
  cases isCall : machine.call p with
  | idle => trivial
  | entering b => exact ⟨owned b (by rw [isCall]), inv.entering p b isCall⟩
  | asleep b =>
      have notSynced := inv.asleep p b isCall
      exact ⟨owned b (by rw [isCall]), waiting b (by simp [isCall]) notSynced, notSynced⟩
  | awake b => exact ⟨owned b (by rw [isCall]), waiting b (by simp [isCall])⟩

theorem Inv.of_fits (linked : Linked machine.qnext machine.idequeue queue) (nodup : queue.Nodup)
    (present : machine.havedisk1 = true) (fits : ∀ p, machine.Fits queue p (machine.call p))
    (queued : ∀ b ∈ queue, ¬(machine.buf b).Synced ∧ ∃ p, machine.Waits p b)
    (works : machine.Works queue) : machine.Inv queue where
  linked := linked
  nodup := nodup
  present := present
  owned := by
    intro p b isCurrent
    have here := fits p
    rw [Machine.current] at isCurrent
    cases isCall : machine.call p with
    | idle => simp [isCall] at isCurrent
    | entering c | asleep c | awake c =>
        have same : c = b := by simpa [isCall] using isCurrent
        rw [isCall, same] at here
        exact here.1
  entering := by
    intro p b isEntering
    have here := fits p
    rw [isEntering] at here
    exact here.2
  queued := queued
  asleep := by
    intro p b isAsleep
    have here := fits p
    rw [isAsleep] at here
    exact here.2.2
  waiting := by
    intro p b waits notSynced
    have here := fits p
    rcases waits with isCall | isCall <;> rw [isCall] at here
    · exact here.2.1
    · exact here.2 notSynced
  works := works

theorem Inv.holder (inv : machine.Inv queue) (mem : b ∈ queue) :
    ∃ p, machine.Waits p b ∧ (machine.buf b).holder = some p := by
  rcases (inv.queued b mem).2 with ⟨p, waits⟩
  exact ⟨p, waits, (inv.owned p b waits.current).1⟩

theorem Inv.elsewhere (inv : machine.Inv queue) (held : (machine.buf b).holder = some p)
    (other : q ≠ p) : machine.current q ≠ some b := by
  intro isCurrent
  have heldToo := (inv.owned q b isCurrent).1
  exact other (by simpa using heldToo.symm.trans held)

theorem ne_of_current {c : BufId} (elsewhere : machine.current q ≠ some b)
    (isCall : machine.call q = .entering c ∨ machine.Waits q c) : c ≠ b := by
  rintro rfl
  apply elsewhere
  rcases isCall with isEntering | waits
  · rw [Machine.current, isEntering]
  · exact waits.current

theorem Inv.fits_elsewhere {after : List BufId} (inv : machine.Inv queue)
    (elsewhere : machine.current q ≠ some b) (sameBuf : ∀ c, c ≠ b → next.buf c = machine.buf c)
    (sameQueue : ∀ c, c ≠ b → (c ∈ after ↔ c ∈ queue)) : next.Fits after q (machine.call q) := by
  have fits := inv.fits q
  cases isCall : machine.call q with
  | idle => trivial
  | entering c =>
      have other := ne_of_current elsewhere (Or.inl isCall)
      simpa only [isCall, Fits, Owns, sameBuf c other, sameQueue c other] using fits
  | asleep c =>
      have other := ne_of_current elsewhere (Or.inr (Or.inl isCall))
      simpa only [isCall, Fits, Owns, sameBuf c other, sameQueue c other] using fits
  | awake c =>
      have other := ne_of_current elsewhere (Or.inr (Or.inr isCall))
      simpa only [isCall, Fits, Owns, sameBuf c other, sameQueue c other] using fits

theorem progress_elsewhere (elsewhere : machine.current q ≠ some b)
    (sameBuf : ∀ c, c ≠ b → next.buf c = machine.buf c) (sameCall : next.call q = machine.call q) :
    next.progress q = machine.progress q := by
  simp only [Machine.progress, sameCall]
  cases isCall : machine.call q with
  | idle | entering c => rfl
  | asleep c => simp only [sameBuf c (ne_of_current elsewhere (Or.inr (Or.inl isCall)))]
  | awake c => simp only [sameBuf c (ne_of_current elsewhere (Or.inr (Or.inr isCall)))]

theorem setCall_self : (machine.setCall p call).call p = call := update_self ..

theorem setCall_of_ne (other : q ≠ p) : (machine.setCall p call).call q = machine.call q :=
  update_of_ne other ..

theorem progress_setCall_of_ne (other : q ≠ p) :
    (machine.setCall p call).progress q = machine.progress q := by
  have same : (machine.setCall p call).buf = machine.buf := rfl
  simp only [Machine.progress, setCall_of_ne other, same]

theorem current_of_progress
    (isProgress : machine.progress p = .called b ∨ machine.progress p = .completed b) :
    machine.current p = some b := by
  rw [Machine.progress] at isProgress
  rw [Machine.current]
  cases isCall : machine.call p with
  | idle => simp [isCall] at isProgress
  | entering c =>
      rw [isCall] at isProgress
      simpa using isProgress
  | asleep c | awake c =>
      rw [isCall] at isProgress
      by_cases synced : (machine.buf c).Synced <;> simpa [synced] using isProgress

theorem ahead_congr {memdisk : ℕ → Data} (sameIrq : next.controller.irq = machine.controller.irq)
    (sameHead : next.idequeue = machine.idequeue)
    (sameBuf : ∀ c, machine.idequeue = some c → machine.buf c = next.buf c) :
    machine.ahead memdisk = next.ahead memdisk := by
  simp only [ahead, sameIrq, sameHead]
  cases machine.controller.irq with
  | false => rfl
  | true =>
      cases isHead : machine.idequeue with
      | none => rfl
      | some c => simp only [sameBuf c isHead]

theorem refuse_none (accepted : machine.refuse p b = none) :
    (machine.buf b).holder = some p ∧ ¬(machine.buf b).Synced := by
  simp only [refuse] at accepted
  split at accepted
  · contradiction
  · rename_i held
    split at accepted
    · contradiction
    · rename_i notSynced
      exact ⟨not_not.1 held, notSynced⟩

theorem Inv.setCall (inv : machine.Inv queue) (fits : machine.Fits queue p call)
    (waits : ∀ c ∈ queue, machine.Waits p c → call = .asleep c ∨ call = .awake c) :
    (machine.setCall p call).Inv queue := by
  refine Inv.of_fits inv.linked inv.nodup inv.present ?_ ?_ inv.works
  · intro q
    by_cases same : q = p
    · subst same
      rw [setCall_self]
      exact fits
    · rw [setCall_of_ne same]
      exact inv.fits q
  · intro c mem
    rcases inv.queued c mem with ⟨notSynced, q, waitsToo⟩
    refine ⟨notSynced, q, ?_⟩
    by_cases same : q = p
    · subst same
      rw [Waits, setCall_self]
      exact waits c mem waitsToo
    · rw [Waits, setCall_of_ne same]
      exact waitsToo

theorem Inv.setWaits (inv : machine.Inv queue) (waits : machine.Waits p b)
    (notSynced : ¬(machine.buf b).Synced) (still : call = .asleep b ∨ call = .awake b) :
    (machine.setCall p call).Inv queue := by
  apply inv.setCall
  · have owned := inv.owned p b waits.current
    have mem := inv.waiting p b waits notSynced
    rcases still with rfl | rfl
    · exact ⟨owned, mem, notSynced⟩
    · exact ⟨owned, fun _ => mem⟩
  · intro c _ waitsToo
    have own : b = c := by simpa using waits.current.symm.trans waitsToo.current
    rw [← own]
    exact still

end Machine

open Machine

theorem Refines.setCall {atomic : AtomicCall} (refines : Refines machine memide)
    (isProgress : (machine.setCall p call).progress p = atomic) :
    Refines (machine.setCall p call)
      { memide with call := update memide.call p atomic } where
  buf := refines.buf
  size := refines.size
  call := by
    intro q
    by_cases same : q = p
    · rw [same, isProgress]
      exact update_self ..
    · rw [progress_setCall_of_ne same, ← refines.call q]
      exact update_of_ne same ..
  disk := refines.disk

theorem Refines.stays (refines : Refines machine memide)
    (same : (machine.setCall p call).progress p = machine.progress p) :
    Refines (machine.setCall p call) memide := by
  have moved := refines.setCall same
  rw [← refines.call p, update_eq_self] at moved
  exact moved

section

variable (inv : machine.Inv queue) (refines : Refines machine memide)

include inv refines

theorem simulates_call (ofDisk : OfDisk machine (.call p b))
    (stepped : step machine (.call p b) = some next) :
    ∃ after memideAfter, Simulates machine queue memide (.call p b) next after memideAfter := by
  simp only [step] at stepped
  split at stepped
  · rename_i enabled
    rcases enabled with ⟨isIdle, accepted⟩
    cases stepped
    rcases refuse_none accepted with ⟨held, notSynced⟩
    have notWaits : ∀ c, ¬machine.Waits p c := by
      intro c waits
      rw [Waits, isIdle] at waits
      simp at waits
    have notQueued : b ∉ queue := by
      intro mem
      rcases inv.holder mem with ⟨q, waits, heldToo⟩
      have same : p = q := by simpa using held.symm.trans heldToo
      subst same
      exact notWaits b waits
    refine ⟨queue, { memide with call := update memide.call p (.called b) }, ?_, ?_, ?_, ?_⟩
    · refine inv.setCall ⟨⟨held, ofDisk⟩, notQueued, notSynced⟩ ?_
      intro c _ waits
      exact absurd waits (notWaits c)
    · exact refines.setCall (by simp [Machine.progress, setCall_self])
    · simp [arrival, completion]
    · have atomicIdle : memide.call p = .idle := by simp [refines.call p, Machine.progress, isIdle]
      simp [observe, atomicStep, atomicIdle]
  · contradiction

theorem simulates_test (stepped : step machine (.test p) = some next) :
    ∃ after memideAfter, Simulates machine queue memide (.test p) next after memideAfter := by
  simp only [step] at stepped
  split at stepped
  · rename_i b awake
    cases stepped
    have waits : machine.Waits p b := Or.inr awake
    by_cases synced : (machine.buf b).Synced
    · have isNext : machine.test p b = machine.setCall p .idle := if_pos synced
      have atomicCall : memide.call p = .completed b := by
        simp [refines.call p, Machine.progress, awake, synced]
      rw [isNext]
      refine ⟨queue, { memide with call := update memide.call p .idle }, ?_, ?_, ?_, ?_⟩
      · refine inv.setCall trivial ?_
        intro c mem waitsToo
        have own : b = c := by simpa using waits.current.symm.trans waitsToo.current
        exact absurd (own ▸ synced) (inv.queued c mem).1
      · exact refines.setCall (by simp [Machine.progress, setCall_self])
      · simp [arrival, completion]
      · simp [observe, awake, synced, atomicStep, atomicCall]
    · have isNext : machine.test p b = machine.setCall p (.asleep b) := if_neg synced
      rw [isNext]
      refine ⟨queue, memide, inv.setWaits waits synced (Or.inl rfl), ?_, ?_, ?_⟩
      · exact refines.stays (by simp [Machine.progress, setCall_self, awake]; rfl)
      · simp [arrival, completion]
      · simp [observe, awake, synced]
  · contradiction

theorem simulates_kill (stepped : step machine (.kill p) = some next) :
    ∃ after memideAfter, Simulates machine queue memide (.kill p) next after memideAfter := by
  simp only [step] at stepped
  split at stepped
  · rename_i b asleep
    cases stepped
    have notSynced := inv.asleep p b asleep
    refine ⟨queue, memide, inv.setWaits (Or.inl asleep) notSynced (Or.inr rfl), ?_, ?_, rfl⟩
    · exact refines.stays (by simp [Machine.progress, setCall_self, asleep]; rfl)
    · simp [arrival, completion]
  · contradiction

end

theorem Machine.Inv.not_queued (inv : machine.Inv queue) (unused : ∀ p, machine.current p ≠ some b) :
    b ∉ queue := by
  intro mem
  rcases (inv.queued b mem).2 with ⟨p, waits⟩
  exact unused p waits.current

theorem simulates_change {buf : Buf Data} (inv : machine.Inv queue) (refines : Refines machine memide)
    (stepped : step machine (.change b buf) = some next) :
    ∃ after memideAfter, Simulates machine queue memide (.change b buf) next after memideAfter := by
  simp only [step] at stepped
  split at stepped
  · rename_i unused
    cases stepped
    have sameBuf : ∀ c, c ≠ b → (machine.modify b fun _ => buf).buf c = machine.buf c :=
      fun c other => update_of_ne other ..
    have inQueue : ∀ c ∈ queue, c ≠ b := by
      rintro c mem rfl
      exact inv.not_queued unused mem
    refine ⟨queue, { memide with buf := update memide.buf b buf }, ?_, ?_, ?_, ?_⟩
    · refine Inv.of_fits inv.linked inv.nodup inv.present ?_ ?_ ?_
      · intro q
        exact inv.fits_elsewhere (unused q) sameBuf fun _ _ => Iff.rfl
      · intro c mem
        rw [sameBuf c (inQueue c mem)]
        exact inv.queued c mem
      · have works := inv.works
        cases queue with
        | nil => exact works
        | cons c rest =>
            simp only [Works, sameBuf c (inQueue c List.mem_cons_self)]
            exact works
    · exact {
        buf := by simp [Machine.modify, refines.buf]
        size := refines.size
        call := fun q => (refines.call q).trans (progress_elsewhere (unused q) sameBuf rfl).symm
        disk := by
          apply refines.disk.trans
          refine ahead_congr (by rfl) (by rfl) ?_
          intro c isHead
          apply (sameBuf c _).symm
          rw [inv.linked.head_eq] at isHead
          exact inQueue c (List.mem_of_head? isHead) }
    · simp [arrival, completion]
    · have free : ∀ q, memide.call q ≠ .called b ∧ memide.call q ≠ .completed b := by
        intro q
        rw [refines.call q]
        constructor
        · intro isCalled
          exact unused q (current_of_progress (Or.inl isCalled))
        · intro isCompleted
          exact unused q (current_of_progress (Or.inr isCompleted))
      simp [observe, atomicStep, free]
  · contradiction

/-! ## The queue -/

theorem Machine.lastLink_eq {fuel : ℕ} {pp : Option BufId}
    (linked : Linked machine.qnext (machine.load pp) queue) (enough : queue.length < fuel) :
    machine.lastLink fuel pp = .ok (queue.getLast?.or pp) := by
  induction queue generalizing fuel pp with
  | nil =>
      rcases fuel with _ | fuel
      · contradiction
      · have isEnd : machine.load pp = none := linked
        simp [lastLink, isEnd]
  | cons b rest ih =>
      rcases fuel with _ | fuel
      · contradiction
      · rw [lastLink, linked.1]
        have fewer : rest.length < fuel := by simpa using enough
        have there : Linked machine.qnext (machine.load (some b)) rest := linked.2
        simp only [ih there fewer]
        cases rest with
        | nil => rfl
        | cons c rest => simp [List.getLast?_cons]

theorem Machine.idestart_eq (inside : (machine.buf b).blockno < FSSIZE)
    (quiet : machine.controller.command = none) :
    machine.idestart (some b) = .ok { machine with
      controller := { machine.controller with command := some (machine.buf b).command }
      started := some b } := by
  simp [idestart, quiet, Nat.not_le.2 inside]

/-- What `iderw` leaves behind when it goes to sleep. -/
structure Appended (machine : Machine Data) (queue : List BufId) (p : Slot) (b : BufId)
    (next : Machine Data) : Prop where
  buf : next.buf = machine.buf
  havedisk1 : next.havedisk1 = machine.havedisk1
  disks : next.disks = machine.disks
  call : next.call = Function.update machine.call p (.asleep b)
  linked : Linked next.qnext next.idequeue (queue ++ [b])
  idle : queue = [] → next.started = some b ∧ next.controller =
    { machine.controller with command := some (machine.buf b).command }
  busy : queue ≠ [] → next.started = machine.started ∧ next.controller = machine.controller

theorem Machine.Inv.append (inv : machine.Inv queue) (isEntering : machine.call p = .entering b) :
    ∃ next, machine.append p b = .ok next ∧ Appended machine queue p b next := by
  have notQueued := (inv.entering p b isEntering).1
  have notSynced := (inv.entering p b isEntering).2
  have inside : (machine.buf b).blockno < FSSIZE :=
    (inv.owned p b (by rw [Machine.current, isEntering])).2.2
  have short : queue.length < NBUF + 1 := by
    have bound := inv.nodup.length_le_card
    rw [Fintype.card_fin] at bound
    omega
  have cut : Linked (update machine.qnext b none) machine.idequeue queue := by
    apply inv.linked.congr
    intro c mem
    apply update_of_ne
    rintro rfl
    exact notQueued mem
  have last : { machine with qnext := update machine.qnext b none }.lastLink (NBUF + 1) none =
      .ok (queue.getLast?.or none) := lastLink_eq cut short
  rcases List.eq_nil_or_concat queue with rfl | ⟨init, final, rfl⟩
  · have quiet : machine.controller.command = none := inv.works.1
    refine ⟨{ machine with
      qnext := update machine.qnext b none
      idequeue := some b
      controller := { machine.controller with command := some (machine.buf b).command }
      started := some b
      call := update machine.call p (.asleep b) }, ?_, ?_⟩
    · simp [Machine.append, last, bind, Except.bind, pure, Except.pure, store, idestart, quiet,
        Nat.not_le.2 inside, test, notSynced, Machine.setCall]
    · exact {
        buf := rfl
        havedisk1 := rfl
        disks := rfl
        call := rfl
        linked := ⟨rfl, update_self ..⟩
        idle := fun _ => ⟨rfl, rfl⟩
        busy := fun nonempty => absurd rfl nonempty }
  · rw [List.concat_eq_append] at *
    have isHead : machine.idequeue = (init ++ [final]).head? := inv.linked.head_eq
    have notHead : machine.idequeue ≠ some b := by
      intro isB
      rw [isHead] at isB
      exact notQueued (List.mem_of_head? isB)
    refine ⟨{ machine with
      qnext := update (update machine.qnext b none) final (some b)
      call := update machine.call p (.asleep b) }, ?_, ?_⟩
    · simp [Machine.append, last, bind, Except.bind, pure, Except.pure, store, notHead, test, notSynced,
        Machine.setCall]
    · exact {
        buf := rfl
        havedisk1 := rfl
        disks := rfl
        call := rfl
        linked := cut.concat inv.nodup notQueued (update_self ..)
        idle := fun isNil => absurd isNil (by simp)
        busy := fun _ => ⟨rfl, rfl⟩ }

theorem simulates_append (inv : machine.Inv queue) (refines : Refines machine memide)
    (stepped : step machine (.append p) = some next) :
    ∃ after memideAfter, Simulates machine queue memide (.append p) next after memideAfter := by
  simp only [step] at stepped
  split at stepped
  · rename_i b isEntering
    have isCurrent : machine.current p = some b := by rw [Machine.current, isEntering]
    rcases inv.append isEntering with ⟨_, isNext, appended⟩
    rw [isNext] at stepped
    cases stepped
    have notSynced := (inv.entering p b isEntering).2
    have owned := inv.owned p b isCurrent
    have own : next.call p = .asleep b := by rw [appended.call, update_self]
    have others : ∀ q, q ≠ p → next.call q = machine.call q := by
      intro q other
      rw [appended.call, update_of_ne other]
    have sameBuf : ∀ c, c ≠ b → next.buf c = machine.buf c := fun c _ => by rw [appended.buf]
    refine ⟨queue ++ [b], memide, ?_, ?_, ?_, rfl⟩
    · refine Inv.of_fits appended.linked ?_ (appended.havedisk1.trans inv.present) ?_ ?_ ?_
      · rw [← List.concat_eq_append]
        exact inv.nodup.concat (inv.entering p b isEntering).1
      · intro q
        by_cases same : q = p
        · rw [same, own, Fits, Owns, appended.buf]
          exact ⟨owned, List.mem_append_right _ List.mem_cons_self, notSynced⟩
        · rw [others q same]
          refine inv.fits_elsewhere (inv.elsewhere owned.1 same) sameBuf ?_
          intro c other
          simp [other]
      · intro c mem
        rw [appended.buf]
        rcases List.mem_append.1 mem with before | isLast
        · rcases inv.queued c before with ⟨unsynced, q, waits⟩
          have other : q ≠ p := by
            rintro rfl
            rw [Waits, isEntering] at waits
            simp at waits
          refine ⟨unsynced, q, ?_⟩
          rw [Waits, others q other]
          exact waits
        · have same : c = b := by simpa using isLast
          subst same
          exact ⟨notSynced, p, Or.inl own⟩
      · have works := inv.works
        cases queue with
        | nil =>
            rcases appended.idle rfl with ⟨isStarted, isController⟩
            refine ⟨isStarted, Or.inl ?_⟩
            rw [isController, appended.buf]
            exact ⟨rfl, works.2⟩
        | cons c rest =>
            rcases appended.busy (by simp) with ⟨isStarted, isController⟩
            simp only [List.cons_append, Works, isStarted, isController, appended.buf,
              appended.disks]
            exact works
    · exact {
        buf := refines.buf.trans appended.buf.symm
        size := refines.size
        call := by
          intro q
          rw [refines.call q]
          by_cases same : q = p
          · subst same
            simp [Machine.progress, isEntering, own, appended.buf, notSynced]
          · simp only [Machine.progress, others q same, appended.buf]
        disk := by
          rw [appended.disks, refines.disk]
          cases queue with
          | nil =>
              have quiet := inv.works.2
              rcases appended.idle rfl with ⟨_, isController⟩
              simp [ahead, isController, quiet]
          | cons c rest =>
              rcases appended.busy (by simp) with ⟨_, isController⟩
              refine ahead_congr (by rw [isController]) ?_ (fun _ _ => by rw [appended.buf])
              rw [inv.linked.head_eq, appended.linked.head_eq]
              rfl }
    · simp [arrival, completion, isCurrent]
  · contradiction

/-! ## The disk -/

theorem Buf.command_addresses {buf : Buf Data} (isDisk : buf.dev = 1) (inside : buf.blockno < FSSIZE) :
    buf.command.disk = 1 ∧ buf.command.sector = buf.blockno := by
  simp only [FSSIZE] at inside
  simp only [Command.disk, Command.sector, Buf.command, isDisk]
  omega

theorem ahead_of_quiet {memdisk : ℕ → Data} (quiet : machine.controller.irq = false) :
    machine.ahead memdisk = memdisk := by
  simp [ahead, quiet]

/-- Only the disk and its controller have changed, and the disk still works for the head. -/
theorem simulates_disk_of {controller : Controller Data} {disks : ℕ → ℕ → Data}
    (inv : machine.Inv queue) (refines : Refines machine memide)
    (works : { machine with controller := controller, disks := disks }.Works queue)
    (isAhead : disks 1 =
      { machine with controller := controller, disks := disks }.ahead memide.memdisk) :
    Simulates machine queue memide .disk { machine with controller := controller, disks := disks }
      queue memide where
  inv :=
    { linked := inv.linked
      nodup := inv.nodup
      present := inv.present
      owned := inv.owned
      entering := inv.entering
      queued := inv.queued
      asleep := inv.asleep
      waiting := inv.waiting
      works := works }
  refines :=
    { buf := refines.buf
      size := refines.size
      call := refines.call
      disk := isAhead }
  order := by simp [arrival, completion]
  steps := rfl

theorem simulates_disk (inv : machine.Inv queue) (refines : Refines machine memide)
    (stepped : step machine .disk = some next) :
    ∃ after memideAfter, Simulates machine queue memide .disk next after memideAfter := by
  have works := inv.works
  cases queue with
  | nil => simp [step, finish, works.1] at stepped
  | cons b rest =>
      rcases works with ⟨isStarted, ⟨isCommand, quiet⟩ | ⟨noCommand, _⟩⟩
      · rcases inv.holder List.mem_cons_self with ⟨p, waits, _⟩
        rcases inv.owned p b waits.current with ⟨_, isDisk, inside⟩
        rcases Buf.command_addresses isDisk inside with ⟨isOne, isBlock⟩
        have isHead : machine.idequeue = some b := inv.linked.1
        have before : machine.disks 1 = memide.memdisk := by
          rw [refines.disk, ahead_of_quiet quiet]
        by_cases dirty : (machine.buf b).dirty = true
        · have isWrite : (machine.buf b).command.write = some (machine.buf b).data := if_pos dirty
          simp only [step, finish, isCommand, isWrite, Option.some.injEq] at stepped
          subst stepped
          refine ⟨b :: rest, memide, simulates_disk_of inv refines ?_ ?_⟩
          · refine ⟨isStarted, Or.inr ⟨rfl, rfl, ?_⟩⟩
            intro clean
            rw [dirty] at clean
            contradiction
          · simp [ahead, isHead, dirty, isOne, isBlock, before]
        · have isRead : (machine.buf b).command.write = none := if_neg dirty
          simp only [step, finish, isCommand, isRead, Option.some.injEq] at stepped
          subst stepped
          refine ⟨b :: rest, memide, simulates_disk_of inv refines ?_ ?_⟩
          · refine ⟨isStarted, Or.inr ⟨rfl, rfl, ?_⟩⟩
            intro _
            simp only [isOne, isBlock]
          · simp [ahead, isHead, dirty, before]
      · simp [step, finish, noCommand] at stepped

/-! ## The interrupt -/

structure Completed (machine : Machine Data) (b : BufId) (rest : List BufId) (next : Machine Data) :
    Prop where
  buf : next.buf = Function.update machine.buf b { machine.buf b with
    valid := true
    dirty := false
    data := if (machine.buf b).dirty then (machine.buf b).data
      else machine.disks 1 (machine.buf b).blockno }
  qnext : next.qnext = machine.qnext
  idequeue : next.idequeue = machine.qnext b
  havedisk1 : next.havedisk1 = machine.havedisk1
  disks : next.disks = machine.disks
  call : next.call = fun p => if machine.call p = .asleep b then .awake b else machine.call p
  irq : next.controller.irq = false
  works : next.Works rest

/-- The head has been taken off the queue and its process woken up. -/
def popped (machine : Machine Data) (b : BufId) (port : Option Data) : Machine Data :=
  { machine with
    buf := Function.update machine.buf b { machine.buf b with
      valid := true
      dirty := false
      data := if (machine.buf b).dirty then (machine.buf b).data
        else machine.disks 1 (machine.buf b).blockno }
    idequeue := machine.qnext b
    controller := { machine.controller with port := port, irq := false }
    call := fun p => if machine.call p = .asleep b then .awake b else machine.call p }

theorem Machine.ideintr_popped (isHead : machine.idequeue = some b)
    (isData : (machine.buf b).dirty = false →
      machine.controller.port = some (machine.disks 1 (machine.buf b).blockno)) :
    ∃ port, { machine with controller := { machine.controller with irq := false } }.ideintr =
      if (popped machine b port).idequeue.isSome then
        (popped machine b port).idestart (popped machine b port).idequeue
      else .ok (popped machine b port) := by
  by_cases dirty : (machine.buf b).dirty = true
  · refine ⟨machine.controller.port, ?_⟩
    simp [Machine.ideintr, isHead, dirty, popped, modify, Machine.wakeup, bind, Except.bind]
    rfl
  · refine ⟨none, ?_⟩
    simp [Machine.ideintr, isHead, dirty, popped, modify, Machine.wakeup, bind, Except.bind, insl,
      isData (by simpa using dirty)]

theorem Machine.Inv.ideintr {rest : List BufId} (inv : machine.Inv (b :: rest))
    (pending : machine.controller.irq = true) :
    ∃ next, { machine with controller := { machine.controller with irq := false } }.ideintr = .ok next ∧
      Completed machine b rest next := by
  rcases inv.works with ⟨_, ⟨_, quiet⟩ | ⟨noCommand, _, isData⟩⟩
  · rw [pending] at quiet
    contradiction
  · rcases ideintr_popped inv.linked.1 isData with ⟨port, isPopped⟩
    have behind : machine.qnext b = rest.head? := inv.linked.2.head_eq
    have isQueue : (popped machine b port).idequeue = rest.head? := behind
    rw [isPopped, isQueue]
    cases rest with
    | nil =>
        refine ⟨popped machine b port, rfl, ?_⟩
        exact ⟨rfl, rfl, rfl, rfl, rfl, rfl, rfl, noCommand, rfl⟩
    | cons c others =>
        have other : c ≠ b := by
          rintro rfl
          exact (List.nodup_cons.1 inv.nodup).1 List.mem_cons_self
        have sameBuf : (popped machine b port).buf c = machine.buf c := update_of_ne other ..
        rcases inv.holder (List.mem_cons_of_mem _ List.mem_cons_self) with ⟨p, waits, _⟩
        have inside : ((popped machine b port).buf c).blockno < FSSIZE := by
          rw [sameBuf]
          exact (inv.owned p c waits.current).2.2
        refine ⟨_, idestart_eq inside noCommand, ?_⟩
        exact ⟨rfl, rfl, rfl, rfl, rfl, rfl, rfl, rfl, Or.inl ⟨rfl, rfl⟩⟩

theorem Completed.waits {rest : List BufId} {c : BufId} (completed : Completed machine b rest next)
    (waits : machine.Waits q c) : next.Waits q c := by
  simp only [Waits, completed.call]
  by_cases isAsleep : machine.call q = .asleep b <;> simpa [Waits, isAsleep] using waits

theorem Completed.call_of_ne {rest : List BufId} (completed : Completed machine b rest next)
    (elsewhere : machine.current q ≠ some b) : next.call q = machine.call q := by
  rw [completed.call]
  apply if_neg
  intro isAsleep
  rw [Machine.current, isAsleep] at elsewhere
  contradiction

theorem simulates_intr (inv : machine.Inv queue) (refines : Refines machine memide)
    (stepped : step machine .intr = some next) :
    ∃ after memideAfter, Simulates machine queue memide .intr next after memideAfter := by
  simp only [step] at stepped
  split at stepped
  · rename_i pending
    cases queue with
    | nil =>
        have quiet := inv.works.2
        rw [pending] at quiet
        contradiction
    | cons b rest =>
        rcases inv.ideintr pending with ⟨_, isNext, completed⟩
        rw [isNext] at stepped
        cases stepped
        rcases List.nodup_cons.1 inv.nodup with ⟨notLater, nodup⟩
        rcases inv.holder List.mem_cons_self with ⟨p, waits, held⟩
        have owned := inv.owned p b waits.current
        have notSynced := (inv.queued b List.mem_cons_self).1
        have isHead : machine.idequeue = some b := inv.linked.1
        have sameBuf : ∀ c, c ≠ b → next.buf c = machine.buf c := by
          intro c other
          rw [completed.buf, update_of_ne other]
        have synced : (next.buf b).Synced := by
          rw [completed.buf, update_self]
          exact ⟨rfl, rfl⟩
        refine ⟨rest, { memide.iderw b with
          call := update memide.call p (.completed b) }, ?_, ?_, ?_, ?_⟩
        · refine Inv.of_fits ?_ nodup (completed.havedisk1.trans inv.present) ?_ ?_ completed.works
          · rw [completed.qnext, completed.idequeue]
            exact inv.linked.2
          · intro q
            by_cases same : q = p
            · subst same
              have ownedAfter : next.Owns q b := by
                rw [Owns, completed.buf, update_self]
                exact owned
              have woken : next.call q = .awake b := by
                rw [completed.call]
                rcases waits with isCall | isCall <;> simp [isCall]
              rw [woken]
              exact ⟨ownedAfter, fun unsynced => absurd synced unsynced⟩
            · have elsewhere := inv.elsewhere held same
              rw [completed.call_of_ne elsewhere]
              refine inv.fits_elsewhere elsewhere sameBuf ?_
              intro c other
              simp [other]
          · intro c mem
            have other : c ≠ b := by
              rintro rfl
              exact notLater mem
            rcases inv.queued c (List.mem_cons_of_mem _ mem) with ⟨unsynced, q, waitsToo⟩
            rw [sameBuf c other]
            exact ⟨unsynced, q, completed.waits waitsToo⟩
        · have disks : next.disks 1 = (memide.iderw b).memdisk := by
            rw [completed.disks, refines.disk]
            by_cases dirty : (machine.buf b).dirty = true <;>
              simp [ahead, pending, isHead, Memide.iderw, refines.buf, dirty]
          exact {
            buf := by
              rw [completed.buf]
              by_cases dirty : (machine.buf b).dirty = true
              · simp [Memide.iderw, refines.buf, dirty]
              · have isDisk : machine.disks 1 = memide.memdisk := by
                  simp [refines.disk, ahead, pending, isHead, dirty]
                have clean : (machine.buf b).dirty = false := by simpa using dirty
                simp [Memide.iderw, refines.buf, clean, isDisk]
            size := by
              rw [← refines.size, Memide.iderw]
              split <;> rfl
            call := by
              intro q
              change update memide.call p (.completed b) q = next.progress q
              by_cases same : q = p
              · subst same
                rw [update_self, Machine.progress]
                rcases completed.waits waits with isCall | isCall <;> simp [isCall, synced]
              · have elsewhere := inv.elsewhere held same
                rw [update_of_ne same, refines.call q]
                exact (progress_elsewhere elsewhere sameBuf (completed.call_of_ne elsewhere)).symm
            disk := by rw [disks, ahead_of_quiet completed.irq] }
        · simp [arrival, completion, isHead]
        · have isCalled : memide.call p = .called b := by
            rw [refines.call p, Machine.progress]
            rcases waits with isCall | isCall <;> simp [isCall, notSynced]
          have accepted : memide.refuse p b = none := by
            simp [Memide.refuse, refines.buf, refines.size, held, notSynced, owned.2.1,
              Nat.not_le.2 owned.2.2]
          simp [observe, isHead, held, atomicStep, isCalled, accepted]
  · contradiction

theorem simulates_step {label : Label Data} (inv : machine.Inv queue)
    (refines : Refines machine memide) (ofDisk : OfDisk machine label)
    (stepped : step machine label = some next) :
    ∃ after memideAfter, Simulates machine queue memide label next after memideAfter := by
  cases label with
  | call p b => exact simulates_call inv refines ofDisk stepped
  | append p => exact simulates_append inv refines stepped
  | test p => exact simulates_test inv refines stepped
  | kill p => exact simulates_kill inv refines stepped
  | change b buf => exact simulates_change inv refines stepped
  | disk => exact simulates_disk inv refines stepped
  | intr => exact simulates_intr inv refines stepped

end Steps

/-! ## Whole runs -/

/-- No request has been made, and the disk is quiet. -/
structure Machine.Initial (machine : Machine Data) : Prop where
  call : machine.call = fun _ => .idle
  idequeue : machine.idequeue = none
  command : machine.controller.command = none
  irq : machine.controller.irq = false
  havedisk1 : machine.havedisk1 = true

/-- The same buffers and the same disk, in memory. -/
def Machine.inMemory (machine : Machine Data) : Memide Data where
  buf := machine.buf
  disksize := FSSIZE
  memdisk := machine.disks 1
  call := fun _ => .idle

/-- The buffers in the order of their arrival. -/
def arrivals (trace : Trace (Machine Data) (Label Data)) : List BufId :=
  (trace.filterMap fun entry => arrival entry.1 entry.2).reverse

/-- The buffers in the order in which their requests are completed. -/
def completions (trace : Trace (Machine Data) (Label Data)) : List BufId :=
  (trace.filterMap fun entry => completion entry.1 entry.2).reverse

def observed (trace : Trace (Machine Data) (Label Data)) : List (AtomicLabel Data) :=
  trace.filterMap fun entry => observe entry.1 entry.2

theorem filterMap_reverse_cons {α β : Type} (f : α → Option β) (x : α) (list : List α) :
    ((x :: list).filterMap f).reverse = (list.filterMap f).reverse ++ (f x).toList := by
  cases isSome : f x with
  | none | some => simp [isSome]

section Runs

variable {start machine : Machine Data} {trace : Trace (Machine Data) (Label Data)}

theorem Machine.Initial.inv (initial : start.Initial) : start.Inv [] where
  linked := initial.idequeue
  nodup := List.nodup_nil
  present := initial.havedisk1
  owned := by simp [Machine.current, initial.call]
  entering := by simp [initial.call]
  queued := by simp
  asleep := by simp [initial.call]
  waiting := by simp [Machine.Waits, initial.call]
  works := ⟨initial.command, initial.irq⟩

theorem Machine.Initial.refines (initial : start.Initial) : Refines start start.inMemory where
  buf := rfl
  size := rfl
  call := by simp [Machine.inMemory, Machine.progress, initial.call]
  disk := (ahead_of_quiet initial.irq).symm

theorem run_simulates (initial : start.Initial) (run : Run step start trace machine)
    (ofDisk : Trace.All OfDisk trace) :
    ∃ queue atomic memide, machine.Inv queue ∧ arrivals trace = completions trace ++ queue ∧
      Run atomicStep start.inMemory atomic memide ∧ atomic.map Prod.snd = observed trace ∧
      Refines machine memide := by
  induction run with
  | refl => exact ⟨[], [], start.inMemory, initial.inv, rfl, .refl, rfl, initial.refines⟩
  | @tail trace machine next label run stepped ih =>
      rcases Trace.all_cons.1 ofDisk with ⟨here, before⟩
      rcases ih before with ⟨queue, atomic, memide, inv, order, atomicRun, sameLabels, refines⟩
      rcases simulates_step inv refines here stepped with ⟨after, memideAfter, simulates⟩
      have orderAfter : arrivals ((machine, label) :: trace) =
          completions ((machine, label) :: trace) ++ after := by
        rw [arrivals, completions, filterMap_reverse_cons, filterMap_reverse_cons, List.append_assoc,
          ← simulates.order, ← List.append_assoc]
        exact congrArg (· ++ _) order
      have steps := simulates.steps
      cases seen : observe machine label with
      | none =>
          rw [seen] at steps
          subst steps
          refine ⟨after, atomic, memideAfter, simulates.inv, orderAfter, atomicRun, ?_, simulates.refines⟩
          simpa [observed, seen] using sameLabels
      | some atomicLabel =>
          rw [seen] at steps
          refine ⟨after, (memide, atomicLabel) :: atomic, memideAfter, simulates.inv, orderAfter,
            atomicRun.tail steps, ?_, simulates.refines⟩
          simpa [observed, seen] using sameLabels

theorem Refines.refuse_eq {memide : Memide Data} {p : Slot} {b : BufId}
    (refines : Refines machine memide) (present : machine.havedisk1 = true)
    (ofDisk : OfDisk machine (.call p b)) : machine.refuse p b = memide.refuse p b := by
  simp [Machine.refuse, Memide.refuse, refines.buf, refines.size, present, ofDisk.1,
    Nat.not_le.2 ofDisk.2]

/-- The driver of the disk refines that of the disk in memory: the queue has no buffer twice, its head
is the buffer last given to `idestart`, whoever sleeps has a buffer in it that is not completed,
requests are completed in the order of their arrival, and every run is a run of `memide.c` whose calls take effect with their interrupts. No call and no
interrupt is stuck or panics, apart from the calls that `memide.c` refuses, too. -/
theorem ide_refines_memide (initial : start.Initial) (run : Run step start trace machine)
    (ofDisk : Trace.All OfDisk trace) :
    ∃ queue atomic memide,
      Linked machine.qnext machine.idequeue queue ∧ queue.Nodup ∧
      (∀ b, machine.idequeue = some b → machine.started = some b) ∧
      (∀ p b, machine.call p = .asleep b → ¬(machine.buf b).Synced ∧ b ∈ queue) ∧
      arrivals trace = completions trace ++ queue ∧
      Run atomicStep start.inMemory atomic memide ∧ atomic.map Prod.snd = observed trace ∧
      Refines machine memide ∧
      (∀ p b, OfDisk machine (.call p b) → machine.refuse p b = memide.refuse p b) ∧
      (∀ p b, machine.call p = .entering b → (step machine (.append p)).isSome = true) ∧
      (machine.controller.irq = true → (step machine .intr).isSome = true) := by
  rcases run_simulates initial run ofDisk with
    ⟨queue, atomic, memide, inv, order, atomicRun, sameLabels, refines⟩
  refine ⟨queue, atomic, memide, inv.linked, inv.nodup, ?_, ?_, order, atomicRun, sameLabels, refines,
    ?_, ?_, ?_⟩
  · intro b isHead
    have works := inv.works
    rw [inv.linked.head_eq] at isHead
    cases queue with
    | nil => simp at isHead
    | cons c rest =>
        cases isHead
        exact works.1
  · intro p b isAsleep
    have notSynced := inv.asleep p b isAsleep
    exact ⟨notSynced, inv.waiting p b (Or.inl isAsleep) notSynced⟩
  · intro p b here
    exact refines.refuse_eq inv.present here
  · intro p b isEntering
    rcases inv.append isEntering with ⟨next, isNext, _⟩
    simp [step, isEntering, isNext, Except.toOption]
  · intro pending
    cases queue with
    | nil =>
        have quiet := inv.works.2
        rw [pending] at quiet
        contradiction
    | cons b rest =>
        rcases inv.ideintr pending with ⟨next, isNext, _⟩
        simp only [step, pending, if_true, isNext, Except.toOption, Option.isSome_some]

end Runs

instance (machine : Machine Data) (label : Label Data) : Decidable (OfDisk machine label) :=
  match label with
  | .call _ _ => inferInstanceAs (Decidable (_ ∧ _))
  | .append _ | .test _ | .kill _ | .change _ _ | .disk | .intr => .isTrue trivial

/-- A buffer to be written and another one to be read, both for block 3. -/
def twoRequests : Machine ℕ where
  buf := fun b =>
    if b = 0 then ⟨true, true, 1, 3, some 0, 7⟩ else ⟨false, false, 1, 3, some 1, 0⟩
  qnext := fun _ => none
  idequeue := none
  havedisk1 := true
  controller := { command := none, port := none, irq := false }
  disks := fun _ _ => 0
  call := fun _ => .idle
  started := none

theorem write_then_read :
    ∃ trace machine, Run step twoRequests trace machine ∧
      machine.call = (fun _ => .idle) ∧ (machine.buf 1).data = 7 ∧ completions trace = [0, 1] ∧
      ∃ queue atomic memide, arrivals trace = completions trace ++ queue ∧
        Run atomicStep twoRequests.inMemory atomic memide ∧ atomic.map Prod.snd = observed trace ∧
        Refines machine memide := by
  have found : ∃ trace machine, Run step twoRequests trace machine ∧ trace.All OfDisk ∧
      machine.call = (fun _ => .idle) ∧ (machine.buf 1).data = 7 ∧ completions trace = [0, 1] :=
    exists_run [.call 0 0, .append 0, .call 1 1, .append 1, .disk, .intr, .test 0, .disk, .intr,
      .test 1] (by decide +kernel)
  rcases found with ⟨trace, machine, run, ofDisk, returned, read, order⟩
  rcases ide_refines_memide ⟨rfl, rfl, rfl, rfl, rfl⟩ run ofDisk with
    ⟨queue, atomic, memide, _, _, _, _, arrived, atomicRun, sameLabels, refines, _⟩
  exact ⟨trace, machine, run, returned, read, order, queue, atomic, memide, arrived, atomicRun,
    sameLabels, refines⟩

end Xv6.Ide
