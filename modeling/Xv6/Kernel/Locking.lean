import Xv6.Kernel.Acts
import Xv6.Lib.LockDiscipline

/-!
# Lock discipline of `proc.c`

Which locks each act of `proc.c` runs under, and a proof that the code it puts in front
obeys that. The discipline of a subsystem is a parameter. The nestings of two locks in
`proc.c` are exactly three: `fork` takes `tickslock` under `ptable.lock`, the clock
interrupt and `sys_sleep` take `ptable.lock` under `tickslock`, and the other users of
`sleep` take `ptable.lock` under their own lock.
-/

namespace Xv6

open Threads

variable {Sub SubAct SubEntry SubIntr : Type} {ncpu : ℕ}

/-- The locking of a subsystem: what its acts need and leave. -/
structure SubLocking (SubAct : Type) where
  needs : SubAct → Finset Lock → Prop
  leaves : SubAct → Finset Lock → Finset Lock
  leaves_subset : ∀ act held, leaves act held ⊆ held

/-- The locks an act of the kernel runs under. -/
def Act.needs (subNeeds : SubAct → Finset Lock → Prop) (held : Finset Lock) :
    Act SubAct → Prop
  | .allocproc | .waitScan | .ageScan _ _ | .pick | .zombieExit => held = {.ptable}
  | .exitSched | .sleepSched _ | .yieldSched => held = {.ptable}
  | .kstack _ | .copyuvm _ | .forkQueue _ | .ageQueue _ => held = ∅
  | .sysSleep _ | .sysSleepLoop _ _ | .tick => held = {.tickslock}
  | .otherLoop object => held = {.other object}
  | .forkRunnable _ | .setQueue _ _ | .kill _ | .clearChan | .wakeup1 _
  | .setBjfParamsProcess _ _ | .setBjfParamsSystem _ | .setBjfPriority _ _ => .ptable ∈ held
  | .forkTicks _ => .ptable ∈ held ∧ .tickslock ∈ held
  | .iret => held = ∅
  | .sub act => subNeeds act held

/-- The locks held after the code that an act puts in front. -/
def Act.leaves (subLeaves : SubAct → Finset Lock → Finset Lock) (held : Finset Lock) :
    Act SubAct → Finset Lock
  | .allocproc | .waitScan | .ageScan _ _ | .pick | .zombieExit => ∅
  | .sysSleep _ | .sysSleepLoop _ _ | .tick | .otherLoop _ => ∅
  | .sub act => subLeaves act held
  | .kstack _ | .copyuvm _ | .forkRunnable _ | .forkTicks _ | .forkQueue _ | .setQueue _ _
  | .exitSched | .kill _ | .sleepSched _ | .clearChan | .wakeup1 _ | .yieldSched | .ageQueue _
  | .setBjfParamsProcess _ _ | .setBjfParamsSystem _ | .setBjfPriority _ _ | .iret => held

theorem Act.leaves_subset (locking : SubLocking SubAct) (act : Act SubAct)
    (held : Finset Lock) : act.leaves locking.leaves held ⊆ held := by
  cases act with
  | sub act => exact locking.leaves_subset act held
  | _ => simp [Act.leaves]

/-- The discipline of the kernel; a context switch happens under `ptable.lock` alone. -/
def discipline (locking : SubLocking SubAct) : Discipline Lock (Act SubAct) where
  needs := fun act held => act.needs locking.needs held
  leaves := fun act held => act.leaves locking.leaves held
  handoff := {.ptable}
  leaves_subset := Act.leaves_subset locking

variable {locking : SubLocking SubAct}

section Code

open Discipline

theorem runs_wakeup {held : Finset Lock} {chan : Chan} (free : .ptable ∉ held) :
    (discipline locking).Runs held (wakeup chan) held := by
  simp [wakeup, Runs, discipline, Act.needs, Act.leaves, free]

theorem erase_under_ptable {lk : Lock} (different : lk ≠ .ptable) :
    (insert Lock.ptable {lk} : Finset Lock).erase lk = {.ptable} := by
  ext lock
  simp only [Finset.mem_erase, Finset.mem_insert, Finset.mem_singleton]
  constructor
  · rintro ⟨notLk, isPtable | isLk⟩
    · exact isPtable
    · exact absurd isLk notLk
  · rintro rfl
    exact ⟨different.symm, Or.inl rfl⟩

theorem runs_sleep {chan : Chan} {lk : Lock} :
    (discipline locking).Runs {lk} (sleep chan lk) {lk} := by
  by_cases isPtable : lk = .ptable
  · subst lk
    simp [sleep, Runs, discipline, Act.needs, Act.leaves]
  · simp [sleep, Runs, discipline, Act.needs, Act.leaves, isPtable, Ne.symm isPtable,
      erase_under_ptable isPtable]

theorem runs_changeQueue {pid queue : ℤ} :
    (discipline locking).Runs ∅ (changeQueue pid queue) ∅ := by
  unfold changeQueue
  split <;> simp [Runs, discipline, Act.needs, Act.leaves]

theorem runs_ageprocs {osTicks : ℤ} :
    (discipline locking).Runs ∅ (ageprocs osTicks) ∅ := by
  simp [ageprocs, Runs, discipline, Act.needs, Act.leaves]

theorem runs_entry {sub : Subsystem Sub SubAct SubEntry SubIntr} {entry : Entry SubEntry}
    (subRuns : ∀ entry, (discipline locking).Runs ∅ (sub.entry entry) ∅) :
    (discipline locking).Runs ∅ (entryCode sub entry) ∅ := by
  cases entry with
  | sub entry => exact subRuns entry
  | changeQueue pid queue => exact runs_changeQueue
  | wakeupOther object => exact runs_wakeup (by simp)
  | _ => simp [entryCode, fork, exit, wait, kill, sysSleep, setBjfParamsProcess, setBjfParamsSystem,
      setBjfPriority, sleepOther, Runs, discipline, Act.needs, Act.leaves]

end Code

section Exec

open Discipline

variable {sub : Subsystem Sub SubAct SubEntry SubIntr} {act : Act SubAct} {cpu : Fin ncpu}
  {thread : Thread ncpu} {curproc : Slot} {choice : ℕ} {kern : Kern Sub}
  {outcome : Effect Sub SubAct ncpu} {held : Finset Lock}

theorem runs_does (does : Does kern cpu choice act thread outcome)
    (needs : (discipline locking).needs act held) :
    (discipline locking).Runs held outcome.push ((discipline locking).leaves act held) := by
  cases does with
  | noSlot | claim unused | reap isChild zombie | noChild | wait isChild noZombie
  | ages runnable notFirst old | passes | aged isEnd | pick isChoice runnable | noPick isLast =>
      obtain rfl : held = {.ptable} := needs
      simp [Runs, discipline, Act.needs, Act.leaves, Xv6.sleep, scheduler]
  | noStack empty | stack free | copied isCopied | notCopied failed =>
      obtain rfl : held = ∅ := needs
      simp [Runs, discipline, Act.needs, Act.leaves]
  | queue | ageQueue =>
      obtain rfl : held = ∅ := needs
      dsimp only
      exact runs_changeQueue
  | wakesUp | sysSleep =>
      obtain rfl : held = {.tickslock} := needs
      simp [Runs, discipline, Act.needs, Act.leaves]
  | otherDone =>
      obtain rfl : held = {.other _} := needs
      simp [Runs, discipline, Act.leaves]
  | sleepsOn early alive | otherSleeps =>
      obtain rfl : held = {_} := needs
      apply runs_sleep.append
      simp [Runs, discipline, Act.needs, Act.leaves]
  | tick =>
      obtain rfl : held = {.tickslock} := needs
      have woken : (discipline locking).Runs {.tickslock} (wakeup .ticks) {.tickslock} :=
        runs_wakeup (by simp)
      refine (woken.append ?_).append runs_ageprocs
      simp [Runs]
  | _ => simp [Runs, discipline, Act.leaves]

/-- The code that an act puts in front obeys the discipline, if that of the subsystem does. -/
theorem runs_exec (executed : exec sub act cpu thread choice kern = some outcome)
    (needs : (discipline locking).needs act held)
    (subRuns : ∀ subAct result, act = .sub subAct → locking.needs subAct held →
      sub.exec subAct thread choice kern = some result →
      (discipline locking).Runs held result.2 (locking.leaves subAct held)) :
    (discipline locking).Runs held outcome.push ((discipline locking).leaves act held) := by
  cases act with
  | sub subAct =>
      simp only [exec, Option.map_eq_some_iff] at executed
      rcases executed with ⟨result, ran, rfl⟩
      exact subRuns subAct result rfl needs ran
  | _ => exact runs_does (does_exec executed (by simp)) needs

/-- `sys_sleep` goes to sleep: its time is not over and it has not been killed. -/
def SysSleeps (kern : Kern Sub) (thread : Thread ncpu) (ticks0 n : ℕ) : Prop :=
  ∃ curproc, thread = .proc curproc ∧ (kern.ticks + 2 ^ 32 - ticks0) % 2 ^ 32 < n ∧
    (kern.proc curproc).killed = false

/-- The nestings of two locks that an act of `proc.c` begins. -/
inductive CoreNesting (kern : Kern Sub) (thread : Thread ncpu) (choice : ℕ) :
    Act SubAct → Lock → Lock → Prop
  | fork {np : Slot} (copied : choice = 0) :
      CoreNesting kern thread choice (.copyuvm np) .ptable .tickslock
  | timer : CoreNesting kern thread choice .tick .tickslock .ptable
  | sysSleep {ticks0 n : ℕ} (sleeps : SysSleeps kern thread ticks0 n) :
      CoreNesting kern thread choice (.sysSleepLoop ticks0 n) .tickslock .ptable
  | other {object : ℕ} :
      CoreNesting kern thread choice (.otherLoop object) (.other object) .ptable

variable {outer inner : Lock}

theorem nests_sleep {chan : Chan} {lk : Lock}
    (nests : (discipline locking).Nests outer inner {lk} (sleep chan lk)) :
    outer = lk ∧ inner = .ptable := by
  by_cases isPtable : lk = .ptable
  · subst lk
    simp [sleep, Nests] at nests
  · simp only [sleep, if_neg isPtable, Nests, discipline, Act.leaves,
      erase_under_ptable isPtable] at nests
    simp at nests
    exact ⟨nests.1, nests.2.symm⟩

theorem not_nests_changeQueue {pid queue : ℤ} :
    ¬(discipline locking).Nests outer inner ∅ (changeQueue pid queue) := by
  unfold changeQueue
  split <;> simp [Nests]

theorem not_nests_entry {entry : Entry SubEntry}
    (subNests : ∀ entry, ¬(discipline locking).Nests outer inner ∅ (sub.entry entry)) :
    ¬(discipline locking).Nests outer inner ∅ (entryCode sub entry) := by
  cases entry with
  | sub entry => exact subNests entry
  | changeQueue pid queue => exact not_nests_changeQueue
  | _ => simp [entryCode, fork, exit, wait, kill, sysSleep, setBjfParamsProcess, setBjfParamsSystem,
      setBjfPriority, sleepOther, wakeup, Nests]

theorem nests_exec (executed : exec sub act cpu thread choice kern = some outcome)
    (notSub : ∀ subAct, act ≠ .sub subAct) (needs : (discipline locking).needs act held)
    (nests : (discipline locking).Nests outer inner held outcome.push) :
    CoreNesting kern thread choice act outer inner := by
  cases does_exec executed notSub with
  | noSlot | claim unused | reap isChild zombie | noChild | wait isChild noZombie
  | ages runnable notFirst old | passes | aged isEnd | pick isChoice runnable | noPick isLast =>
      obtain rfl : held = {.ptable} := needs
      simp [Nests, Xv6.sleep, scheduler, discipline, Act.leaves] at nests
  | stack free =>
      obtain rfl : held = ∅ := needs
      simp [Nests] at nests
  | copied isCopied =>
      obtain rfl : held = ∅ := needs
      simp [Nests, discipline, Act.leaves] at nests
      rcases nests with ⟨rfl, rfl⟩
      exact .fork isCopied
  | queue | ageQueue =>
      obtain rfl : held = ∅ := needs
      dsimp only at nests
      exact absurd nests not_nests_changeQueue
  | sleepsOn early alive =>
      obtain rfl : held = {.tickslock} := needs
      rw [nests_append runs_sleep] at nests
      simp only [Nests, or_false] at nests
      rcases nests_sleep nests with ⟨rfl, rfl⟩
      exact .sysSleep ⟨_, rfl, early, alive⟩
  | tick =>
      obtain rfl : held = {.tickslock} := needs
      simp [Nests, wakeup, ageprocs, discipline, Act.leaves] at nests
      rcases nests with ⟨rfl, rfl⟩
      exact .timer
  | otherSleeps =>
      obtain rfl : held = {.other _} := needs
      rw [nests_append runs_sleep] at nests
      simp only [Nests, or_false] at nests
      rcases nests_sleep nests with ⟨rfl, rfl⟩
      exact .other
  | _ => simp [Nests] at nests

end Exec

end Xv6
