import Xv6.Kernel.Invariant

/-!
# What `proc.c` leaves alone

The acts of `proc.c` do not touch the state of a subsystem, put no code of a subsystem in
front, and move no process that sleeps on a channel of a subsystem, with two exceptions:
`wakeup1` on that channel and `kill`.
-/

namespace Xv6

open Threads

variable {Sub SubAct SubEntry SubIntr : Type} {ncpu : ℕ}

/-- The channels on which code of `proc.c`, and of the kernel outside the model, sleeps. -/
def Chan.IsCore : Chan → Prop
  | .proc _ | .ticks | .other _ => True
  | .sem _ | .input | .log | .sleeplock | .nread | .nwrite => False

/-- The instruction is not one of the subsystem and does not use one of its channels. -/
def IsCore : Instr Lock (Act SubAct) → Prop
  | .act (.sub _) => False
  | .act (.sleepSched chan) | .act (.wakeup1 chan) => chan.IsCore
  | _ => True

def Kern.AsleepOn (kern : Kern Sub) (slot : Slot) (chan : Chan) : Prop :=
  (kern.proc slot).state = .sleeping ∧ (kern.proc slot).chan = some chan

instance (kern : Kern Sub) (slot : Slot) (chan : Chan) : Decidable (kern.AsleepOn slot chan) :=
  inferInstanceAs (Decidable (_ ∧ _))

section Core

variable {sub : Subsystem Sub SubAct SubEntry SubIntr} {act : Act SubAct} {cpu : Fin ncpu}
  {thread : Thread ncpu} {curproc : Slot} {choice : ℕ} {kern : Kern Sub}
  {outcome : Effect Sub SubAct ncpu}

theorem isCore_sleep {chan : Chan} {lk : Lock} (core : chan.IsCore) :
    ∀ instr ∈ (sleep chan lk : Code Lock (Act SubAct)), IsCore instr := by
  unfold sleep
  split <;> simp [IsCore, core]

theorem isCore_changeQueue {pid queue : ℤ} :
    ∀ instr ∈ (changeQueue pid queue : Code Lock (Act SubAct)), IsCore instr := by
  unfold changeQueue
  split <;> simp [IsCore]

/-- The outcome does not reach into the subsystem; the only new thread is that of `fork`. -/
structure StaysOut (kern : Kern Sub) (act : Act SubAct) (outcome : Effect Sub SubAct ncpu) :
    Prop where
  sub : outcome.shared.sub = kern.sub
  push : ∀ instr ∈ outcome.push, IsCore instr
  spawn : ∀ thread code, outcome.spawn = some (thread, code) →
    code = forkret ∧ ∃ np, thread = .proc np ∧ act = .kstack np

theorem staysOut_exec (executed : exec sub act cpu thread choice kern = some outcome)
    (notSub : ∀ subAct, act ≠ .sub subAct) : StaysOut kern act outcome := by
  cases does_exec executed notSub with
  | stack free =>
      refine ⟨rfl, by simp [IsCore], ?_⟩
      rintro thread code spawned
      cases spawned
      exact ⟨rfl, _, rfl, rfl⟩
  | exit notInit =>
      refine ⟨?_, by simp, by simp⟩
      simp only [Kern.exit, Kern.setState, Kern.modify, Kern.reparent]
      split <;> rfl
  | kill =>
      refine ⟨?_, by simp, by simp⟩
      simp only [Kern.kill]
      split <;> rfl
  | setQueue sets | setParams sets | setPriority sets =>
      cases sets <;> exact ⟨rfl, by simp, by simp⟩
  | queue | ageQueue =>
      refine ⟨rfl, ?_, by simp⟩
      dsimp only
      exact isCore_changeQueue
  | wait isChild noZombie | sleepsOn early alive | otherSleeps =>
      refine ⟨rfl, ?_, by simp⟩
      simp only [List.forall_mem_append]
      exact ⟨isCore_sleep trivial, by simp [IsCore]⟩
  | _ => exact ⟨rfl, by simp [IsCore, Xv6.wakeup, ageprocs, scheduler, Chan.IsCore], by simp⟩

theorem isCore_entry {entry : Entry SubEntry} (core : ∀ subEntry, entry ≠ .sub subEntry) :
    ∀ instr ∈ entryCode sub entry, IsCore instr := by
  cases entry with
  | sub entry => exact absurd rfl (core entry)
  | changeQueue pid queue => exact isCore_changeQueue
  | _ => simp [entryCode, fork, exit, wait, kill, sysSleep, setBjfParamsProcess, setBjfParamsSystem,
      setBjfPriority, sleepOther, wakeup, IsCore, Chan.IsCore]

@[simp]
theorem Kern.asleepOn_sleepOn_self {slot : Slot} {chan other : Chan} :
    (kern.sleepOn slot chan).AsleepOn slot other ↔ chan = other := by
  simp [AsleepOn, sleepOn]

@[simp]
theorem Kern.asleepOn_sleepOn_of_ne {slot sleeper : Slot} {chan other : Chan}
    (different : slot ≠ sleeper) :
    (kern.sleepOn sleeper chan).AsleepOn slot other ↔ kern.AsleepOn slot other := by
  simp [AsleepOn, sleepOn, modify_proc_of_ne _ different]

/-- The same processes sleep on the channel. -/
def Kern.SleepSame (chan : Chan) (kern next : Kern Sub) : Prop :=
  ∀ slot, next.AsleepOn slot chan ↔ kern.AsleepOn slot chan

namespace Kern

variable {chan : Chan} {next : Kern Sub}

theorem SleepSame.trans {last : Kern Sub} (first : SleepSame chan kern next)
    (second : SleepSame chan next last) : SleepSame chan kern last :=
  fun slot => (second slot).trans (first slot)

theorem sleepSame_keep
    (keeps : ∀ slot, (next.proc slot).state = (kern.proc slot).state ∧
      (next.proc slot).chan = (kern.proc slot).chan) : SleepSame chan kern next := by
  intro slot
  simp [AsleepOn, keeps slot]

theorem sleepSame_awake (slot : Slot)
    (others : ∀ other, other ≠ slot → next.proc other = kern.proc other)
    (before : (kern.proc slot).state ≠ .sleeping)
    (after : (next.proc slot).state ≠ .sleeping ∨ (next.proc slot).chan ≠ some chan) :
    SleepSame chan kern next := by
  intro other
  by_cases same : other = slot
  · subst other
    simp only [AsleepOn, before, false_and, iff_false, not_and]
    intro asleep
    rcases after with awake | elsewhere
    · exact absurd asleep awake
    · exact elsewhere
  · simp [AsleepOn, others other same]

theorem sleepSame_wakeup1 {woken : Option Chan} (different : woken ≠ some chan) :
    SleepSame chan kern (kern.wakeup1 woken) := by
  intro slot
  simp only [AsleepOn, wakeup1]
  split
  · rename_i matching
    simp only [reduceCtorEq, false_and, false_iff, not_and]
    intro _ here
    exact different (matching.2.symm.trans here)
  · rfl

theorem sleepSame_adopt (curproc : Slot) : SleepSame chan kern (kern.adopt curproc) := by
  intro slot
  simp only [AsleepOn, adopt]
  split <;> rfl

theorem sleepSame_exit {curproc : Slot} (subChan : ¬chan.IsCore)
    (current : (kern.proc curproc).state = .running) :
    SleepSame chan kern (kern.exit curproc) := by
  have parentWoken : (kern.proc curproc).parent.map Chan.proc ≠ some chan := by
    intro isChan
    rcases Option.map_eq_some_iff.mp isChan with ⟨parent, _, rfl⟩
    exact subChan trivial
  have first : SleepSame chan kern (kern.wakeup1 ((kern.proc curproc).parent.map .proc)) :=
    sleepSame_wakeup1 parentWoken
  have second : SleepSame chan (kern.wakeup1 ((kern.proc curproc).parent.map .proc))
      ((kern.wakeup1 ((kern.proc curproc).parent.map .proc)).reparent curproc) := by
    unfold reparent
    split
    · refine (sleepSame_adopt curproc).trans (sleepSame_wakeup1 ?_)
      intro isChan
      cases isChan
      exact subChan trivial
    · exact sleepSame_adopt curproc
  refine (first.trans second).trans
    (sleepSame_awake curproc (fun _ different => setState_proc_of_ne different) ?_ ?_)
  rotate_left
  · left
    simp [exit]
  -- the process that exits runs, and waking others does not change that
  have quietly := ((quiet_wakeup1 _).trans (quiet_reparent curproc) :
    kern.Quiet ((kern.wakeup1 ((kern.proc curproc).parent.map .proc)).reparent curproc)) curproc
  simp only [QuietAt, current] at quietly
  rcases quietly with same | ⟨asleep, _⟩ | ⟨zombie, _⟩
  · simp [same]
  · simp at asleep
  · simp at zombie

end Kern

variable {chan : Chan}

theorem sleepSame_kill {pid : ℤ}
    (elsewhere : ∀ slot, (kern.find fun _ proc => proc.pid = pid) = some slot →
      ¬kern.AsleepOn slot chan) : Kern.SleepSame chan kern (kern.kill pid) := by
  simp only [Kern.kill]
  split
  · exact Kern.sleepSame_keep fun _ => ⟨rfl, rfl⟩
  · rename_i found isFound
    have notThere := elsewhere found isFound
    intro slot
    by_cases same : slot = found
    · subst slot
      simp only [Kern.AsleepOn] at notThere
      by_cases asleep : (kern.proc found).state = .sleeping
      · simp [Kern.AsleepOn, asleep] at notThere ⊢
        exact notThere
      · simp [Kern.AsleepOn, asleep]
    · simp [Kern.AsleepOn, Kern.modify_proc_of_ne _ same]

theorem Kern.Sets.sleepSame {pid : ℤ} {change : SchedStat → SchedStat} {after : Kern Sub}
    (sets : kern.Sets pid change after) : Kern.SleepSame chan kern after := by
  cases sets with
  | missing => exact Kern.sleepSame_keep fun _ => ⟨rfl, rfl⟩
  | @found target isFirst =>
      apply Kern.sleepSame_keep
      intro slot
      by_cases same : slot = target <;> simp [Kern.modify, same]

theorem sleepSame_exec (executed : exec sub act cpu thread choice kern = some outcome)
    (notSub : ∀ subAct, act ≠ .sub subAct) (subChan : ¬chan.IsCore)
    (current : ∀ curproc, thread = .proc curproc → (kern.proc curproc).state = .running)
    (embryo : ∀ np, forkSite (.act act) = some (some np) → (kern.proc np).state = .embryo)
    (notSleep : act ≠ .sleepSched chan) (notWake : act ≠ .wakeup1 chan)
    (notKill : ∀ pid slot, act = .kill pid → (kern.find fun _ proc => proc.pid = pid) = some slot →
      ¬kern.AsleepOn slot chan) :
    Kern.SleepSame chan kern outcome.shared := by
  cases does_exec executed notSub with
  | @claim _ np unused =>
      refine Kern.sleepSame_awake np ?_ (by simp [unused]) (Or.inl (by simp [Kern.modify]))
      intro other different
      simp [Kern.modify, different]
  | @noStack _ np _ | @stack _ np _ _ _ | @copied _ np _ | @notCopied _ np _ | @start _ np =>
      have isEmbryo := embryo np rfl
      refine Kern.sleepSame_awake np ?_ (by simp [isEmbryo])
        (Or.inl (by simp [Kern.modify, Kern.setState, isEmbryo]))
      intro other different
      simp [Kern.modify, Kern.setState, different]
  | @stamp _ np =>
      apply Kern.sleepSame_keep
      intro slot
      by_cases same : slot = np <;> simp [Kern.modify, same]
  | exit notInit => exact Kern.sleepSame_exit subChan (current _ rfl)
  | @reap _ child _ zombie =>
      refine Kern.sleepSame_awake child ?_ (by simp [zombie]) (Or.inl (by simp [Kern.reap]))
      intro other different
      simp [Kern.reap, Kern.modify, different]
  | @sleep curproc _ =>
      have isRunning := current curproc rfl
      refine Kern.sleepSame_awake curproc ?_ (by simp [isRunning])
        (Or.inr (by simpa [Kern.sleepOn] using notSleep))
      intro slot different
      simp [Kern.sleepOn, Kern.modify, different]
  | @clear curproc | @yield curproc =>
      have isRunning := current curproc rfl
      refine Kern.sleepSame_awake curproc ?_ (by simp [isRunning])
        (Or.inl (by simp [Kern.setState, isRunning]))
      intro slot different
      simp [Kern.modify, Kern.setState, different]
  | setQueue sets | setParams sets | setPriority sets => exact sets.sleepSame
  | kill => exact sleepSame_kill fun slot => notKill _ slot rfl
  | wakeup => exact Kern.sleepSame_wakeup1 (by simpa using notWake)
  | @pick _ picked _ runnable =>
      refine Kern.sleepSame_awake picked ?_ (by simp [runnable]) (Or.inl (by simp))
      intro slot different
      simp [Kern.modify, different]
  | _ => exact Kern.sleepSame_keep fun _ => ⟨rfl, rfl⟩

end Core

end Xv6
