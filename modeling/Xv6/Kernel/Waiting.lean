import Xv6.Kernel.Lifecycle

/-!
# No wakeup is lost

Processes that wait for a condition take its lock, and while the condition does not hold they
call `sleep`. Who makes the condition true holds the lock as well, and calls `wakeup` before or
after giving it up. Then a process that sleeps while the condition holds is one that somebody
is still going to wake.

The argument is the same for every condition, so it is made for any subsystem that keeps to
this rule (`WaitRule.Step`).
-/

namespace Xv6

open Threads Function

variable {Sub SubAct SubEntry SubIntr : Type} {ncpu : ℕ}

/-- A condition to wait for: the channel and the lock of its waiters, and when they wait. -/
structure WaitRule (Sub : Type) where
  chan : Chan
  lk : Lock
  blocked : Sub → Prop

namespace WaitRule

variable {rule : WaitRule Sub} {state next : Machine Sub SubAct ncpu} {cpu : Fin ncpu}
  {thread : Thread ncpu} {code rest : Code Lock (Act SubAct)} {early : Bool}

/-- The instruction that puts a waiter to sleep. -/
abbrev falls (rule : WaitRule Sub) : Instr Lock (Act SubAct) := .act (.sleepSched rule.chan)

/-- The instruction that wakes the waiters. -/
abbrev wakes (rule : WaitRule Sub) : Instr Lock (Act SubAct) := .act (.wakeup1 rule.chan)

inductive Waking : Instr Lock (Act SubAct) → Prop
  | taking : Waking (.acquire .ptable)
  | waking (chan : Chan) : Waking (.act (.wakeup1 chan))
  | giving : Waking (.release .ptable)

/-- The code of a process in `sleep`, before it gives up the processor; early as long as it
has not given up the lock. It may have a wakeup to make before it takes `ptable.lock`. -/
inductive AtSleep (rule : WaitRule Sub) : Bool → Code Lock (Act SubAct) → Prop
  | taking {instr : Instr Lock (Act SubAct)} {rest : Code Lock (Act SubAct)}
      (waking : Waking instr) (later : AtSleep rule true rest) : AtSleep rule true (instr :: rest)
  | giving {rest : Code Lock (Act SubAct)} (different : rule.lk ≠ .ptable)
      (last : rule.falls ∉ rest) : AtSleep rule true (.release rule.lk :: rule.falls :: rest)
  | falling {rest : Code Lock (Act SubAct)} (last : rule.falls ∉ rest) :
      AtSleep rule false (rule.falls :: rest)

namespace AtSleep

theorem mem (atSleep : rule.AtSleep early code) : rule.falls ∈ code := by
  induction atSleep with
  | taking waking later ih => exact List.mem_cons_of_mem _ ih
  | giving different last => simp
  | falling last => simp

theorem not_late (atSleep : rule.AtSleep true code) : ¬rule.AtSleep false code := by
  intro late
  cases late with
  | falling last =>
      cases atSleep with
      | taking waking later => cases waking

theorem gives (atSleep : rule.AtSleep true code) : rule.lk ≠ .ptable ∧
    ∃ before rest, code = before ++ .release rule.lk :: rest ∧ .acquire rule.lk ∉ before := by
  induction code with
  | nil => cases atSleep
  | cons instr code ih =>
      cases atSleep with
      | taking waking later =>
          rcases ih later with ⟨different, before, rest, rfl, unacquired⟩
          refine ⟨different, instr :: before, rest, rfl, ?_⟩
          cases waking <;> simp [different, unacquired]
      | giving different last => exact ⟨different, [], _, rfl, by simp⟩

theorem after_lock {instr : Instr Lock (Act SubAct)}
    (atSleep : rule.AtSleep early (instr :: rest)) (isLock : ∀ act, instr ≠ .act act) :
    early = true ∧ ∃ after, rule.AtSleep after rest := by
  cases atSleep with
  | taking waking later => exact ⟨rfl, true, later⟩
  | giving different last => exact ⟨rfl, false, .falling last⟩
  | falling last => exact absurd rfl (isLock _)

theorem after_act {act : Act SubAct} (atSleep : rule.AtSleep early (.act act :: rest)) :
    (∃ chan, act = .wakeup1 chan) ∧ early = true ∧ rule.AtSleep true rest ∨
      act = .sleepSched rule.chan ∧ rule.falls ∉ rest := by
  cases atSleep with
  | taking waking later =>
      cases waking with
      | waking chan => exact Or.inl ⟨⟨chan, rfl⟩, rfl, later⟩
  | falling last => exact Or.inr ⟨rfl, last⟩

theorem append {tail : Code Lock (Act SubAct)} (atSleep : rule.AtSleep early code)
    (last : rule.falls ∉ tail) : rule.AtSleep early (code ++ tail) := by
  induction atSleep with
  | taking waking later ih => exact .taking waking ih
  | giving different lastRest =>
      refine .giving different ?_
      simpa using ⟨lastRest, last⟩
  | falling lastRest =>
      refine .falling ?_
      simpa using ⟨lastRest, last⟩

theorem wakeup_append {chan : Chan} (atSleep : rule.AtSleep true code) :
    rule.AtSleep true (wakeup chan ++ code) :=
  .taking .taking (.taking (.waking chan) (.taking .giving atSleep))

end AtSleep

theorem atSleep_sleep_of_ne {tail : Code Lock (Act SubAct)} (different : rule.lk ≠ .ptable)
    (last : rule.falls ∉ tail) : rule.AtSleep true (sleep rule.chan rule.lk ++ tail) := by
  rw [sleep, if_neg different]
  refine .taking .taking (.giving different ?_)
  simpa using last

theorem atSleep_sleep {tail : Code Lock (Act SubAct)} (last : rule.falls ∉ tail) :
    ∃ early, rule.AtSleep early (sleep rule.chan rule.lk ++ tail) := by
  by_cases same : rule.lk = .ptable
  · refine ⟨false, ?_⟩
    rw [sleep, if_pos same]
    refine .falling ?_
    simpa using last
  · exact ⟨true, atSleep_sleep_of_ne same last⟩

/-- Somebody is going to wake the waiters. -/
def Pending (rule : WaitRule Sub) (state : Machine Sub SubAct ncpu) : Prop :=
  ∃ thread, rule.wakes ∈ state.code thread

/-- The process sleeps for the condition, or has nothing left to do before it does. -/
def Waits (rule : WaitRule Sub) (state : Machine Sub SubAct ncpu) (slot : Slot) : Prop :=
  state.shared.AsleepOn slot rule.chan ∨ rule.AtSleep false (state.code (.proc slot))

/-- Whoever waits does so for good reason, or is going to be woken. -/
structure NoneLost (rule : WaitRule Sub) (state : Machine Sub SubAct ncpu) : Prop where
  form : ∀ thread, rule.falls ∈ state.code thread →
    (∃ early, rule.AtSleep early (state.code thread)) ∧ ∃ cpu, state.cur cpu = thread
  early : ∀ thread, rule.AtSleep true (state.code thread) → rule.blocked state.shared.sub
  late : ∀ slot, rule.Waits state slot → rule.blocked state.shared.sub ∨ rule.Pending state

/-- What an act of the subsystem may do to the condition: it lets its process sleep only while
the condition fails, and makes the condition true only with the lock, and when a wakeup
follows. -/
structure Step (rule : WaitRule Sub) (state : Machine Sub SubAct ncpu) (cpu : Fin ncpu)
    (rest : Code Lock (Act SubAct)) (result : Kern Sub × Code Lock (Act SubAct)) : Prop where
  sleeps : rule.falls ∈ result.2 →
    (∃ early, rule.AtSleep early result.2) ∧ rule.blocked result.1.sub
  frees : rule.blocked state.shared.sub → rule.blocked result.1.sub ∨
    state.owner rule.lk = some cpu ∧ rule.wakes ∈ result.2 ++ rest

/-- What an act has to do for the rule: who is put to sleep finds the condition false, and
the condition comes true with the lock and a wakeup only. -/
structure Fits (rule : WaitRule Sub) (state : Machine Sub SubAct ncpu) (cpu : Fin ncpu)
    (act : Act SubAct) (rest : Code Lock (Act SubAct)) (outcome : Effect Sub SubAct ncpu) :
    Prop where
  pushed : rule.falls ∈ outcome.push → outcome.switch = none ∧
    (∃ early, rule.AtSleep early (outcome.push ++ rest)) ∧ rule.blocked outcome.shared.sub
  frees : rule.blocked state.shared.sub → rule.blocked outcome.shared.sub ∨
    state.owner rule.lk = some cpu ∧ rule.wakes ∈ outcome.push ++ rest
  asleep : ∀ slot, outcome.shared.AsleepOn slot rule.chan →
    state.shared.AsleepOn slot rule.chan ∨
      act = .sleepSched rule.chan ∧ state.cur cpu = .proc slot
  waking : ∀ chan, act = .wakeup1 chan →
    outcome.push = [] ∧ outcome.switch = none ∧ outcome.shared.sub = state.shared.sub
  woken : act = .wakeup1 rule.chan → ∀ slot, ¬outcome.shared.AsleepOn slot rule.chan

structure Keeps (rule : WaitRule Sub) (sub : Subsystem Sub SubAct SubEntry SubIntr) : Prop where
  notCore : ¬rule.chan.IsCore
  entry : ∀ entry, rule.falls ∉ sub.entry entry
  intr : ∀ intr, rule.falls ∉ sub.intr intr

section Owner

variable {locking : SubLocking SubAct} {allowed : Lock → Lock → Prop}

section

variable (core : CoreInv locking allowed state)

include core

theorem AtSleep.owner_lk (atSleep : rule.AtSleep true (state.running cpu)) :
    state.owner rule.lk = some cpu := by
  rcases atSleep.gives with ⟨_, before, rest, codeIs, unacquired⟩
  exact core.tracked.owner_of_release codeIs unacquired

theorem AtSleep.owner_ptable (atSleep : rule.AtSleep false (state.running cpu)) :
    state.owner .ptable = some cpu := by
  rcases core.tracked.current cpu with ⟨held, holds, obeys⟩
  have runs := obeys.runs
  generalize state.running cpu = code at atSleep runs
  cases atSleep with
  | falling last =>
      have heldIs : held = {.ptable} := runs.1
      apply (holds.mem _).mp
      simp [heldIs]

theorem owner_of_wakes (head : state.running cpu = rule.wakes :: rest) :
    state.owner .ptable = some cpu := by
  rcases core.tracked.current cpu with ⟨held, holds, obeys⟩
  rw [head] at obeys
  exact (holds.mem _).mp obeys.runs.1

theorem AtSleep.locked (atSleep : rule.AtSleep early (state.running cpu)) : state.ncli cpu ≠ 0 := by
  intro unlocked
  rcases core.tracked.current cpu with ⟨held, holds, _⟩
  have empty := holds.eq_empty unlocked
  have owns : ∃ lock, state.owner lock = some cpu := by
    cases early with
    | true => exact ⟨_, atSleep.owner_lk core⟩
    | false => exact ⟨_, atSleep.owner_ptable core⟩
  rcases owns with ⟨lock, owned⟩
  have mem := (holds.mem lock).mpr owned
  simp [empty] at mem

end

end Owner

namespace NoneLost

variable {sub : Subsystem Sub SubAct SubEntry SubIntr} {locking : SubLocking SubAct}
  {allowed : Lock → Lock → Prop} {act : Act SubAct} {choice : ℕ}
  {outcome : Effect Sub SubAct ncpu}

section

variable (inv : rule.NoneLost state) (head : state.running cpu = .act act :: rest)

include inv head

/-- Behind the act at hand nobody is put to sleep, unless the act is a wakeup before that. -/
theorem falls_mem_rest (mem : rule.falls ∈ rest) :
    (∃ chan, act = .wakeup1 chan) ∧ rule.AtSleep true (state.code (state.cur cpu)) ∧
      rule.AtSleep true rest := by
  rcases inv.form _ (State.mem_rest head mem) with ⟨⟨early, atSleep⟩, _⟩
  have atHead := atSleep
  rw [← State.running, head] at atHead
  rcases atHead.after_act with ⟨isWakeup, rfl, later⟩ | ⟨_, last⟩
  · exact ⟨isWakeup, atSleep, later⟩
  · exact absurd mem last

theorem falls_notMem_rest (notWakeup : ∀ chan, act ≠ .wakeup1 chan) : rule.falls ∉ rest := by
  intro mem
  rcases (inv.falls_mem_rest head mem).1 with ⟨chan, isWakeup⟩
  exact notWakeup chan isWakeup

theorem blocked_of_falls (fits : rule.Fits state cpu act rest outcome)
    (mem : rule.falls ∈ outcome.push ∨ rule.falls ∈ rest) :
    outcome.switch = none ∧ (∃ early, rule.AtSleep early (outcome.push ++ rest)) ∧
      rule.blocked outcome.shared.sub := by
  rcases mem with pushed | inRest
  · exact fits.pushed pushed
  · rcases inv.falls_mem_rest head inRest with ⟨⟨chan, isWakeup⟩, atSleep, later⟩
    rcases fits.waking chan isWakeup with ⟨nothing, stays, same⟩
    rw [nothing, same]
    exact ⟨stays, ⟨true, later⟩, inv.early _ atSleep⟩

end

theorem of_code (inv : rule.NoneLost state) (shared : next.shared = state.shared)
    (cur : next.cur = state.cur)
    (codeIs : next.code = update state.code (state.cur cpu) code)
    (kept : rule.falls ∈ code → (∃ early, rule.AtSleep early code) ∧
      rule.AtSleep true (state.running cpu))
    (pending : rule.wakes ∈ state.running cpu → rule.wakes ∈ code) : rule.NoneLost next where
  form := by
    intro thread mem
    rw [codeIs] at mem ⊢
    rw [cur]
    by_cases same : thread = state.cur cpu
    · rw [same, update_self] at mem ⊢
      exact ⟨(kept mem).1, cpu, rfl⟩
    · rw [update_of_ne same] at mem ⊢
      exact inv.form thread mem
  early := by
    intro thread atSleep
    rw [codeIs] at atSleep
    rw [shared]
    by_cases same : thread = state.cur cpu
    · rw [same, update_self] at atSleep
      exact inv.early _ (kept atSleep.mem).2
    · rw [update_of_ne same] at atSleep
      exact inv.early thread atSleep
  late := by
    intro slot waits
    have pendingNext : rule.Pending state → rule.Pending next := by
      rintro ⟨thread, mem⟩
      refine ⟨thread, ?_⟩
      rw [codeIs]
      by_cases same : thread = state.cur cpu
      · rw [same] at mem ⊢
        rw [update_self]
        exact pending mem
      · rw [update_of_ne same]
        exact mem
    have before : rule.Waits state slot ∨ rule.blocked state.shared.sub := by
      rcases waits with asleep | atSleep
      · rw [shared] at asleep
        exact Or.inl (Or.inl asleep)
      · rw [codeIs] at atSleep
        by_cases same : Thread.proc slot = state.cur cpu
        · rw [same, update_self] at atSleep
          exact Or.inr (inv.early _ (kept atSleep.mem).2)
        · rw [update_of_ne same] at atSleep
          exact Or.inl (Or.inr atSleep)
    rw [shared]
    rcases before with waitsBefore | blocked
    · exact (inv.late slot waitsBefore).imp_right pendingNext
    · exact Or.inl blocked

theorem lock {instr : Instr Lock (Act SubAct)} (inv : rule.NoneLost state)
    (head : state.running cpu = instr :: rest) (isLock : ∀ act, instr ≠ .act act)
    (shared : next.shared = state.shared) (cur : next.cur = state.cur)
    (codeIs : next.code = update state.code (state.cur cpu) rest) :
    rule.NoneLost next := by
  apply inv.of_code shared cur codeIs
  · intro mem
    rcases inv.form _ (State.mem_rest head mem) with ⟨⟨early, atSleep⟩, _⟩
    rw [← State.running, head] at atSleep
    rcases atSleep.after_lock isLock with ⟨rfl, after⟩
    rw [head]
    exact ⟨after, atSleep⟩
  · rw [head]
    intro mem
    rcases List.mem_cons.mp mem with same | inRest
    · exact absurd same.symm (isLock _)
    · exact inRest

section Act

variable (life : LifeInv locking allowed state) (head : state.running cpu = .act act :: rest)
  (executed : exec sub act cpu (state.cur cpu) choice state.shared = some outcome)

include life head executed

theorem pending_act (pending : rule.Pending state) (notWakeup : act ≠ .wakeup1 rule.chan) :
    rule.Pending (state.apply cpu (state.cur cpu) rest outcome) := by
  rcases pending with ⟨thread, mem⟩
  rcases life.core.apply_code head executed with ⟨here, elsewhere⟩
  refine ⟨thread, ?_⟩
  by_cases same : thread = state.cur cpu
  · rw [same, ← State.running, head] at mem
    rw [same, here]
    rcases List.mem_cons.mp mem with isHead | inRest
    · exact absurd (by simpa using isHead.symm) notWakeup
    · exact List.mem_append_right _ inRest
  · rcases elsewhere thread same with unchanged | ⟨_, np, rfl, embryo⟩
    · rw [unchanged]
      exact mem
    · have noWakeup := life.dead np (Or.inr (Or.inl embryo)) _ mem
      simp [DeadInstr] at noWakeup

theorem falls_act (mem : rule.falls ∈ (state.apply cpu (state.cur cpu) rest outcome).code thread) :
    thread ≠ state.cur cpu ∧
        (state.apply cpu (state.cur cpu) rest outcome).code thread = state.code thread ∨
      thread = state.cur cpu ∧ (rule.falls ∈ outcome.push ∨ rule.falls ∈ rest) := by
  rcases life.core.apply_code head executed with ⟨here, elsewhere⟩
  by_cases same : thread = state.cur cpu
  · right
    rw [same, here] at mem
    exact ⟨same, List.mem_append.mp mem⟩
  · left
    rcases elsewhere thread same with unchanged | ⟨isForkret, _⟩
    · exact ⟨same, unchanged⟩
    · rw [isForkret] at mem
      simp [forkret] at mem

variable (inv : rule.NoneLost state) (fits : rule.Fits state cpu act rest outcome)

include inv fits

theorem waits_act {slot : Slot}
    (waits : rule.Waits (state.apply cpu (state.cur cpu) rest outcome) slot) :
    rule.Waits state slot ∨ rule.blocked outcome.shared.sub := by
  rcases waits with asleep | atSleep
  · left
    rcases fits.asleep slot asleep with before | ⟨isSleep, isSlot⟩
    · exact Or.inl before
    · right
      have headIs : state.code (.proc slot) = rule.falls :: rest := by
        rw [isSleep] at head
        rw [← isSlot]
        exact head
      rw [headIs]
      exact .falling (inv.falls_notMem_rest head (by simp [isSleep]))
  · rcases falls_act life head executed atSleep.mem with ⟨_, unchanged⟩ | ⟨_, here⟩
    · rw [unchanged] at atSleep
      exact Or.inl (Or.inr atSleep)
    · exact Or.inr (inv.blocked_of_falls head fits here).2.2

theorem not_waits_wakeup (isWakeup : act = .wakeup1 rule.chan) (slot : Slot) :
    ¬rule.Waits (state.apply cpu (state.cur cpu) rest outcome) slot := by
  rintro (asleep | atSleep)
  · exact fits.woken isWakeup slot asleep
  · rcases falls_act life head executed atSleep.mem with ⟨different, unchanged⟩ | ⟨isCur, here⟩
    · rw [unchanged] at atSleep
      rcases inv.form _ atSleep.mem with ⟨_, other, onCpu⟩
      rw [← onCpu] at atSleep different
      -- both of them would own `ptable.lock`
      have otherOwns := AtSleep.owner_ptable life.core atSleep
      rw [isWakeup] at head
      rw [owner_of_wakes life.core head, Option.some.injEq] at otherOwns
      exact different (by rw [otherOwns])
    · -- the process itself is before its `sleep`
      have nothing := (fits.waking _ isWakeup).1
      rw [nothing] at here
      have later := (inv.falls_mem_rest head (here.resolve_left (by simp))).2.2
      rw [isCur, (life.core.apply_code head executed).1, nothing] at atSleep
      exact later.not_late atSleep

theorem of_act : rule.NoneLost (state.apply cpu (state.cur cpu) rest outcome) where
  form := by
    intro thread mem
    rcases falls_act life head executed mem with ⟨different, unchanged⟩ | ⟨rfl, here⟩
    · rw [unchanged] at mem ⊢
      rcases inv.form thread mem with ⟨atSleep, other, onCpu⟩
      refine ⟨atSleep, other, ?_⟩
      rw [apply_cur_of_ne, onCpu]
      rintro rfl
      exact different onCpu.symm
    · rcases inv.blocked_of_falls head fits here with ⟨stays, atSleep, _⟩
      rw [(life.core.apply_code head executed).1]
      refine ⟨atSleep, cpu, ?_⟩
      simp [State.apply, stays]
  early := by
    intro thread atSleep
    rcases falls_act life head executed atSleep.mem with ⟨different, unchanged⟩ | ⟨_, here⟩
    · rw [unchanged] at atSleep
      rcases fits.frees (inv.early thread atSleep) with blocked | ⟨owned, _⟩
      · exact blocked
      · -- who is early in `sleep` holds the lock, so this act cannot
        rcases inv.form _ atSleep.mem with ⟨_, other, onCpu⟩
        rw [← onCpu] at atSleep different
        have otherOwns := AtSleep.owner_lk life.core atSleep
        rw [owned, Option.some.injEq] at otherOwns
        exact absurd (by rw [otherOwns]) different
    · exact (inv.blocked_of_falls head fits here).2.2
  late := by
    intro slot waits
    by_cases isWakeup : act = .wakeup1 rule.chan
    · exact absurd waits (not_waits_wakeup life head executed inv fits isWakeup slot)
    · rcases waits_act life head executed inv fits waits with before | blocked
      · rcases inv.late slot before with blocked | pending
        · refine (fits.frees blocked).imp_right ?_
          rintro ⟨_, mem⟩
          exact ⟨state.cur cpu, by rwa [(life.core.apply_code head executed).1]⟩
        · exact Or.inr (pending_act life head executed pending isWakeup)
      · exact Or.inl blocked

end Act

theorem fits_core (keeps : rule.Keeps sub)
    (executed : exec sub act cpu (state.cur cpu) choice state.shared = some outcome)
    (notSub : ∀ subAct, act ≠ .sub subAct) : rule.Fits state cpu act rest outcome := by
  have stays := staysOut_exec executed notSub
  have notPushed : rule.falls ∉ outcome.push := fun mem => keeps.notCore (stays.push _ mem)
  have table := tableStep_exec executed notSub
  have byWakeup : ∀ chan, act = .wakeup1 chan →
      outcome = { shared := state.shared.wakeup1 (some chan) } := by
    rintro chan rfl
    cases does_exec executed notSub
    rfl
  refine ⟨fun mem => absurd mem notPushed, ?_, fun slot => table.asleep, ?_, ?_⟩
  · intro blocked
    rw [stays.sub]
    exact Or.inl blocked
  · intro chan isWakeup
    rw [byWakeup chan isWakeup]
    exact ⟨rfl, rfl, rfl⟩
  · intro isWakeup slot asleep
    rw [byWakeup _ isWakeup] at asleep
    have before := asleep.of_wakeup1
    simp [Kern.AsleepOn, Kern.wakeup1, before.1, before.2] at asleep

theorem fits_sub {subAct : SubAct} (plain : SubPlain sub) (inv : rule.NoneLost state)
    (head : state.running cpu = .act (.sub subAct) :: rest)
    (executed : exec sub (.sub subAct) cpu (state.cur cpu) choice state.shared = some outcome)
    (steps : ∀ result, sub.exec subAct (state.cur cpu) choice state.shared = some result →
      rule.Step state cpu rest result) : rule.Fits state cpu (.sub subAct) rest outcome := by
  have table := (exec_sub_plain plain executed).1
  simp only [exec, Option.map_eq_some_iff] at executed
  rcases executed with ⟨result, ran, rfl⟩
  have step := steps result ran
  refine ⟨?_, step.frees, ?_, by simp, by simp⟩
  · intro mem
    rcases step.sleeps mem with ⟨⟨early, atSleep⟩, blocked⟩
    exact ⟨rfl, ⟨early, atSleep.append (inv.falls_notMem_rest head (by simp))⟩, blocked⟩
  · intro slot asleep
    left
    rw [Kern.AsleepOn, table] at asleep
    exact asleep

theorem start (inv : rule.NoneLost state) (shared : next.shared = state.shared)
    (cur : next.cur = state.cur)
    (codeIs : next.code = update state.code (state.cur cpu) (code ++ state.running cpu))
    (notHere : rule.falls ∉ state.running cpu) (notNew : rule.falls ∉ code) :
    rule.NoneLost next := by
  apply inv.of_code shared cur codeIs
  · intro mem
    rcases List.mem_append.mp mem with new | old
    · exact absurd new notNew
    · exact absurd old notHere
  · exact fun mem => List.mem_append_right _ mem

theorem falls_notMem_entry (keeps : rule.Keeps sub) {entry : Entry SubEntry} :
    rule.falls ∉ entryCode sub entry := by
  rcases entry.sub_or_not with ⟨subEntry, rfl⟩ | notSub
  · exact keeps.entry subEntry
  · intro mem
    exact keeps.notCore (isCore_entry notSub _ mem)

theorem falls_notMem_intr (keeps : rule.Keeps sub) {intr : Intr SubIntr}
    (handled : (kernel sub ncpu).intr intr cpu thread = some code) : rule.falls ∉ code := by
  rcases kernel_intr_cases handled with ⟨_, rfl⟩ | rfl | ⟨subIntr, rfl⟩
  · simp [timer]
  · simp [yield]
  · simp only [List.mem_append, List.mem_singleton, not_or]
    exact ⟨keeps.intr subIntr, by simp⟩

theorem step [DecidableEq SubAct] {label : Label (Fin ncpu) (Entry SubEntry) (Intr SubIntr)}
    (keeps : rule.Keeps sub) (plain : SubPlain sub) (life : LifeInv locking allowed state)
    (inv : rule.NoneLost state) (stepped : (kernel sub ncpu).step state label = some next)
    (steps : ∀ cpu choice act rest result, label = .run cpu choice →
      state.running cpu = .act (.sub act) :: rest →
      sub.exec act (state.cur cpu) choice state.shared = some result →
      rule.Step state cpu rest result) : rule.NoneLost next := by
  cases Program.step_cases stepped with
  | acquire head | release head => exact inv.lock head (by simp) rfl rfl rfl
  | @act cpu choice act rest outcome head executed =>
      apply of_act life head executed inv
      rcases act.sub_or_not with ⟨subAct, rfl⟩ | notSub
      · exact fits_sub plain inv head executed fun result ran =>
          steps cpu choice subAct rest result rfl head ran
      · exact fits_core keeps executed notSub
  | @call cpu entry code idle entered =>
      rcases kernel_entry entered with ⟨slot, onCpu, rfl⟩
      have notHere : rule.falls ∉ state.running cpu := by simp [idle]
      have notNew : rule.falls ∉ entryCode sub entry := falls_notMem_entry keeps
      refine inv.start rfl rfl ?_ notHere notNew
      simp [idle, onCpu]
  | @intr cpu intr code unlocked unmasked handled =>
      refine inv.start rfl rfl rfl ?_ (falls_notMem_intr keeps handled)
      intro mem
      rcases inv.form _ mem with ⟨⟨early, atSleep⟩, _⟩
      exact AtSleep.locked life.core atSleep unlocked

theorem falls_notMem_boot {freePages : List ℕ} {start : Sub} (thread : Thread ncpu) :
    rule.falls ∉ (boot ncpu freePages start : Machine Sub SubAct ncpu).code thread := by
  cases thread with
  | scheduler own => simp [boot, scheduler]
  | proc slot => by_cases isInit : slot = 0 <;> simp [boot, isInit, forkret]

theorem noneLost_boot {freePages : List ℕ} {start : Sub} :
    rule.NoneLost (boot ncpu freePages start : Machine Sub SubAct ncpu) where
  form := by
    intro thread mem
    exact absurd mem (falls_notMem_boot thread)
  early := fun thread atSleep => absurd atSleep.mem (falls_notMem_boot thread)
  late := by
    rintro slot (asleep | atSleep)
    · simp only [boot, Kern.AsleepOn, bootProc] at asleep
      split at asleep <;> simp [Proc.empty] at asleep
    · exact absurd atSleep.mem (falls_notMem_boot _)

end NoneLost

/-! ## Wakeups under the lock

Where every `wakeup` is called with the lock of the condition held, nobody has one to make
while the lock is free. -/

/-- The code of a thread in `wakeup` that releases the lock afterwards. -/
inductive AtWakeup (rule : WaitRule Sub) : Code Lock (Act SubAct) → Prop
  | taking {before rest : Code Lock (Act SubAct)} (held : .acquire rule.lk ∉ before)
      (last : rule.wakes ∉ before ++ .release rule.lk :: rest) :
      AtWakeup rule (.acquire .ptable :: rule.wakes :: (before ++ .release rule.lk :: rest))
  | waking {before rest : Code Lock (Act SubAct)} (held : .acquire rule.lk ∉ before)
      (last : rule.wakes ∉ before ++ .release rule.lk :: rest) :
      AtWakeup rule (rule.wakes :: (before ++ .release rule.lk :: rest))

theorem AtWakeup.append {tail : Code Lock (Act SubAct)} (atWakeup : rule.AtWakeup code)
    (last : rule.wakes ∉ tail) : rule.AtWakeup (code ++ tail) := by
  have extend : ∀ {before rest : Code Lock (Act SubAct)},
      rule.wakes ∉ before ++ .release rule.lk :: rest →
      rule.wakes ∉ before ++ .release rule.lk :: (rest ++ tail) := by
    intro before rest notMem mem
    simp only [List.mem_append, List.mem_cons, not_or] at mem notMem
    rcases mem with inBefore | isRelease | inRest | inTail
    · exact notMem.1 inBefore
    · exact notMem.2.1 isRelease
    · exact notMem.2.2 inRest
    · exact last inTail
  cases atWakeup with
  | taking held lastRest =>
      simp only [List.cons_append, List.append_assoc]
      exact .taking held (extend lastRest)
  | waking held lastRest =>
      simp only [List.cons_append, List.append_assoc]
      exact .waking held (extend lastRest)

theorem atWakeup_release :
    rule.AtWakeup (wakeup rule.chan ++ [.release rule.lk] : Code Lock (Act SubAct)) :=
  @AtWakeup.taking _ _ rule [.release .ptable] [] (by simp) (by simp)

/-- Everybody who is going to wake the waiters holds their lock. -/
def UnderLock (rule : WaitRule Sub) (state : Machine Sub SubAct ncpu) : Prop :=
  ∀ thread, rule.wakes ∈ state.code thread → rule.AtWakeup (state.code thread)

/-- A subsystem that wakes under the lock. -/
structure WakesUnderLock (rule : WaitRule Sub) (sub : Subsystem Sub SubAct SubEntry SubIntr) :
    Prop where
  different : rule.lk ≠ .ptable
  notCore : ¬rule.chan.IsCore
  entry : ∀ entry, rule.wakes ∉ sub.entry entry
  intr : ∀ intr, rule.wakes ∉ sub.intr intr
  exec : ∀ {ncpu : ℕ} (act : SubAct) (thread : Thread ncpu) (choice : ℕ) (kern : Kern Sub)
    (result : Kern Sub × Code Lock (Act SubAct)), sub.exec act thread choice kern = some result →
    rule.wakes ∈ result.2 → rule.AtWakeup result.2

namespace UnderLock

variable {sub : Subsystem Sub SubAct SubEntry SubIntr} {locking : SubLocking SubAct}
  {allowed : Lock → Lock → Prop} {act : Act SubAct}

theorem wakes_notMem_rest (under : rule.UnderLock state)
    (head : state.running cpu = .act act :: rest) : rule.wakes ∉ rest := by
  intro mem
  have atWakeup := under _ (State.mem_rest head mem)
  rw [← State.running, head] at atWakeup
  cases atWakeup with
  | waking held last => exact last mem

section

variable (core : CoreInv locking allowed state) (different : rule.lk ≠ .ptable)
  (under : rule.UnderLock state)

include core different under

theorem owner_of_wakes (mem : rule.wakes ∈ state.code thread) :
    ∃ cpu, state.cur cpu = thread ∧ state.owner rule.lk = some cpu := by
  have form : ∃ before rest, state.code thread = before ++ .release rule.lk :: rest ∧
      .acquire rule.lk ∉ before := by
    have atWakeup := under thread mem
    generalize state.code thread = code at atWakeup
    cases atWakeup with
    | @taking before rest held last =>
        exact ⟨.acquire .ptable :: rule.wakes :: before, rest, rfl, by simp [different, held]⟩
    | @waking before rest held last =>
        exact ⟨rule.wakes :: before, rest, rfl, by simp [held]⟩
  rcases form with ⟨before, rest, codeIs, unacquired⟩
  by_cases onCpu : ∃ cpu, state.cur cpu = thread
  · rcases onCpu with ⟨cpu, rfl⟩
    exact ⟨cpu, rfl, core.tracked.owner_of_release codeIs unacquired⟩
  · -- a thread on no processor holds `ptable.lock` only
    have parked := core.tracked.parked thread fun cpu same => onCpu ⟨cpu, same⟩
    rw [codeIs] at parked
    have held : rule.lk ∈ ({.ptable} : Finset Lock) := parked.runs.mem_of_release unacquired
    exact absurd (Finset.mem_singleton.mp held) different

theorem not_pending (free : state.owner rule.lk = none) : ¬rule.Pending state := by
  rintro ⟨thread, mem⟩
  rcases under.owner_of_wakes core different mem with ⟨cpu, _, owned⟩
  simp [free] at owned

end

theorem wakes_notMem_entry (wakes : rule.WakesUnderLock sub) {entry : Entry SubEntry} :
    rule.wakes ∉ entryCode sub entry := by
  rcases entry.sub_or_not with ⟨subEntry, rfl⟩ | notSub
  · exact wakes.entry subEntry
  · intro mem
    exact wakes.notCore (isCore_entry notSub _ mem)

theorem push_of_wakes (wakes : rule.WakesUnderLock sub) {choice : ℕ} {kern : Kern Sub}
    {outcome : Effect Sub SubAct ncpu}
    (executed : exec sub act cpu thread choice kern = some outcome)
    (mem : rule.wakes ∈ outcome.push) : rule.AtWakeup outcome.push := by
  rcases act.sub_or_not with ⟨subAct, rfl⟩ | notSub
  · simp only [Xv6.exec, Option.map_eq_some_iff] at executed
    rcases executed with ⟨result, ran, rfl⟩
    exact wakes.exec subAct thread choice kern result ran mem
  · have stays := staysOut_exec executed notSub
    exact absurd (stays.push _ mem) wakes.notCore

theorem step [DecidableEq SubAct] {label : Label (Fin ncpu) (Entry SubEntry) (Intr SubIntr)}
    (wakes : rule.WakesUnderLock sub) (plain : SubPlain sub) (core : CoreInv locking allowed state)
    (under : rule.UnderLock state) (stepped : (kernel sub ncpu).step state label = some next) :
    rule.UnderLock next := by
  apply Program.code_step (fun _ code => rule.wakes ∈ code → rule.AtWakeup code) under stepped
  · intro thread instr rest isLock before mem
    have atWakeup := before (List.mem_cons_of_mem _ mem)
    cases atWakeup with
    | taking held last => exact .waking held last
    | waking held last => exact absurd rfl (isLock _)
  · intro _ entry thread code _ entered
    rcases kernel_entry entered with ⟨slot, rfl, rfl⟩
    exact fun mem => absurd mem (wakes_notMem_entry wakes)
  · intro intr cpu code unlocked handled mem
    exfalso
    rcases List.mem_append.mp mem with new | old
    · rcases kernel_intr_cases handled with ⟨_, rfl⟩ | rfl | ⟨subIntr, rfl⟩
      · simp [timer] at new
      · simp [yield] at new
      · simp only [List.mem_append, List.mem_singleton, reduceCtorEq, Instr.act.injEq,
          or_false] at new
        exact wakes.intr subIntr new
    · -- a processor that holds a lock takes no interrupts
      rcases under.owner_of_wakes core wakes.different old with ⟨other, same, owned⟩
      rcases core.tracked.current cpu with ⟨held, holds, _⟩
      rw [core.tracked.cur_injective same, ← holds.mem, holds.eq_empty unlocked] at owned
      simp at owned
  · intro cpu choice act rest outcome _ head executed
    have notRest := under.wakes_notMem_rest head
    refine ⟨?_, ?_⟩
    · intro mem
      have pushed : rule.wakes ∈ outcome.push := (List.mem_append.mp mem).resolve_right notRest
      exact (push_of_wakes wakes executed pushed).append notRest
    · intro thread code spawned
      rw [(exec_ends plain executed).2 thread code spawned]
      simp [forkret]

end UnderLock

theorem underLock_boot {freePages : List ℕ} {start : Sub} :
    rule.UnderLock (boot ncpu freePages start : Machine Sub SubAct ncpu) := by
  intro thread mem
  cases thread with
  | scheduler own => simp [boot, scheduler] at mem
  | proc slot => by_cases isInit : slot = 0 <;> simp [boot, isInit, forkret] at mem

end WaitRule

end Xv6
