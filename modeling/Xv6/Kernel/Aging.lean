import Xv6.Kernel.Idle

/-!
# Aging

`ageprocs` moves a process to the first queue that it finds `RUNNABLE` in another one and not
dispatched for more than `AGING_THRESHOLD` ticks. It drops the lock of the process table between
the test and the move.
-/

namespace Xv6

open Threads Transition

variable {ncpu : ℕ} {state next : KernMachine ncpu} {label : KernLabel ncpu} {cpu other : Fin ncpu}
  {act : Act Empty} {rest : Code Lock (Act Empty)} {choice : ℕ} {slot : Slot} {pid : ℤ}
  {outcome : Effect Unit Empty ncpu} {trace : KernTrace ncpu}

/-- The process that the scheduler gives a processor. -/
def dispatchedBy (state : KernMachine ncpu) : KernLabel ncpu → Option Slot
  | .run cpu choice =>
      match actOf state (.run cpu choice) with
      | some .pick => if bound : choice < NPROC then some ⟨choice, bound⟩ else none
      | _ => none
  | _ => none

/-- The number of ticks since the process was last dispatched, or since `fork` has set its
clock. -/
def ticksSince (slot : Slot) : KernTrace ncpu → ℕ
  | [] => 0
  | (state, label) :: trace =>
      if dispatchedBy state label = some slot ∨ actOf state label = some (.forkTicks slot) then 0
      else if actOf state label = some .tick then ticksSince slot trace + 1
      else ticksSince slot trace

/-- No tick is counted in this part of a run. -/
def SameTick (trace : KernTrace ncpu) : Prop :=
  Trace.All (fun state label => actOf state label ≠ some .tick) trace

/-- In this tick `ageprocs`, holding the lock of the process table, has found the process at `slot`
starved. -/
def Tested (slot : Slot) (trace : KernTrace ncpu) : Prop :=
  ∃ since scan cpu choice past osTicks, trace = since ++ (scan, .run cpu choice) :: past ∧ SameTick since ∧
    actOf scan (.run cpu choice) = some (.ageScan osTicks slot) ∧ scan.owner .ptable = some cpu ∧
    (scan.shared.proc slot).state = .runnable ∧
    (scan.shared.proc slot).scheduleStatus.queueId ≠ ROUND_ROBIN ∧
    AGING_THRESHOLD < ticksSince slot past

/-- After the test `ageprocs` has read this pid from the slot. -/
def Promoted (pid : ℤ) (trace : KernTrace ncpu) : Prop :=
  ∃ since read label past slot, trace = since ++ (read, label) :: past ∧ SameTick since ∧
    actOf read label = some (.ageQueue slot) ∧ pid = (read.shared.proc slot).pid ∧
    Tested slot past

def isAgeScan : Instr Lock (Act Empty) → Bool
  | .act (.ageScan _ _) => true
  | _ => false

/-- The step carries out a `change_queue` that `ageprocs` has called: the loop of `ageprocs`
goes on after it. -/
def agedBy (state : KernMachine ncpu) : KernLabel ncpu → Option ℤ
  | .run cpu _ =>
      match state.running cpu with
      | .act (.setQueue pid _) :: rest => if rest.any isAgeScan then some pid else none
      | _ => none
  | _ => none

/-! ## Where the loop of `ageprocs` is -/

/-- What the instructions of `fork` and `ageprocs` are followed by, and what has been before
them. -/
def AgingCode (trace : KernTrace ncpu) : Instr Lock (Act Empty) → Code Lock (Act Empty) → Prop
  | .act (.forkRunnable np), after =>
      ∃ rest, after = .acquire .tickslock :: .act (.forkTicks np) :: rest
  | .act (.ageQueue slot), _ => Tested slot trace
  | .act (.setQueue pid _), after => after.any isAgeScan = true → Promoted pid trace
  | _, _ => True

theorem SameTick.cons (same : SameTick trace) (notTick : actOf state label ≠ some .tick) :
    SameTick ((state, label) :: trace) :=
  Trace.all_cons.mpr ⟨notTick, same⟩

theorem Tested.later (tested : Tested slot trace) (notTick : actOf state label ≠ some .tick) :
    Tested slot ((state, label) :: trace) := by
  rcases tested with ⟨since, scan, cpu, choice, past, osTicks, rfl, same, facts⟩
  exact ⟨(state, label) :: since, scan, cpu, choice, past, osTicks, rfl, same.cons notTick, facts⟩

theorem Promoted.later (promoted : Promoted pid trace) (notTick : actOf state label ≠ some .tick) :
    Promoted pid ((state, label) :: trace) := by
  rcases promoted with ⟨since, read, readLabel, past, slot, rfl, same, facts⟩
  exact ⟨(state, label) :: since, read, readLabel, past, slot, rfl, same.cons notTick, facts⟩

theorem AgingCode.later {instr : Instr Lock (Act Empty)} {after : Code Lock (Act Empty)}
    (code : AgingCode trace instr after) (notTick : actOf state label ≠ some .tick) :
    AgingCode ((state, label) :: trace) instr after := by
  cases instr with
  | acquire lock | release lock => trivial
  | act act =>
      cases act with
      | forkRunnable np => exact code
      | ageQueue slot => exact Tested.later code notTick
      | setQueue pid queue => exact fun scans => (code scans).later notTick
      | _ => trivial

theorem Calm.suffix {code : Code Lock (Act Empty)} (calm : Calm rest) (suffix : code <:+ rest) :
    Calm code :=
  fun instr mem => calm instr (suffix.subset mem)

theorem Calm.not_any (calm : Calm rest) : rest.any isAgeScan = false := by
  rw [List.any_eq_false]
  intro instr mem isScan
  apply calm instr mem
  cases instr with
  | acquire lock | release lock => simp [isAgeScan] at isScan
  | act act =>
      cases act with
      | ageScan osTicks index => trivial
      | _ => simp [isAgeScan] at isScan

theorem AgingCode.of_notFork {instr : Instr Lock (Act Empty)} {after : Code Lock (Act Empty)}
    (calm : Calm (instr :: after)) (notFork : ∀ np, instr ≠ .act (.forkRunnable np)) :
    AgingCode trace instr after := by
  cases instr with
  | acquire lock | release lock => trivial
  | act act =>
      cases act with
      | forkRunnable np => exact absurd rfl (notFork np)
      | ageQueue slot => exact absurd trivial (calm _ List.mem_cons_self)
      | setQueue pid queue =>
          intro scans
          rw [calm.tail.not_any] at scans
          contradiction
      | _ => trivial

theorem AgingCode.of_calm {instr : Instr Lock (Act Empty)} {after : Code Lock (Act Empty)}
    {older : KernTrace ncpu} (code : AgingCode older instr after) (calm : Calm (instr :: after)) :
    AgingCode trace instr after := by
  by_cases isFork : ∃ np, instr = .act (.forkRunnable np)
  · rcases isFork with ⟨np, rfl⟩
    exact code
  · exact .of_notFork calm (fun np same => isFork ⟨np, same⟩)

theorem actOf_some (isAct : actOf state label = some act) :
    ∃ cpu choice rest, label = .run cpu choice ∧ state.running cpu = .act act :: rest := by
  cases label with
  | call | intr => simp [actOf] at isAct
  | run cpu choice =>
      simp only [actOf] at isAct
      split at isAct
      · rename_i other rest head
        cases isAct
        exact ⟨cpu, choice, rest, rfl, head⟩
      · contradiction

theorem moved_of_inClock {now queue : ℤ} {thread : Thread ncpu} {kern : Kern Unit}
    (inClock : InClock now (.act act :: rest))
    (executed : exec noSub act cpu thread choice kern = some outcome)
    (mem : .act (.setQueue pid queue) ∈ outcome.push) :
    ∃ slot, act = .ageQueue slot ∧ pid = (kern.proc slot).pid := by
  rcases inClock.head_cases with ⟨rfl, _⟩ | ⟨rfl, _⟩ | isAfter
  · cases does_exec executed fun subAct => subAct.elim
    simp [wakeup, ageprocs] at mem
  · cases does_exec executed fun subAct => subAct.elim
    simp at mem
  · cases does_exec executed fun subAct => subAct.elim with
    | wakeup | setQueue sets | ages _ _ _ | passes | aged _ => simp at mem
    | @ageQueue _ slot =>
        refine ⟨slot, rfl, ?_⟩
        simp only [changeQueue] at mem
        split at mem
        · simp at mem
        · simp only [List.mem_cons, reduceCtorEq, Instr.act.injEq, Act.setQueue.injEq,
            List.not_mem_nil, or_false, false_or] at mem
          exact mem.1
    | _ => exact isAfter.elim

/-! ## When processes were dispatched -/

/-- The `fork` of this process has made it `RUNNABLE` and is about to set its clock. -/
def InFork (state : KernMachine ncpu) (slot : Slot) : Prop :=
  ∃ cpu rest, state.running cpu = .acquire .tickslock :: .act (.forkTicks slot) :: rest ∨
    state.running cpu = .act (.forkTicks slot) :: rest

section

variable (core : CoreInv noLocking (fun _ _ => True) state)

include core

theorem CoreInv.owner_of_inFork
    (atFork : state.running cpu = .acquire .tickslock :: .act (.forkTicks slot) :: rest ∨
      state.running cpu = .act (.forkTicks slot) :: rest) :
    state.owner .ptable = some cpu := by
  rcases core.tracked.current cpu with ⟨held, holds, obeys⟩
  rw [← holds.mem]
  have runs := obeys.runs
  rcases atFork with head | head
  · rw [head] at runs
    simpa using runs.2.1.1
  · rw [head] at runs
    exact runs.1.1

theorem CoreInv.not_inFork {osTicks : ℤ} {index : ℕ}
    (head : state.running cpu = .act (.ageScan osTicks index) :: rest) : ¬InFork state slot := by
  rintro ⟨forker, after, atFork⟩
  have scanOwns : state.owner .ptable = some cpu := by
    rcases core.tracked.current cpu with ⟨held, holds, obeys⟩
    have runs := obeys.runs
    rw [head] at runs
    have isHeld : held = {.ptable} := runs.1
    rw [← holds.mem, isHeld, Finset.mem_singleton]
  have forkOwns := core.owner_of_inFork atFork
  rw [scanOwns, Option.some.injEq] at forkOwns
  rw [← forkOwns, head] at atFork
  simp at atFork

theorem InFork.step (inFork : InFork state slot) (stepped : kernStep state label = some next)
    (notDone : actOf state label ≠ some (.forkTicks slot)) : InFork next slot := by
  rcases inFork with ⟨forker, after, atFork⟩
  have others : ∀ {cpu : Fin ncpu} {code : Code Lock (Act Empty)}, cpu ≠ forker →
      Function.update state.code (state.cur cpu) code (state.cur forker) = state.running forker := by
    intro cpu code different
    exact Function.update_of_ne
      (fun same => different (core.tracked.cur_injective same).symm) code state.code
  cases Program.step_cases stepped with
  | @acquire cpu choice lock rest head free =>
      refine ⟨forker, after, ?_⟩
      by_cases same : cpu = forker
      · subst same
        right
        simp only [State.running, Function.update_self]
        rw [head] at atFork
        rcases atFork with isFork | isFork <;> cases isFork
        rfl
      · simp only [State.running, others same]
        exact atFork
  | @release cpu _ _ _ head | @call cpu _ _ head =>
      refine ⟨forker, after, ?_⟩
      by_cases same : cpu = forker
      · rw [← same, head] at atFork
        simp at atFork
      · simp only [State.running, others same]
        exact atFork
  | @intr cpu intr code unlocked unmasked handled =>
      refine ⟨forker, after, ?_⟩
      by_cases same : cpu = forker
      · have owned := core.owner_of_inFork atFork
        rcases core.tracked.current forker with ⟨held, holds, _⟩
        rw [same] at unlocked
        rw [← holds.mem, holds.eq_empty unlocked] at owned
        simp at owned
      · simp only [State.running, others same]
        exact atFork
  | @act cpu choice act rest outcome head executed =>
      refine ⟨forker, after, ?_⟩
      by_cases same : forker = cpu
      · rw [same, head] at atFork
        simp only [List.cons.injEq, reduceCtorEq, false_and, Instr.act.injEq, false_or] at atFork
        simp [actOf, head, atFork.1] at notDone
      · rw [core.running_of_ne head executed same]
        exact atFork

theorem CoreInv.lastRun (head : state.running cpu = .act act :: rest)
    (executed : exec noSub act cpu (state.cur cpu) choice state.shared = some outcome)
    (isAlive : (outcome.shared.proc slot).Alive) (notStarted : act ≠ .forkRunnable slot) :
    (outcome.shared.proc slot).scheduleStatus.lastRun =
      if dispatchedBy state (.run cpu choice) = some slot ∨ act = .forkTicks slot then
        toInt state.shared.ticks
      else (state.shared.proc slot).scheduleStatus.lastRun := by
  have isAct : actOf state (.run cpu choice) = some act := by simp [actOf, head]
  by_cases isPick : act = .pick
  · subst isPick
    simp only [dispatchedBy, isAct, reduceCtorEq, or_false]
    generalize state.cur cpu = thread at executed
    cases does_exec executed fun subAct => subAct.elim with
    | @pick _ picked isChoice runnable =>
        subst isChoice
        by_cases same : slot = picked
        · simp [same, Proc.dispatch]
        · simp [same, Ne.symm same]
    | noPick isEnd => simp [Nat.not_lt.2 isEnd]
  · have notDispatched : dispatchedBy state (.run cpu choice) = none := by
      simp only [dispatchedBy, isAct]
      split
      · rename_i picked
        exact absurd (Option.some.inj picked) isPick
      · rfl
    simp only [notDispatched, reduceCtorEq, false_or]
    by_cases isBorn : act = .forkTicks slot
    · subst isBorn
      generalize state.cur cpu = thread at executed
      cases does_exec executed fun subAct => subAct.elim
      simp
    · rw [if_neg isBorn]
      cases statusStep_exec executed (fun subAct => subAct.elim) slot with
      | reset isReset isNow =>
          subst isReset
          have embryo := core.embryo_of_head head rfl
          rcases (core.slotStep head executed (fun subAct => subAct.elim) slot).alive isAlive with
            wasAlive | started
          · simp [Proc.Alive, embryo] at wasAlive
          · contradiction
      | born isNowBorn isNow => exact absurd isNowBorn isBorn
      | queued isQueued isNow => rw [isNow]
      | dispatched isDispatched runnable isNow => exact absurd isDispatched isPick
      | kept queueId lastRun => exact lastRun

end

theorem toInt_dvd (word : ℕ) : (2 ^ 32 : ℤ) ∣ toInt word - word := by
  have same : toInt word % (2 ^ 32 : ℕ) = word % (2 ^ 32 : ℕ) := Int.bmod_emod
  omega

theorem toInt_succ_dvd (word : ℕ) : (2 ^ 32 : ℤ) ∣ toInt ((word + 1) % 2 ^ 32) - (toInt word + 1) := by
  have wrapped := toInt_dvd ((word + 1) % 2 ^ 32)
  have before := toInt_dvd word
  omega

theorem stamp_tick {stamp now later : ℤ} {ticks : ℕ} (counted : (2 ^ 32 : ℤ) ∣ later - (now + 1))
    (agree : (2 ^ 32 : ℤ) ∣ now - stamp - ticks) :
    (2 ^ 32 : ℤ) ∣ later - stamp - (ticks + 1 : ℕ) := by
  omega

theorem threshold_lt {stamp now : ℤ} {ticks : ℕ} (agree : (2 ^ 32 : ℤ) ∣ now - stamp - ticks)
    (old : Int.bmod (now - stamp) (2 ^ 32) > AGING_THRESHOLD) : AGING_THRESHOLD < ticks := by
  simp only [AGING_THRESHOLD, Int.bmod] at old ⊢
  omega

/-- Time stamps are right, apart from a `fork` that is about to set one, and `ageprocs` has
tested what it moves. -/
structure AgingInv (trace : KernTrace ncpu) (state : KernMachine ncpu) : Prop where
  clock : ClockInv state
  code : ∀ thread instr after, instr :: after <:+ state.code thread → AgingCode trace instr after
  lastRun : ∀ slot, (state.shared.proc slot).Alive → ¬InFork state slot →
    (2 ^ 32 : ℤ) ∣ toInt state.shared.ticks - (state.shared.proc slot).scheduleStatus.lastRun -
      ticksSince slot trace

namespace AgingInv

section

variable (inv : AgingInv trace state)

include inv

theorem inFork_of_started (head : state.running cpu = .act (.forkRunnable slot) :: rest)
    (executed : exec noSub (.forkRunnable slot) cpu (state.cur cpu) choice state.shared = some outcome) :
    InFork (state.apply cpu (state.cur cpu) rest outcome) slot := by
  have followed : AgingCode trace (.act (.forkRunnable slot)) rest :=
    inv.code (state.cur cpu) _ _ (by rw [← State.running, head])
  rcases followed with ⟨after, isRest⟩
  cases thread : state.cur cpu with
  | scheduler own =>
      rw [thread] at executed
      cases does_exec executed fun subAct => subAct.elim
  | proc curproc =>
      rw [thread] at executed
      cases does_exec executed fun subAct => subAct.elim
      refine ⟨cpu, after, Or.inl ?_⟩
      simp [State.running, State.apply, thread, isRest]

theorem lastRun_step (stepped : kernStep state label = some next) (slot : Slot)
    (isAlive : (next.shared.proc slot).Alive) (notInFork : ¬InFork next slot) :
    (2 ^ 32 : ℤ) ∣ toInt next.shared.ticks - (next.shared.proc slot).scheduleStatus.lastRun -
      ticksSince slot ((state, label) :: trace) := by
  have wasNotInFork : actOf state label ≠ some (.forkTicks slot) → ¬InFork state slot :=
    fun notDone inFork => notInFork (inFork.step inv.clock.core stepped notDone)
  cases Program.step_cases stepped with
  | @acquire cpu choice lock rest head free | @release cpu choice lock rest head owned =>
      have noAct : actOf state (.run cpu choice) = none := by simp [actOf, head]
      simp only [ticksSince, dispatchedBy, noAct, reduceCtorEq, or_self, if_false]
      exact inv.lastRun slot isAlive (wasNotInFork (by simp [noAct]))
  | @call | @intr =>
      exact inv.lastRun slot isAlive (wasNotInFork (by simp [actOf]))
  | @act cpu choice act rest outcome head executed =>
      have isAct : actOf state (.run cpu choice) = some act := by simp [actOf, head]
      have isAlive : (outcome.shared.proc slot).Alive := isAlive
      -- after `forkRunnable` the process is in its `fork`
      have notStarted : act ≠ .forkRunnable slot := by
        rintro rfl
        exact notInFork (inv.inFork_of_started head executed)
      have stamp := inv.clock.core.lastRun head executed isAlive notStarted
      have wasAlive : (state.shared.proc slot).Alive :=
        ((inv.clock.core.slotStep head executed (fun subAct => subAct.elim) slot).alive
          isAlive).resolve_right notStarted
      simp only [ticksSince, isAct, Option.some.injEq]
      by_cases fresh : dispatchedBy state (.run cpu choice) = some slot ∨ act = .forkTicks slot
      · have notTick : act ≠ .tick := by
          rintro rfl
          simp [dispatchedBy, isAct] at fresh
        have ticks : outcome.shared.ticks = state.shared.ticks := ticks_exec executed notTick
        rw [if_pos fresh] at stamp ⊢
        simp [State.apply, stamp, ticks]
      · rw [if_neg fresh] at stamp ⊢
        have before := inv.lastRun slot wasAlive
          (wasNotInFork (by simpa [isAct] using fun born => fresh (Or.inr born)))
        by_cases isTick : act = .tick
        · subst isTick
          have ticks : outcome.shared.ticks = (state.shared.ticks + 1) % 2 ^ 32 := by
            cases does_exec executed fun subAct => subAct.elim
            rfl
          simp only [if_true, State.apply, stamp, ticks]
          exact stamp_tick (toInt_succ_dvd state.shared.ticks) before
        · have ticks : outcome.shared.ticks = state.shared.ticks := ticks_exec executed isTick
          simpa only [if_neg isTick, State.apply, stamp, ticks] using before

theorem code_tick {thread : Thread ncpu} {instr : Instr Lock (Act Empty)}
    {after : Code Lock (Act Empty)} (isTick : actOf state label = some .tick)
    (suffix : instr :: after <:+ state.code thread) :
    AgingCode ((state, label) :: trace) instr after := by
  have before := inv.code thread instr after suffix
  rcases actOf_some isTick with ⟨cpu, choice, rest, rfl, head⟩
  have notCalm : ¬Calm (state.running cpu) := by
    intro calm
    rw [head] at calm
    exact calm _ List.mem_cons_self trivial
  have isFirst : cpu.val = 0 := by
    by_contra notFirst
    exact notCalm (inv.clock.calm_of_ne notFirst)
  have inClock := (inv.clock.first cpu isFirst).resolve_left notCalm
  rw [head] at inClock
  rcases inClock.head_cases with ⟨_, calmCode, rfl, calm⟩ | ⟨isIret, _⟩ | isAfter
  · by_cases same : thread = state.cur cpu
    · rw [same, ← State.running, head] at suffix
      rcases List.suffix_cons_iff.mp suffix with isHead | shorter
      · cases isHead
        trivial
      · rcases List.suffix_cons_iff.mp shorter with isHead | inCalm
        · cases isHead
          trivial
        · exact before.of_calm (calm.suffix inCalm)
    · apply before.of_calm
      apply Calm.suffix _ suffix
      apply inv.clock.elsewhere
      intro zero isZero isCur
      rw [Fin.ext (isZero.trans isFirst.symm)] at isCur
      exact same isCur.symm
  · contradiction
  · exact isAfter.elim

theorem code_push {instr : Instr Lock (Act Empty)} {after : Code Lock (Act Empty)}
    (head : state.running cpu = .act act :: rest)
    (executed : exec noSub act cpu (state.cur cpu) choice state.shared = some outcome)
    (suffix : instr :: after <:+ outcome.push) :
    AgingCode ((state, .run cpu choice) :: trace) instr (after ++ rest) := by
  have isAct : actOf state (.run cpu choice) = some act := by simp [actOf, head]
  have pushed := pushedBy_exec executed (fun subAct => subAct.elim) instr
    (suffix.subset List.mem_cons_self)
  cases instr with
  | acquire lock | release lock => trivial
  | act later =>
      cases later with
      | forkRunnable np =>
          obtain rfl : act = .copyuvm np := pushed
          cases thread : state.cur cpu with
          | scheduler own => simp [thread, exec, execAny] at executed
          | proc curproc =>
              simp only [thread, exec, execProc] at executed
              split at executed <;> cases executed
              · simp only [List.suffix_cons_iff, List.cons.injEq, reduceCtorEq, false_and, false_or,
                  Instr.act.injEq, true_and, List.suffix_nil,
                  or_false] at suffix
                exact ⟨_, by rw [suffix]; rfl⟩
              · simp at suffix
      | ageQueue slot =>
          rcases pushed with ⟨osTicks, rfl, runnable, notFirst, old⟩
          refine ⟨[], state, cpu, choice, trace, osTicks, rfl, by simp [SameTick, Trace.All], isAct, ?_, runnable,
            notFirst, ?_⟩
          · rcases inv.clock.core.tracked.current cpu with ⟨held, holds, obeys⟩
            rw [head] at obeys
            obtain rfl : held = {.ptable} := obeys.runs.1
            exact (holds.mem .ptable).mp (Finset.mem_singleton_self _)
          have isNow : osTicks = toInt state.shared.ticks := inv.clock.osTicks head
          rw [isNow] at old
          exact threshold_lt
            (inv.lastRun slot (Or.inr (Or.inl runnable)) (inv.clock.core.not_inFork head)) old
      | setQueue pid queue =>
          intro scans
          rcases inv.clock.code_cases cpu with calm | inClock
          · rw [head] at calm
            have calmPush := calm_push executed (calm _ List.mem_cons_self)
            have quiet := (calm_append.mpr ⟨(calmPush.suffix suffix).tail, calm.tail⟩).not_any
            rw [quiet] at scans
            contradiction
          · rw [head] at inClock
            rcases moved_of_inClock inClock executed (suffix.subset List.mem_cons_self) with
              ⟨slot, rfl, isPid⟩
            have tested : Tested slot trace :=
              inv.code (state.cur cpu) (.act (.ageQueue slot)) rest (by rw [← State.running, head])
            exact ⟨[], state, _, trace, slot, rfl, by simp [SameTick, Trace.All], isAct, isPid,
              tested⟩
      | _ => trivial

theorem code_step (stepped : kernStep state label = some next) :
    ∀ thread instr after, instr :: after <:+ next.code thread →
      AgingCode ((state, label) :: trace) instr after := by
  have old : ∀ thread instr after, instr :: after <:+ state.code thread →
      AgingCode ((state, label) :: trace) instr after := by
    intro thread instr after suffix
    have before := inv.code thread instr after suffix
    by_cases isTick : actOf state label = some .tick
    · exact inv.code_tick isTick suffix
    · exact before.later isTick
  refine Program.forall_suffix_step old stepped ?_ ?_ ?_
  · intro cpu entry thread code _ entered instr after suffix
    have calm : Calm (instr :: after) := (calm_entry entered).suffix suffix
    apply AgingCode.of_notFork calm
    rintro np rfl
    have mem := suffix.subset List.mem_cons_self
    rcases kernel_entry entered with ⟨slot, rfl, rfl⟩
    cases entry with
    | changeQueue pid queue =>
        simp only [entryCode, changeQueue] at mem
        split at mem <;> simp at mem
    | sub entry => exact entry.elim
    | _ => simp [entryCode, fork, exit, wait, kill, sysSleep, setBjfParamsProcess,
        setBjfParamsSystem, setBjfPriority, sleepOther, wakeup] at mem
  · intro intr cpu code handled instr after suffix
    have mem := suffix.subset List.mem_cons_self
    rcases kernel_intr_cases handled with ⟨_, rfl⟩ | rfl | ⟨subIntr, _⟩
    · simp only [timer, List.mem_cons, List.not_mem_nil, or_false] at mem
      rcases mem with rfl | rfl | rfl <;> trivial
    · simp only [yield, List.cons_append, List.nil_append, List.mem_cons, List.not_mem_nil,
        or_false] at mem
      rcases mem with rfl | rfl | rfl | rfl <;> trivial
    · exact subIntr.elim
  · rintro cpu choice act rest outcome rfl head executed
    refine ⟨fun instr after suffix => inv.code_push head executed suffix, ?_⟩
    intro thread code spawned instr after suffix
    rcases (staysOut_exec executed (fun subAct => subAct.elim)).spawn thread code spawned with
      ⟨rfl, _⟩
    have mem := suffix.subset List.mem_cons_self
    rw [forkret, List.mem_singleton] at mem
    subst mem
    trivial

theorem step (stepped : kernStep state label = some next) :
    AgingInv ((state, label) :: trace) next where
  clock := inv.clock.step stepped
  code := inv.code_step stepped
  lastRun := inv.lastRun_step stepped

end

theorem boot (freePages : List ℕ) : AgingInv [] (boot ncpu freePages ()) where
  clock := ClockInv.boot freePages
  code := by
    intro thread instr after suffix
    have mem := suffix.subset List.mem_cons_self
    cases thread with
    | proc slot =>
        simp only [Xv6.boot] at mem
        split at mem <;> simp only [forkret, List.mem_singleton] at mem <;> subst mem <;> trivial
    | scheduler own =>
        simp only [Xv6.boot, scheduler, List.mem_cons, List.not_mem_nil, or_false] at mem
        rcases mem with rfl | rfl <;> trivial
  lastRun := by
    intro slot isAlive _
    by_cases isInit : slot = 0
    · have zero : toInt 0 = 0 := Int.zero_bmod
      simp [ticksSince, Xv6.boot, bootProc, isInit, SchedStat.fresh, zero]
    · simp [Xv6.boot, bootProc, isInit, Proc.empty, Proc.Alive] at isAlive

end AgingInv

/-- For every run of the kernel on any number of processors and every step of it in which
`ageprocs` moves a process to the first queue: earlier in the same tick `ageprocs` has read the
pid from a slot, and before that it has found, under the lock of the process table, that the
process in this slot was `RUNNABLE`, in another queue and not dispatched for more than
`AGING_THRESHOLD` ticks. -/
theorem aging_tested {freePages : List ℕ} (run : Run kernStep (boot ncpu freePages ()) trace state) :
    ∀ later before label older pid, trace = later ++ (before, label) :: older →
      agedBy before label = some pid → Promoted pid older := by
  rintro later before label older pid rfl isAged
  rcases run.split with ⟨earlier, _⟩
  have inv : AgingInv older before :=
    Run.invariant AgingInv (AgingInv.boot freePages) (fun inv _ _ stepped => inv.step stepped)
      earlier (Trace.all_true older)
  cases label with
  | call | intr => simp [agedBy] at isAged
  | run cpu choice =>
      simp only [agedBy] at isAged
      split at isAged
      · rename_i target queue rest head
        split at isAged
        · rename_i scans
          cases isAged
          have promoted : AgingCode older (.act (.setQueue pid queue)) rest :=
            inv.code (before.cur cpu) _ _ (by rw [← State.running, head])
          exact promoted scans
        · contradiction
      · contradiction

/-! ## A process that has slept and runs -/

/-- The number of ticks since when the process has been `RUNNABLE`. -/
def ticksRunnable (slot : Slot) : KernTrace ncpu → ℕ
  | [] => 0
  | (state, label) :: trace =>
      if (state.shared.proc slot).state ≠ .runnable then 0
      else if actOf state label = some .tick then ticksRunnable slot trace + 1
      else ticksRunnable slot trace

theorem ticksRunnable_append {later older : KernTrace ncpu}
    (was : ∃ entry ∈ later, (entry.1.shared.proc slot).state ≠ .runnable) :
    ticksRunnable slot (later ++ older) = ticksRunnable slot later := by
  induction later with
  | nil => simp at was
  | cons entry later ih =>
      simp only [List.cons_append, ticksRunnable]
      by_cases runnable : (entry.1.shared.proc slot).state = .runnable
      · have wasBefore : ∃ entry ∈ later, (entry.1.shared.proc slot).state ≠ .runnable := by
          rcases was with ⟨other, mem, notRunnable⟩
          rcases List.mem_cons.mp mem with rfl | older
          · exact absurd runnable notRunnable
          · exact ⟨other, older, notRunnable⟩
        rw [ih wasBefore]
      · rw [if_pos runnable, if_pos runnable]

/-- Init forks on the first processor; its child goes to sleep on the second one. -/
def childSleeps : List (KernLabel 2) :=
  [dispatch 0 0, go 0 1, call 0 .fork 15, dispatch 1 1, go 1 1, call 1 (.sleepOther 0) 1, [.run 1 1],
    go 1 4].flatten

def childAsleep : KernMachine 2 := arrive kernStep (boot 2 [1] ()) childSleeps

def childStillAsleep : KernMachine 2 :=
  { childAsleep with shared :=
    { childAsleep.shared with ticks := childAsleep.shared.ticks + 8000 } }

/-- Init wakes its child, and in the next tick `ageprocs` comes to its slot. -/
def wakeAndTick : List (KernLabel 2) :=
  [call 0 (.wakeupOther 0) 3, [.intr 0 .timer], go 0 8].flatten

def childTested : KernMachine 2 := arrive kernStep childStillAsleep wakeAndTick

/-- The second processor goes over to the child while `ageprocs` has dropped the lock. -/
def dispatchInBetween : List (KernLabel 2) := [go 0 3, dispatch 1 1, go 1 2, go 0 1].flatten

def childMoved : KernMachine 2 := arrive kernStep childTested dispatchInBetween

theorem run_childTested :
    ∃ past, Run kernStep (boot 2 [1] ()) past childTested ∧ ticksRunnable 1 past = 1 := by
  have start : Run kernStep (boot 2 [1] ()) [] (boot 2 [1] ()) := .refl
  rcases start.arrive childSleeps (fun _ => true) (by decide +kernel) with ⟨trace, run, _⟩
  have idle : childAsleep.shared.Idle := by decide +kernel
  have ticks : Leads kernStep childAsleep childStillAsleep := by
    have isFirst : (0 : Fin 2).val = 0 := rfl
    apply leads_ticks isFirst _ _ _ _ idle 8000 _
    all_goals decide +kernel
  rcases ticks with ⟨during, ticked⟩
  rcases (run.trans ticked).arrive wakeAndTick
    (fun past => decide (ticksRunnable 1 past = 1 ∧
      ∃ entry ∈ past, (entry.1.shared.proc 1).state ≠ .runnable)) (by decide +kernel) with
    ⟨later, tested, checked⟩
  rcases of_decide_eq_true checked with ⟨isOne, wasAsleep⟩
  refine ⟨_, tested, ?_⟩
  rw [ticksRunnable_append wasAsleep, isOne]

theorem run_childMoved : ∃ since, Run kernStep childTested since childMoved := by
  have start : Run kernStep childTested [] childTested := .refl
  rcases start.arrive dispatchInBetween (fun _ => true) (by decide +kernel) with ⟨since, run, _⟩
  exact ⟨_, run⟩

/-- A process that has slept for 8000 ticks and has been `RUNNABLE` for one of them is found
starved; while `ageprocs` has dropped the lock, it is dispatched; and it is moved to the first
queue while it runs. -/
theorem running_process_aged : ∃ (past since : KernTrace 2) (scan before : KernMachine 2),
    Run kernStep (boot 2 [1] ()) past scan ∧ actOf scan (.run 0 0) = some (.ageScan 8001 1) ∧
    (scan.shared.proc 1).pid = 2 ∧ ticksRunnable 1 past = 1 ∧
    Run kernStep scan since before ∧ agedBy before (.run 0 0) = some 2 ∧
    ∀ slot, (before.shared.proc slot).pid = 2 → (before.shared.proc slot).state = .running := by
  rcases run_childTested with ⟨past, tested, isOne⟩
  rcases run_childMoved with ⟨since, moved⟩
  refine ⟨past, since, childTested, childMoved, tested, ?_, ?_, isOne, moved, ?_, ?_⟩
  all_goals decide +kernel

theorem running_process_tested : ∃ (trace : KernTrace 2) (before : KernMachine 2),
    Run kernStep (boot 2 [1] ()) trace before ∧ agedBy before (.run 0 0) = some 2 ∧
    Promoted 2 trace := by
  rcases run_childTested with ⟨past, tested, _⟩
  rcases run_childMoved with ⟨since, moved⟩
  have isAged : agedBy childMoved (.run 0 0) = some 2 := by decide +kernel
  have enabled : (kernStep childMoved (.run 0 0)).isSome = true := by decide +kernel
  rcases Option.isSome_iff_exists.mp enabled with ⟨next, stepped⟩
  have run := tested.trans moved
  exact ⟨since ++ past, childMoved, run, isAged,
    aging_tested (run.tail stepped) [] childMoved (.run 0 0) (since ++ past) 2 rfl isAged⟩

end Xv6
