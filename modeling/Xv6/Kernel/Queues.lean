import Xv6.Kernel.History
import Xv6.Kernel.LockOrder
import Xv6.Kernel.Scheduler

/-!
# Queues of runnable processes

`allocproc` leaves a new process in no queue, and `fork` puts it in one after it has made it
`RUNNABLE`. Outside of that time every process that can run is in one of the queues, and the
scheduler finds the right one.
-/

namespace Xv6

open Threads Transition

variable {Sub SubAct SubEntry SubIntr : Type} {ncpu : ℕ}

/-- What an act can do to the scheduling data of a process. -/
inductive StatusStep (kern : Kern Sub) (act : Act SubAct) (slot : Slot) (after : SchedStat) : Prop
  | reset (isAct : act = .kstack slot) (isNow : after = .fresh)
  | born (isAct : act = .forkTicks slot)
      (isNow : after =
        { (kern.proc slot).scheduleStatus with
          lastRun := toInt kern.ticks, arrivalTime := toInt kern.ticks })
  | queued {queue : ℤ} (isAct : act = .setQueue (kern.proc slot).pid queue)
      (isNow : after = { (kern.proc slot).scheduleStatus with queueId := queue })
  | dispatched (isAct : act = .pick) (runnable : (kern.proc slot).state = .runnable)
      (isNow : after = ((kern.proc slot).dispatch (toInt kern.ticks)).scheduleStatus)
  | kept (queueId : after.queueId = (kern.proc slot).scheduleStatus.queueId)
      (lastRun : after.lastRun = (kern.proc slot).scheduleStatus.lastRun)

section Status

variable {sub : Subsystem Sub SubAct SubEntry SubIntr} {kern : Kern Sub} {act : Act SubAct}
  {cpu : Fin ncpu} {thread : Thread ncpu} {curproc slot np : Slot} {choice : ℕ}
  {outcome : Effect Sub SubAct ncpu}

theorem StatusStep.same {after : SchedStat} (same : after = (kern.proc slot).scheduleStatus) :
    StatusStep kern act slot after :=
  .kept (by rw [same]) (by rw [same])

theorem StatusStep.of_update {after : Kern Sub} {new : Proc}
    (table : after.proc = Function.update kern.proc np new)
    (here : StatusStep kern act np new.scheduleStatus) :
    StatusStep kern act slot (after.proc slot).scheduleStatus := by
  rw [table]
  by_cases same : slot = np
  · rw [same, Function.update_self]
    exact here
  · rw [Function.update_of_ne same]
    exact .same rfl

theorem statusStep_exec (executed : exec sub act cpu thread choice kern = some outcome)
    (notSub : ∀ subAct, act ≠ .sub subAct) (slot : Slot) :
    StatusStep kern act slot (outcome.shared.proc slot).scheduleStatus := by
  cases does_exec executed notSub with
  | stack free => exact .of_update rfl (.reset rfl rfl)
  | stamp => exact .of_update rfl (.born rfl rfl)
  | pick isChoice runnable => exact .of_update rfl (.dispatched rfl runnable rfl)
  | exit notInit =>
      rcases kern.exit_spec _ slot with ⟨state, isNow, _⟩
      exact .same (by rw [isNow])
  | wakeup =>
      rcases kern.wakeup1_spec _ slot with ⟨state, isNow, _⟩
      exact .same (by rw [isNow])
  | kill =>
      simp only [Kern.kill]
      split
      · exact .same rfl
      · exact .of_update rfl (.same rfl)
  | setQueue sets =>
      cases sets with
      | missing => exact .same rfl
      | found isFirst =>
          have isPid := Kern.find_some isFirst
          simp only [decide_eq_true_eq] at isPid
          exact .of_update rfl (.queued (by rw [isPid]) rfl)
  | setParams sets | setPriority sets =>
      cases sets with
      | missing => exact .same rfl
      | found isFirst => exact .of_update rfl (.kept rfl rfl)
  | setSystem => exact .kept rfl rfl
  | claim _ | noStack _ | copied _ | notCopied _ | start | reap _ _ | sleep | clear | yield =>
      exact .of_update rfl (.same rfl)
  | _ => exact .same rfl

theorem SlotStep.alive {after : Kern Sub} (step : SlotStep kern after thread act slot)
    (isAlive : (after.proc slot).Alive) : (kern.proc slot).Alive ∨ act = .forkRunnable slot := by
  have notWoken : ∀ {state : ProcState}, kern.Woken slot state →
      (state = .sleeping ∨ state = .runnable ∨ state = .running) → (kern.proc slot).Alive := by
    rintro state (rfl | ⟨asleep, _⟩) isAlive
    · exact isAlive
    · exact Or.inl asleep
  cases step with
  | claimed _ _ isNow | dropped _ _ isNow | reaped _ _ _ _ isNow | exited _ _ _ isNow =>
      simp [isNow, Proc.Alive] at isAlive
  | made _ _ embryo isNow => simp [isNow, Proc.Alive, embryo] at isAlive
  | started isAct _ _ => exact Or.inr isAct
  | handed _ _ _ _ woken isNow | killed _ _ woken isNow =>
      rw [isNow] at isAlive
      exact Or.inl (notWoken woken isAlive)
  | kept _ _ _ state =>
      left
      rcases state with same | ⟨_, wasAlive⟩
      · rw [Proc.Alive, ← same]
        exact isAlive
      · exact wasAlive

theorem Kern.Pids.find (pids : kern.Pids) (used : (kern.proc slot).state ≠ .unused) :
    (kern.find fun _ proc => proc.pid = (kern.proc slot).pid) = some slot := by
  cases found : kern.find fun _ proc => proc.pid = (kern.proc slot).pid with
  | none =>
      have notFound := List.find?_eq_none.mp found slot (List.mem_finRange slot)
      simp at notFound
  | some hit =>
      have isPid : (kern.proc hit).pid = (kern.proc slot).pid := by simpa using Kern.find_some found
      rw [pids.distinct slot hit (pids.used slot used) isPid.symm]

theorem Kern.Pids.setQueue {queue : ℤ} (pids : kern.Pids)
    (used : (kern.proc slot).state ≠ .unused)
    (executed : exec sub (.setQueue (kern.proc slot).pid queue) cpu thread choice kern = some outcome) :
    (outcome.shared.proc slot).scheduleStatus.queueId = queue := by
  have isFirst := pids.find used
  cases does_exec executed (by simp) with
  | setQueue sets =>
      cases sets with
      | missing notFound => simp [isFirst] at notFound
      | found found =>
          rw [isFirst] at found
          cases found
          simp

/-! ## Where instructions come from -/

/-- The process at `slot` has starved, as `ageprocs` tests it. -/
def Kern.Starved (kern : Kern Sub) (osTicks : ℤ) (slot : Slot) : Prop :=
  (kern.proc slot).state = .runnable ∧
    (kern.proc slot).scheduleStatus.queueId ≠ ROUND_ROBIN ∧
    Int.bmod (osTicks - (kern.proc slot).scheduleStatus.lastRun) (2 ^ 32) > AGING_THRESHOLD

/-- Which acts put the instructions of `fork`, `ageprocs` and `change_queue` in front. -/
def PushedBy (kern : Kern Sub) (act : Act SubAct) : Instr Lock (Act SubAct) → Prop
  | .act (.setQueue _ queue) => IsQueue queue
  | .act (.forkRunnable np) | .act (.forkTicks np) => act = .copyuvm np
  | .act (.ageScan osTicks index) =>
      act = .tick ∧ osTicks = toInt ((kern.ticks + 1) % 2 ^ 32) ∨
        ∃ before, act = .ageScan osTicks before ∧ index = before + 1
  | .act (.ageQueue slot) => ∃ osTicks, act = .ageScan osTicks slot ∧ kern.Starved osTicks slot
  | .act .tick | .act .iret => False
  | _ => True

theorem pushedBy_sleep {chan : Chan} {lk : Lock} :
    ∀ instr ∈ (sleep chan lk : Code Lock (Act SubAct)), PushedBy kern act instr := by
  unfold sleep
  split <;> simp [PushedBy]

theorem pushedBy_changeQueue {pid queue : ℤ} (isQueue : IsQueue queue ∨ queue = UNSET) :
    ∀ instr ∈ (changeQueue pid queue : Code Lock (Act SubAct)), PushedBy kern act instr := by
  have isDefault : ∀ {chosen}, defaultQueue pid queue = some chosen → IsQueue chosen := by
    intro chosen isChosen
    unfold defaultQueue at isChosen
    rcases isQueue with (rfl | rfl | rfl) | rfl
    · cases isChosen
      exact Or.inl rfl
    · cases isChosen
      exact Or.inr (Or.inl rfl)
    · cases isChosen
      exact Or.inr (Or.inr rfl)
    · rw [if_pos rfl] at isChosen
      split at isChosen
      · cases isChosen
        exact Or.inl rfl
      · split at isChosen <;> cases isChosen
        exact Or.inr (Or.inl rfl)
  unfold changeQueue
  split
  · simp
  · rename_i chosen isChosen
    simpa [PushedBy] using isDefault isChosen

theorem pushedBy_exec (executed : exec sub act cpu thread choice kern = some outcome)
    (notSub : ∀ subAct, act ≠ .sub subAct) : ∀ instr ∈ outcome.push, PushedBy kern act instr := by
  cases does_exec executed notSub with
  | queue => exact pushedBy_changeQueue (Or.inr rfl)
  | ageQueue => exact pushedBy_changeQueue (Or.inl (Or.inl rfl))
  | wait isChild noZombie | sleepsOn early alive | otherSleeps =>
      simp only [List.forall_mem_append, List.forall_mem_singleton]
      exact ⟨pushedBy_sleep, trivial⟩
  | @ages _ osTicks slot runnable notFirst old =>
      have starved : kern.Starved osTicks slot := ⟨runnable, notFirst, old⟩
      simpa [PushedBy] using starved
  | _ => simp [PushedBy, Xv6.wakeup, ageprocs, scheduler]

end Status

theorem noPlain : SubPlain noSub where
  entry := fun entry => entry.elim
  intr := fun intr => intr.elim
  exec := fun act => act.elim

abbrev KernTrace (ncpu : ℕ) := Trace (KernMachine ncpu) (KernLabel ncpu)

def actOf (state : KernMachine ncpu) : KernLabel ncpu → Option (Act Empty)
  | .run cpu _ =>
      match state.running cpu with
      | .act act :: _ => some act
      | _ => none
  | _ => none

/-- A `fork` has made the process `RUNNABLE`, and no `change_queue` has put it in a queue yet. -/
def forkOpen (slot : Slot) : KernTrace ncpu → Bool
  | [] => false
  | (state, label) :: trace =>
      match actOf state label with
      | some (.forkRunnable np) => np = slot || forkOpen slot trace
      | some (.setQueue pid _) => pid ≠ (state.shared.proc slot).pid && forkOpen slot trace
      | _ => forkOpen slot trace

/-- The queue number that a system call passes on. -/
def calledQueue : KernLabel ncpu → Option ℤ
  | .call _ (.changeQueue _ queue) => some queue
  | _ => none

/-- Queue numbers from users are checked in `sysproc.c`. -/
def UserQueue (label : KernLabel ncpu) : Prop := ∀ queue ∈ calledQueue label, IsQueue queue

instance (label : KernLabel ncpu) : Decidable (UserQueue label) :=
  inferInstanceAs (Decidable (∀ queue ∈ calledQueue label, IsQueue queue))

/-- Processes that can run are in a queue, or their `fork` is about to see to that. -/
structure QueueInv (trace : KernTrace ncpu) (state : KernMachine ncpu) : Prop where
  core : CoreInv noLocking (fun _ _ => True) state
  pids : state.shared.Pids
  code : ∀ thread pid queue, .act (.setQueue pid queue) ∈ state.code thread → IsQueue queue
  queued : ∀ slot, (state.shared.proc slot).Alive →
    IsQueue (state.shared.proc slot).scheduleStatus.queueId ∨ forkOpen slot trace = true

namespace QueueInv

variable {trace : KernTrace ncpu} {state next : KernMachine ncpu} {label : KernLabel ncpu}

theorem code_step (inv : QueueInv trace state) (user : UserQueue label)
    (stepped : kernStep state label = some next) (thread : Thread ncpu) (pid queue : ℤ)
    (mem : .act (.setQueue pid queue) ∈ next.code thread) : IsQueue queue := by
  have all : ∀ thread, ∀ instr ∈ next.code thread, ∀ pid queue,
      instr = .act (.setQueue pid queue) → IsQueue queue := by
    refine Program.forall_code_step ?_ stepped ?_ ?_ ?_
    · rintro thread instr mem pid queue rfl
      exact inv.code thread pid queue mem
    · rintro cpu entry thread code rfl entered instr mem pid queue rfl
      rcases kernel_entry entered with ⟨slot, rfl, rfl⟩
      cases entry with
      | changeQueue target value =>
          have pushed : PushedBy state.shared (.iret : Act Empty) _ :=
            pushedBy_changeQueue (Or.inl (user value rfl)) _ mem
          exact pushed
      | sub entry => exact entry.elim
      | _ => simp [entryCode, fork, exit, wait, kill, sysSleep, setBjfParamsProcess,
          setBjfParamsSystem, setBjfPriority, sleepOther, wakeup] at mem
    · rintro intr cpu thread code handled instr mem pid queue rfl
      rcases kernel_intr_cases handled with ⟨_, rfl⟩ | rfl | ⟨subIntr, _⟩
      · simp [timer] at mem
      · simp [yield] at mem
      · exact subIntr.elim
    · rintro cpu choice act rest outcome rfl head executed
      refine ⟨?_, ?_⟩
      · rintro instr mem pid queue rfl
        exact pushedBy_exec executed (fun subAct => subAct.elim) _ mem
      · rintro thread code spawned instr mem pid queue rfl
        rcases (staysOut_exec executed (fun subAct => subAct.elim)).spawn thread code spawned with
          ⟨rfl, _⟩
        simp [forkret] at mem
  exact all thread _ mem pid queue rfl

theorem forkOpen_cons {act : Act Empty} {slot : Slot} (isAct : actOf state label = some act)
    (other : ∀ queue, act ≠ .setQueue (state.shared.proc slot).pid queue)
    (isOpen : forkOpen slot trace = true) : forkOpen slot ((state, label) :: trace) = true := by
  simp only [forkOpen, isAct]
  cases act with
  | forkRunnable np => simp [isOpen]
  | setQueue pid queue =>
      have different : pid ≠ (state.shared.proc slot).pid := by
        rintro rfl
        exact other queue rfl
      simp [isOpen, different]
  | _ => exact isOpen

theorem queued_act {cpu : Fin ncpu} {choice : ℕ} {act : Act Empty} {rest : Code Lock (Act Empty)}
    {outcome : Effect Unit Empty ncpu} (inv : QueueInv trace state)
    (head : state.running cpu = .act act :: rest)
    (executed : exec noSub act cpu (state.cur cpu) choice state.shared = some outcome) (slot : Slot)
    (isAlive : (outcome.shared.proc slot).Alive) :
    IsQueue (outcome.shared.proc slot).scheduleStatus.queueId ∨
      forkOpen slot ((state, .run cpu choice) :: trace) = true := by
  have notSub : ∀ subAct, act ≠ .sub subAct := fun subAct => subAct.elim
  have isAct : actOf state (.run cpu choice : KernLabel ncpu) = some act := by
    simp [actOf, head]
  have inCode := State.mem_head head
  rcases (inv.core.slotStep head executed notSub slot).alive isAlive with wasAlive | rfl
  · have used : (state.shared.proc slot).state ≠ .unused :=
      fun isUnused => wasAlive.not_dead (Or.inl isUnused)
    by_cases ofSlot : ∃ queue, act = .setQueue (state.shared.proc slot).pid queue
    · rcases ofSlot with ⟨queue, rfl⟩
      left
      rw [inv.pids.setQueue used executed]
      exact inv.code _ _ _ inCode
    · have same : (outcome.shared.proc slot).scheduleStatus.queueId =
          (state.shared.proc slot).scheduleStatus.queueId := by
        cases statusStep_exec executed notSub slot with
        | reset isStack _ =>
            have embryo : (state.shared.proc slot).state = .embryo :=
              inv.core.embryo_of_head head (by simp [isStack, forkSite])
            exact absurd (Or.inr (Or.inl embryo)) wasAlive.not_dead
        | born _ isNow => simp only [isNow]
        | dispatched _ _ isNow => simp only [isNow, Proc.dispatch]
        | queued isSet _ => exact absurd ⟨_, isSet⟩ ofSlot
        | kept queueId _ => exact queueId
      rw [same]
      apply (inv.queued slot wasAlive).imp_right
      apply forkOpen_cons isAct
      exact fun queue isSet => ofSlot ⟨queue, isSet⟩
  · right
    simp [forkOpen, isAct]

theorem queued_step (inv : QueueInv trace state) (stepped : kernStep state label = some next)
    (slot : Slot) (isAlive : (next.shared.proc slot).Alive) :
    IsQueue (next.shared.proc slot).scheduleStatus.queueId ∨
      forkOpen slot ((state, label) :: trace) = true := by
  cases Program.step_cases stepped with
  | acquire head free | release head owned =>
      simpa [forkOpen, actOf, head] using inv.queued slot isAlive
  | call idle entered | intr unlocked unmasked handled =>
      simpa [forkOpen, actOf] using inv.queued slot isAlive
  | act head executed => exact inv.queued_act head executed slot isAlive

theorem step (inv : QueueInv trace state) (user : UserQueue label)
    (stepped : kernStep state label = some next) : QueueInv ((state, label) :: trace) next where
  core := inv.core.kernStep stepped nestsAllowed_of_all
  pids := inv.core.pids noPlain inv.pids stepped
  code := inv.code_step user stepped
  queued := inv.queued_step stepped

theorem boot (freePages : List ℕ) : QueueInv [] (boot ncpu freePages ()) where
  core := coreInv_boot
  pids := pids_boot
  code := by
    intro thread pid queue mem
    cases thread with
    | proc slot =>
        simp only [Xv6.boot] at mem
        split at mem <;> simp [forkret] at mem
    | scheduler own => simp [Xv6.boot, scheduler] at mem
  queued := by
    intro slot isAlive
    left
    by_cases first : slot = 0
    · simp [Xv6.boot, bootProc, first, IsQueue]
    · simp [Xv6.boot, bootProc, first, Proc.empty, Proc.Alive] at isAlive

end QueueInv

/-- In every state in which no `fork` stands between making its process `RUNNABLE` and putting it
in a queue, the scheduler finds nobody if and only if nobody is `RUNNABLE`, and otherwise the
right process. -/
theorem scheduler_choice {freePages : List ℕ} {trace : KernTrace ncpu} {state : KernMachine ncpu}
    (run : Run kernStep (boot ncpu freePages ()) trace state)
    (users : trace.All fun _ label => UserQueue label) (settled : ∀ slot, forkOpen slot trace = false)
    (lastScheduledIdx : Slot) :
    (state.shared.choose lastScheduledIdx = none ↔
        ∀ slot, (state.shared.proc slot).state ≠ .runnable) ∧
      ∀ slot, state.shared.choose lastScheduledIdx = some slot →
        state.shared.RightChoice lastScheduledIdx slot := by
  have inv : QueueInv trace state := by
    apply Run.invariant QueueInv (QueueInv.boot freePages) ?_ run users
    intro trace state label next inv _ user stepped
    exact inv.step user stepped
  apply Kern.choose_spec
  intro slot runnable
  rcases inv.queued slot (Or.inr (Or.inl runnable)) with isQueue | isOpen
  · exact isQueue
  · simp [settled slot] at isOpen

/-- Init forks and puts its child in the third queue. -/
def childInThirdQueue : List (KernLabel 1) :=
  [dispatch 0 0, go 0 1, call 0 .fork 15, call 0 (.changeQueue 2 BJF) 3].flatten

theorem child_chosen_from_third_queue : ∃ trace state,
    Run kernStep (boot 1 [1] ()) trace state ∧ state.shared.choose 0 = some 1 ∧
      (state.shared.proc 1).scheduleStatus.queueId = BJF ∧ state.shared.RightChoice 0 1 := by
  obtain ⟨trace, state, run, chosen, inQueue, users, settled⟩ :
      ∃ trace state, Run kernStep (boot 1 [1] ()) trace state ∧
      state.shared.choose 0 = some 1 ∧ (state.shared.proc 1).scheduleStatus.queueId = BJF ∧
      (∀ entry ∈ trace, UserQueue entry.2) ∧ ∀ slot, forkOpen slot trace = false :=
    exists_run childInThirdQueue (by decide +kernel)
  exact ⟨trace, state, run, chosen, inQueue, (scheduler_choice run users settled 0).2 1 chosen⟩

/-- Init forks twice within a tick: `lcfs` takes the child that was created first. -/
theorem lcfs_takes_first_child : ∃ trace state, Run kernStep (boot 1 [1, 2] ()) trace state ∧
    state.shared.Waits LCFS 1 ∧ state.shared.Waits LCFS 2 ∧
    (state.shared.proc 1).scheduleStatus.arrivalTime =
      (state.shared.proc 2).scheduleStatus.arrivalTime ∧
    (state.shared.proc 1).pid < (state.shared.proc 2).pid ∧ state.shared.lcfs = some 1 :=
  exists_run [dispatch 0 0, go 0 1, call 0 .fork 15, call 0 .fork 15].flatten (by decide +kernel)

end Xv6
