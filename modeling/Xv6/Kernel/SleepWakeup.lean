import Xv6.Kernel.Waiting
import Xv6.Lib.Run

/-!
# Consumers and producers

The use of `sleep` and `wakeup` that their comments ask for: consumers hold `lk` and run
`while(!cond) sleep(chan, lk)`; producers make the condition true while they hold `lk` and
then call `wakeup(chan)`, before or after they release it. The condition and what both sides
do to the data it is about are left open.
-/

namespace Xv6

open Threads Transition Discipline

/-- A condition on shared data with its lock and a channel of its own. The number that
`take` and `make` get resolves what they leave open. -/
structure Condition (Data : Type) where
  chan : Chan
  lk : Lock
  cond : Data → Bool
  take : ℕ → Data → Data
  make : ℕ → Data → Data
  own : ¬chan.IsCore
  makes : ∀ choice data, cond (make choice data) = true

inductive CondAct where
  | loop
  | make (early : Bool)
  deriving DecidableEq

/-- `early` producers call `wakeup` before they release the lock. -/
inductive CondEntry where
  | consumer
  | producer (early : Bool)
  deriving DecidableEq

variable {Data : Type} {ncpu : ℕ} {condition : Condition Data}

/-- `wakeup` by a process that holds `lk`; with `ptable.lock` it has to be `wakeup1`. -/
def wakeupHolding (chan : Chan) (lk : Lock) : Code Lock (Act CondAct) :=
  if lk = .ptable then [.act (.wakeup1 chan)] else wakeup chan

/-- The rest of a producer once the condition holds. -/
def afterMake (condition : Condition Data) (early : Bool) : Code Lock (Act CondAct) :=
  if early then wakeupHolding condition.chan condition.lk ++ [.release condition.lk]
  else .release condition.lk :: wakeup condition.chan

def condExec (condition : Condition Data) (act : CondAct) (choice : ℕ) (kern : Kern Data) :
    Kern Data × Code Lock (Act CondAct) :=
  match act with
  | .loop =>
      if condition.cond kern.sub then
        ({ kern with sub := condition.take choice kern.sub }, [.release condition.lk])
      else (kern, sleep condition.chan condition.lk ++ [.act (.sub .loop)])
  | .make early =>
      ({ kern with sub := condition.make choice kern.sub }, afterMake condition early)

/-- Any process may become a consumer or a producer, any number of times. -/
def conditions (condition : Condition Data) : Subsystem Data CondAct CondEntry Empty where
  exec := fun act _ choice kern => some (condExec condition act choice kern)
  entry := fun entry =>
    match entry with
    | .consumer => [.acquire condition.lk, .act (.sub .loop)]
    | .producer early => [.acquire condition.lk, .act (.sub (.make early))]
  intr := fun intr => intr.elim

abbrev CondMachine (Data : Type) (ncpu : ℕ) := Machine Data CondAct ncpu

abbrev CondLabel (ncpu : ℕ) := Label (Fin ncpu) (Entry CondEntry) (Intr Empty)

def condStep (condition : Condition Data) :
    CondMachine Data ncpu → CondLabel ncpu → Option (CondMachine Data ncpu) :=
  (kernel (conditions condition) ncpu).step

/-! ## Lock discipline -/

def condLocking (lk : Lock) : SubLocking CondAct where
  needs := fun _ held => held = {lk}
  leaves := fun _ _ => ∅
  leaves_subset := by simp

theorem runs_afterMake {early : Bool} :
    (discipline (condLocking condition.lk)).Runs {condition.lk} (afterMake condition early) ∅ := by
  have released : (discipline (condLocking condition.lk)).Runs {condition.lk}
      [.release condition.lk] ∅ := by
    simp [Runs]
  unfold afterMake
  split
  · refine Runs.append ?_ released
    unfold wakeupHolding
    split
    · rename_i isPtable
      simp [Runs, discipline, Act.needs, Act.leaves, isPtable]
    · rename_i notPtable
      exact runs_wakeup (by simpa using Ne.symm notPtable)
  · exact released.append (runs_wakeup (by simp))

theorem condLaws : SubLaws (conditions condition) (condLocking condition.lk) where
  entry_runs := by
    intro entry
    cases entry <;> simp [conditions, Runs, discipline, Act.needs, Act.leaves, condLocking]
  intr_runs := fun intr => intr.elim
  exec_runs := by
    intro ncpu act thread choice kern result held needs executed
    obtain rfl : held = {condition.lk} := needs
    simp only [conditions, Option.some.injEq] at executed
    subst executed
    cases act with
    | loop =>
        simp only [condExec]
        split
        · simp [Runs, condLocking]
        · refine runs_sleep.append ?_
          simp [Runs, discipline, Act.needs, Act.leaves, condLocking]
    | make early => exact runs_afterMake
  entry_forks := by
    intro entry
    cases entry <;> simp [conditions, forkSites, forkSite]
  intr_forks := fun intr => intr.elim
  exec_forks := by
    intro ncpu act thread choice kern result executed
    simp only [conditions, Option.some.injEq] at executed
    subst executed
    cases act with
    | loop =>
        simp only [condExec]
        split <;> simp [forkSites, forkSite]
    | make early =>
        simp only [condExec, afterMake, wakeupHolding]
        repeat' split
        all_goals simp [forkSites, forkSite, wakeup]

theorem condPlain : SubPlain (conditions condition) where
  entry := by
    intro entry
    cases entry <;> simp [conditions, Plain]
  intr := fun intr => intr.elim
  exec := by
    intro ncpu act thread choice kern result executed
    simp only [conditions, Option.some.injEq] at executed
    subst executed
    cases act with
    | loop =>
        simp only [condExec]
        split
        · simp [Plain]
        · refine ⟨rfl, rfl, rfl, ?_⟩
          simp only [List.forall_mem_append]
          refine ⟨plain_sleep ?_, by simp [Plain]⟩
          intro slot isProc
          apply condition.own
          rw [isProc]
          trivial
    | make early =>
        refine ⟨rfl, rfl, rfl, ?_⟩
        simp only [condExec, afterMake, wakeupHolding]
        repeat' split
        all_goals simp [Plain, wakeup]

/-! ## No wakeup is lost -/

def condRule (condition : Condition Data) : WaitRule Data where
  chan := condition.chan
  lk := condition.lk
  blocked := fun data => condition.cond data = false

theorem condKeeps : (condRule condition).Keeps (conditions condition) where
  notCore := condition.own
  entry := by
    intro entry
    cases entry <;> simp [conditions]
  intr := fun intr => intr.elim

section Step

variable {state next : CondMachine Data ncpu} {cpu : Fin ncpu} {label : CondLabel ncpu}
  {rest : Code Lock (Act CondAct)} {act : CondAct} {choice : ℕ}
  {trace : Trace (CondMachine Data ncpu) (CondLabel ncpu)} {thread : Thread ncpu}

theorem wakes_mem_afterMake {early : Bool} :
    .act (.wakeup1 condition.chan) ∈ afterMake condition early := by
  simp only [afterMake, wakeupHolding]
  repeat' split
  all_goals simp [wakeup]

theorem condRule_step {allowed : Lock → Lock → Prop}
    (core : CoreInv (condLocking condition.lk) allowed state)
    (head : state.running cpu = .act (.sub act) :: rest) :
    (condRule condition).Step state cpu rest (condExec condition act choice state.shared) := by
  cases act with
  | loop =>
      simp only [condExec]
      split
      · rename_i holds
        refine ⟨by simp, ?_⟩
        intro blocked
        simp [condRule, holds] at blocked
      · rename_i fails
        refine ⟨?_, Or.inl⟩
        intro _
        exact ⟨WaitRule.atSleep_sleep (by simp), by simpa [condRule] using fails⟩
  | make early =>
      refine ⟨?_, ?_⟩
      · intro mem
        simp only [condExec, afterMake, wakeupHolding] at mem
        repeat' split at mem
        all_goals simp [wakeup] at mem
      · intro _
        right
        refine ⟨?_, List.mem_append_left _ wakes_mem_afterMake⟩
        rcases core.tracked.current cpu with ⟨held, holds, obeys⟩
        rw [head] at obeys
        have heldIs : held = {condition.lk} := obeys.runs.1
        apply (holds.mem _).mp
        simp [heldIs, condRule]

/-- The producer has made the condition true and has not made its wakeup. -/
def Owes (condition : Condition Data) :
    Trace (CondMachine Data ncpu) (CondLabel ncpu) → Thread ncpu → Prop
  | [], _ => False
  | (before, label) :: trace, thread =>
      match label with
      | .run cpu _ =>
          if before.cur cpu = thread then
            match before.running cpu with
            | .act (.sub (.make _)) :: _ => True
            | .act (.wakeup1 chan) :: _ => chan ≠ condition.chan ∧ Owes condition trace thread
            | _ => Owes condition trace thread
          else Owes condition trace thread
      | _ => Owes condition trace thread

/-- The instruction makes the condition true, or is the wakeup that follows. -/
def isDebt (condition : Condition Data) : Instr Lock (Act CondAct) → Bool
  | .act (.sub (.make _)) => true
  | .act (.wakeup1 chan) => chan = condition.chan
  | _ => false

theorem isDebt_of_isCore {instr : Instr Lock (Act CondAct)} (core : IsCore instr) :
    isDebt condition instr = false := by
  cases instr with
  | act act =>
      cases act with
      | wakeup1 chan =>
          simp only [isDebt, decide_eq_false_iff_not]
          rintro rfl
          exact condition.own core
      | sub act => exact core.elim
      | _ => rfl
  | _ => rfl

/-- Each producer has one condition to make or one wakeup to do. -/
structure DebtInv (condition : Condition Data)
    (trace : Trace (CondMachine Data ncpu) (CondLabel ncpu)) (state : CondMachine Data ncpu) :
    Prop where
  single : ∀ thread, (state.code thread).countP (isDebt condition) ≤ 1
  owes : ∀ thread, .act (.wakeup1 condition.chan) ∈ state.code thread →
    Owes condition trace thread

theorem countP_isDebt_of_isCore {code : Code Lock (Act CondAct)}
    (core : ∀ instr ∈ code, IsCore instr) : code.countP (isDebt condition) = 0 := by
  rw [List.countP_eq_zero]
  intro instr mem
  simp [isDebt_of_isCore (core instr mem)]

theorem countP_isDebt_afterMake {early : Bool} :
    (afterMake condition early).countP (isDebt condition) = 1 := by
  simp only [afterMake, wakeupHolding]
  repeat' split
  all_goals simp [wakeup, isDebt]

theorem countP_isDebt_loop {kern : Kern Data} :
    (condExec condition .loop choice kern).2.countP (isDebt condition) = 0 := by
  simp only [condExec]
  split
  · simp [isDebt]
  · unfold sleep
    split <;> simp [isDebt]

theorem countP_isDebt_entry {entry : Entry CondEntry} :
    (entryCode (conditions condition) entry).countP (isDebt condition) ≤ 1 := by
  cases entry with
  | sub entry => cases entry <;> simp [entryCode, conditions, isDebt]
  | _ => exact (countP_isDebt_of_isCore (isCore_entry (by simp))).trans_le (Nat.zero_le _)

theorem countP_isDebt_intr {intr : Intr Empty} {code : Code Lock (Act CondAct)}
    (handled : (kernel (conditions condition) ncpu).intr intr cpu thread = some code) :
    code.countP (isDebt condition) = 0 := by
  rcases kernel_intr_cases handled with ⟨_, rfl⟩ | rfl | ⟨subIntr, rfl⟩
  · simp [timer, isDebt]
  · simp [yield, isDebt]
  · exact subIntr.elim

theorem countP_isDebt_push {act : Act CondAct} {outcome : Effect Data CondAct ncpu}
    {kern : Kern Data}
    (executed : exec (conditions condition) act cpu thread choice kern = some outcome) :
    outcome.push.countP (isDebt condition) = 0 ∨
      (∃ early, act = .sub (.make early)) ∧ outcome.push.countP (isDebt condition) = 1 := by
  rcases act.sub_or_not with ⟨subAct, rfl⟩ | notSub
  · simp only [exec, conditions, Option.map_some, Option.some.injEq] at executed
    subst executed
    cases subAct with
    | loop => exact Or.inl countP_isDebt_loop
    | make early => exact Or.inr ⟨⟨early, rfl⟩, countP_isDebt_afterMake⟩
  · left
    exact countP_isDebt_of_isCore
      (staysOut_exec executed notSub).push

theorem wakes_notMem {code : Code Lock (Act CondAct)} (none : code.countP (isDebt condition) = 0) :
    .act (.wakeup1 condition.chan) ∉ code := by
  intro mem
  have debt := List.countP_eq_zero.mp none _ mem
  simp [isDebt] at debt

theorem Owes.cons (owes : Owes condition trace thread)
    (notPaid : ∀ cpu choice rest, label = .run cpu choice → state.cur cpu = thread →
      state.running cpu ≠ .act (.wakeup1 condition.chan) :: rest) :
    Owes condition ((state, label) :: trace) thread := by
  cases label with
  | run cpu choice =>
      simp only [Owes]
      split
      · rename_i current
        split
        · trivial
        · rename_i chan rest head
          refine ⟨?_, owes⟩
          rintro rfl
          exact notPaid cpu choice rest rfl current head
        · exact owes
      · exact owes
  | call | intr => exact owes

theorem DebtInv.single_step (inv : DebtInv condition trace state)
    (stepped : condStep condition state label = some next) :
    ∀ thread, (next.code thread).countP (isDebt condition) ≤ 1 := by
  apply Program.code_step (fun _ code => code.countP (isDebt condition) ≤ 1) inv.single stepped
  · intro thread instr rest _ single
    exact (List.sublist_cons_self instr rest).countP_le.trans single
  · intro _ entry thread code _ entered
    rcases kernel_entry entered with ⟨slot, rfl, rfl⟩
    exact countP_isDebt_entry
  · intro intr cpu code _ handled
    rw [List.countP_append, countP_isDebt_intr handled, Nat.zero_add]
    exact inv.single _
  · intro cpu choice act rest outcome _ head executed
    have single := inv.single (state.cur cpu)
    rw [← State.running, head, List.countP_cons] at single
    refine ⟨?_, ?_⟩
    · rw [List.countP_append]
      rcases countP_isDebt_push executed with none | ⟨⟨early, rfl⟩, one⟩
      · omega
      · simp only [isDebt, if_true] at single
        rw [one]
        omega
    · intro thread code spawned
      rw [(exec_ends condPlain executed).2 thread code spawned]
      simp [forkret, isDebt]

theorem wakes_notMem_entry {entry : Entry CondEntry} :
    .act (.wakeup1 condition.chan) ∉ entryCode (conditions condition) entry := by
  cases entry with
  | sub entry => cases entry <;> simp [entryCode, conditions]
  | _ => exact wakes_notMem (countP_isDebt_of_isCore (isCore_entry (by simp)))

theorem DebtInv.wakes_notMem_rest (inv : DebtInv condition trace state)
    (head : state.running cpu = .act (.wakeup1 condition.chan) :: rest) :
    .act (.wakeup1 condition.chan) ∉ rest := by
  have single := inv.single (state.cur cpu)
  rw [← State.running, head, List.countP_cons_of_pos (by simp [isDebt])] at single
  exact wakes_notMem (by omega)

/-- A thread that owes a wakeup after a step owed it before, or makes the condition true. -/
theorem DebtInv.owes_step {allowed : Lock → Lock → Prop}
    (core : CoreInv (condLocking condition.lk) allowed state)
    (inv : DebtInv condition trace state) (stepped : condStep condition state label = some next)
    (mem : .act (.wakeup1 condition.chan) ∈ next.code thread) :
    Owes condition ((state, label) :: trace) thread := by
  have unchanged : ∀ {cpu : Fin ncpu} {code : Code Lock (Act CondAct)},
      .act (.wakeup1 condition.chan) ∈ Function.update state.code (state.cur cpu) code thread →
      (.act (.wakeup1 condition.chan) ∈ code → .act (.wakeup1 condition.chan) ∈ state.running cpu) →
      Owes condition trace thread := by
    intro cpu code inNext kept
    apply inv.owes
    by_cases same : thread = state.cur cpu
    · rw [same, Function.update_self] at inNext
      rw [same]
      exact kept inNext
    · rwa [Function.update_of_ne same] at inNext
  cases Program.step_cases stepped with
  | @acquire cpu choice _ _ head | @release cpu choice _ _ head =>
      apply (unchanged mem (by rw [head]; exact List.mem_cons_of_mem _)).cons
      rintro cpu choice after ⟨⟩ _ paid
      simp [head] at paid
  | @call cpu entry code idle entered =>
      refine (unchanged mem ?_).cons (by simp)
      rcases kernel_entry entered with ⟨slot, onCpu, rfl⟩
      exact fun inCode => absurd inCode wakes_notMem_entry
  | @intr cpu intr code unlocked unmasked handled =>
      refine (unchanged mem ?_).cons (by simp)
      intro inCode
      rcases List.mem_append.mp inCode with new | old
      · exact absurd new (wakes_notMem (countP_isDebt_intr handled))
      · exact old
  | @act cpu choice act rest outcome head executed =>
      rcases core.apply_code head executed with ⟨here, elsewhere⟩
      by_cases same : thread = state.cur cpu
      · subst thread
        rw [here] at mem
        rcases countP_isDebt_push executed with none | ⟨⟨early, rfl⟩, _⟩
        · have inRest : .act (.wakeup1 condition.chan) ∈ rest :=
            (List.mem_append.mp mem).resolve_left (wakes_notMem none)
          apply (inv.owes _ (State.mem_rest head inRest)).cons
          rintro other choice after ⟨⟩ _ paid
          have sameRest : rest = after := by
            rw [head] at paid
            exact (List.cons.inj paid).2
          exact inv.wakes_notMem_rest paid (sameRest ▸ inRest)
        · simp [Owes, head]
      · have inState : .act (.wakeup1 condition.chan) ∈ state.code thread := by
          rcases elsewhere thread same with unchanged | ⟨isForkret, _⟩
          · rwa [unchanged] at mem
          · simp [isForkret, forkret] at mem
        apply (inv.owes thread inState).cons
        rintro other choice after ⟨⟩ current
        exact absurd current.symm same

theorem debtInv_boot {freePages : List ℕ} {start : Data} :
    DebtInv condition [] (boot ncpu freePages start : CondMachine Data ncpu) := by
  have none : ∀ thread, ((boot ncpu freePages start : CondMachine Data ncpu).code thread).countP
      (isDebt condition) = 0 := by
    intro thread
    cases thread with
    | scheduler own => simp [boot, scheduler, isDebt]
    | proc slot => by_cases isInit : slot = 0 <;> simp [boot, isInit, forkret, isDebt]
  refine ⟨?_, ?_⟩
  · intro thread
    rw [none thread]
    exact Nat.zero_le 1
  · exact fun thread mem => absurd mem (wakes_notMem (none thread))

/-- The invariants of a run of consumers and producers. -/
structure CondInv (condition : Condition Data)
    (trace : Trace (CondMachine Data ncpu) (CondLabel ncpu)) (state : CondMachine Data ncpu) :
    Prop where
  life : LifeInv (condLocking condition.lk) (fun _ _ => True) state
  lost : (condRule condition).NoneLost state
  debts : DebtInv condition trace state

theorem CondInv.step (inv : CondInv condition trace state)
    (stepped : condStep condition state label = some next) :
    CondInv condition ((state, label) :: trace) next where
  life := inv.life.step condLaws condPlain stepped nestsAllowed_of_all
  lost := by
    apply inv.lost.step condKeeps condPlain inv.life stepped
    intro cpu choice act rest result _ head executed
    simp only [conditions, Option.some.injEq] at executed
    subst executed
    exact condRule_step inv.life.core head
  debts := ⟨inv.debts.single_step stepped, fun _ => inv.debts.owes_step inv.life.core stepped⟩

theorem condInv_of_run {freePages : List ℕ} {start : Data}
    (run : Run (condStep condition) (boot ncpu freePages start) trace state) :
    CondInv condition trace state := by
  refine Run.invariant (CondInv condition)
    ⟨lifeInv_boot, WaitRule.NoneLost.noneLost_boot, debtInv_boot⟩ ?_ run (Trace.all_true trace)
  intro trace state label next inv _ _ stepped
  exact inv.step stepped

end Step

/-- A consumer sleeps only while the condition fails, or while a producer that has made it true
still has to do its wakeup. -/
theorem sleeping_consumer_not_lost {freePages : List ℕ} {start : Data}
    {trace : Trace (CondMachine Data ncpu) (CondLabel ncpu)} {state : CondMachine Data ncpu}
    (run : Run (condStep condition) (boot ncpu freePages start) trace state) {slot : Slot}
    (asleep : state.shared.AsleepOn slot condition.chan) :
    condition.cond state.shared.sub = false ∨ ∃ thread, Owes condition trace thread := by
  have inv := condInv_of_run run
  rcases inv.lost.late slot (Or.inl asleep) with blocked | ⟨thread, mem⟩
  · exact Or.inl blocked
  · exact Or.inr ⟨thread, inv.debts.owes thread mem⟩

/-- A flag that producers raise and consumers lower. -/
def flag : Condition Bool where
  chan := .input
  lk := .cons
  cond := id
  take := fun _ _ => false
  make := fun _ _ => true
  own := not_false
  makes := fun _ _ => rfl

/-- Init forks and waits for the flag; its child raises it and releases the lock. -/
def flagRaised : List (CondLabel 1) :=
  [dispatch 0 0, go 0 1, call 0 .fork 15, call 0 (.sub .consumer) 5, go 0 1, dispatch 0 1, go 0 1,
    call 0 (.sub (.producer false)) 3].flatten

theorem raised_flag_owed : ∃ trace state,
    Run (condStep flag) (boot 1 [1] false) trace state ∧ state.shared.AsleepOn 0 flag.chan ∧
      flag.cond state.shared.sub = true ∧ ∃ thread, Owes flag trace thread := by
  obtain ⟨trace, state, run, asleep, raised⟩ :
      ∃ trace state, Run (condStep flag) (boot 1 [1] false) trace state ∧
      state.shared.AsleepOn 0 flag.chan ∧ state.shared.sub = true :=
    exists_run flagRaised (by decide +kernel)
  refine ⟨trace, state, run, asleep, raised, ?_⟩
  refine (sleeping_consumer_not_lost run asleep).resolve_left ?_
  simp [flag, raised]

end Xv6
