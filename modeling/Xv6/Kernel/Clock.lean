import Xv6.Kernel.Queues

/-!
# The clock interrupt

The first processor counts the ticks, and it does not take another interrupt before it has
returned from the last one. So there is one clock handler at a time, it runs on that processor,
and `ageprocs` in it works with the number of the current tick.
-/

namespace Xv6

open Threads Transition

variable {ncpu : ℕ} {state next : KernMachine ncpu} {label : KernLabel ncpu} {cpu other : Fin ncpu}
  {act : Act Empty} {rest : Code Lock (Act Empty)} {choice : ℕ}
  {outcome : Effect Unit Empty ncpu}

/-! ## Who counts the ticks -/

theorem ticks_exec {thread : Thread ncpu} {kern : Kern Unit}
    (executed : exec noSub act cpu thread choice kern = some outcome) (notTick : act ≠ .tick) :
    outcome.shared.ticks = kern.ticks := by
  cases does_exec executed fun subAct => subAct.elim with
  | tick => exact absurd rfl notTick
  | exit notInit =>
      simp only [Kern.exit, Kern.setState, Kern.modify, Kern.reparent]
      split <;> rfl
  | kill =>
      simp only [Kern.kill]
      split <;> rfl
  | setQueue sets | setParams sets | setPriority sets => cases sets <;> rfl
  | _ => rfl

/-! ## The code of the handler -/

/-- The instructions that only the clock handler has. -/
def IsClock : Instr Lock (Act Empty) → Prop
  | .act .tick | .act (.ageScan _ _) | .act (.ageQueue _) => True
  | _ => False

/-- There is no clock handler in the code. -/
def Calm (code : Code Lock (Act Empty)) : Prop := ∀ instr ∈ code, ¬IsClock instr

/-- What the handler still has to do after it has counted the tick `now`. -/
def AfterTick (now : ℤ) : Instr Lock (Act Empty) → Prop
  | .acquire _ | .release _ | .act (.wakeup1 _) | .act (.setQueue _ _) | .act (.ageQueue _) => True
  | .act (.ageScan osTicks _) => osTicks = now
  | _ => False

/-- The code begins with a clock handler. -/
inductive InClock (now : ℤ) : Code Lock (Act Empty) → Prop
  | start {after : Code Lock (Act Empty)} (calm : Calm after) :
      InClock now (.acquire .tickslock :: .act .tick :: .act .iret :: after)
  | tick {after : Code Lock (Act Empty)} (calm : Calm after) :
      InClock now (.act .tick :: .act .iret :: after)
  | aging {before after : Code Lock (Act Empty)} (quick : ∀ instr ∈ before, AfterTick now instr)
      (calm : Calm after) : InClock now (before ++ .act .iret :: after)

theorem calm_append {first second : Code Lock (Act Empty)} :
    Calm (first ++ second) ↔ Calm first ∧ Calm second := List.forall_mem_append

theorem Calm.tail {instr : Instr Lock (Act Empty)} (calm : Calm (instr :: rest)) : Calm rest :=
  fun other mem => calm other (List.mem_cons_of_mem _ mem)

theorem InClock.iret_mem {now : ℤ} {code : Code Lock (Act Empty)} (inClock : InClock now code) :
    .act .iret ∈ code := by
  cases inClock <;> simp

theorem InClock.head_cases {now : ℤ} (inClock : InClock now (.act act :: rest)) :
    (act = .tick ∧ ∃ after, rest = .act .iret :: after ∧ Calm after) ∨ (act = .iret ∧ Calm rest) ∨
      AfterTick now (.act act) := by
  generalize isCode : Instr.act act :: rest = code at inClock
  cases inClock with
  | start calm => simp at isCode
  | @tick after calm =>
      cases isCode
      exact Or.inl ⟨rfl, after, rfl, calm⟩
  | @aging before after quick calm =>
      rcases before with _ | ⟨first, before⟩
      · cases isCode
        exact Or.inr (Or.inl ⟨rfl, calm⟩)
      · cases isCode
        exact Or.inr (Or.inr (quick _ List.mem_cons_self))

theorem InClock.tail {now : ℤ} {instr : Instr Lock (Act Empty)} (inClock : InClock now (instr :: rest))
    (isLock : ∀ act, instr ≠ .act act) : InClock now rest := by
  generalize isCode : instr :: rest = code at inClock
  cases inClock with
  | start calm =>
      cases isCode
      exact .tick calm
  | tick calm =>
      cases isCode
      exact absurd rfl (isLock _)
  | @aging before after quick calm =>
      rcases before with _ | ⟨first, before⟩
      · cases isCode
        exact absurd rfl (isLock _)
      · cases isCode
        exact .aging (fun other mem => quick other (List.mem_cons_of_mem _ mem)) calm

theorem calm_push (executed : exec noSub act cpu (state.cur cpu) choice state.shared = some outcome)
    (notClock : ¬IsClock (.act act)) : Calm outcome.push := by
  intro instr mem isClock
  have pushed := pushedBy_exec executed (fun subAct => subAct.elim) instr mem
  cases instr with
  | acquire lock | release lock => exact isClock
  | act later =>
      cases later with
      | tick => exact pushed
      | ageScan osTicks index =>
          rcases pushed with ⟨rfl, _⟩ | ⟨before, rfl, _⟩ <;> exact notClock trivial
      | ageQueue slot =>
          rcases pushed with ⟨osTicks, rfl, _⟩
          exact notClock trivial
      | _ => exact isClock

theorem afterTick_changeQueue {now pid queue : ℤ} :
    ∀ instr ∈ (changeQueue pid queue : Code Lock (Act Empty)), AfterTick now instr := by
  unfold changeQueue
  split <;> simp [AfterTick]

theorem afterTick_push {now : ℤ} {thread : Thread ncpu} {kern : Kern Unit}
    (isAfter : AfterTick now (.act act))
    (executed : exec noSub act cpu thread choice kern = some outcome) :
    (∀ instr ∈ outcome.push, AfterTick now instr) ∧ outcome.switch = none ∧
      outcome.spawn = none := by
  cases does_exec executed fun subAct => subAct.elim with
  | wakeup | setQueue sets => exact ⟨by simp, rfl, rfl⟩
  | ageQueue =>
      refine ⟨?_, rfl, rfl⟩
      dsimp only
      exact afterTick_changeQueue
  | @ages _ osTicks _ _ _ _ | @passes _ osTicks _ | @aged _ osTicks _ _ =>
      have same : osTicks = now := isAfter
      exact ⟨by simp [AfterTick, same], rfl, rfl⟩
  | _ => exact isAfter.elim

theorem calm_entry {entry : Entry Empty} {thread : Thread ncpu} {code : Code Lock (Act Empty)}
    (entered : (kernel noSub ncpu).entry entry thread = some code) : Calm code := by
  rcases kernel_entry entered with ⟨slot, rfl, rfl⟩
  cases entry with
  | changeQueue pid queue =>
      simp only [entryCode, changeQueue]
      split <;> simp [Calm, IsClock]
  | sub entry => exact entry.elim
  | _ => simp [Calm, IsClock, entryCode, fork, exit, wait, kill, sysSleep, setBjfParamsProcess,
      setBjfParamsSystem, setBjfPriority, sleepOther, wakeup]

theorem InClock.after_act {thread : Thread ncpu} {kern : Kern Unit} {code : Code Lock (Act Empty)}
    (inClock : InClock (toInt kern.ticks) code) (head : code = .act act :: rest)
    (executed : exec noSub act cpu thread choice kern = some outcome) :
    outcome.switch = none ∧ outcome.spawn = none ∧
      (Calm (outcome.push ++ rest) ∨
        InClock (toInt outcome.shared.ticks) (outcome.push ++ rest)) := by
  cases inClock with
  | start calm => simp at head
  | tick calm =>
      cases head
      cases does_exec executed fun subAct => subAct.elim
      refine ⟨rfl, rfl, Or.inr (.aging ?_ calm)⟩
      simp [wakeup, ageprocs, AfterTick]
  | @aging before after quick calm =>
      rcases before with _ | ⟨first, before⟩
      · cases head
        cases does_exec executed fun subAct => subAct.elim
        exact ⟨rfl, rfl, Or.inl calm⟩
      · cases head
        have isAfter := quick (.act act) List.mem_cons_self
        rcases afterTick_push isAfter executed with ⟨pushed, switch, spawn⟩
        have notTick : act ≠ .tick := by
          rintro rfl
          exact isAfter
        refine ⟨switch, spawn, Or.inr ?_⟩
        have more : ∀ instr ∈ outcome.push ++ before, AfterTick (toInt kern.ticks) instr := by
          rw [List.forall_mem_append]
          exact ⟨pushed, fun instr mem => quick instr (List.mem_cons_of_mem _ mem)⟩
        have longer := InClock.aging more calm
        rw [List.append_assoc] at longer
        rw [ticks_exec executed notTick]
        exact longer

/-! ## One handler at a time -/

/-- A clock handler is on the first processor, and at the front there. -/
structure ClockInv (state : KernMachine ncpu) : Prop where
  core : CoreInv noLocking (fun _ _ => True) state
  elsewhere : ∀ thread, (∀ cpu : Fin ncpu, cpu.val = 0 → state.cur cpu ≠ thread) →
    Calm (state.code thread)
  first : ∀ cpu : Fin ncpu, cpu.val = 0 →
    Calm (state.running cpu) ∨ InClock (toInt state.shared.ticks) (state.running cpu)

theorem CoreInv.running_of_ne (core : CoreInv noLocking (fun _ _ => True) state)
    (head : state.running cpu = .act act :: rest)
    (executed : exec noSub act cpu (state.cur cpu) choice state.shared = some outcome)
    (different : other ≠ cpu) :
    (state.apply cpu (state.cur cpu) rest outcome).running other = state.running other := by
  have distinct : state.cur other ≠ state.cur cpu :=
    fun same => different (core.tracked.cur_injective same)
  simp only [State.running, apply_cur_of_ne different]
  rcases (core.apply_code head executed).2 _ distinct with same | ⟨_, np, isNp, embryo⟩
  · exact same
  · have running := core.procs.running other np isNp
    rw [embryo] at running
    contradiction

namespace ClockInv

section

variable (inv : ClockInv state)

include inv

theorem calm_of_ne (notFirst : cpu.val ≠ 0) : Calm (state.running cpu) := by
  apply inv.elsewhere
  intro zero isZero same
  rw [inv.core.tracked.cur_injective same] at isZero
  exact notFirst isZero

theorem code_cases (cpu : Fin ncpu) :
    Calm (state.running cpu) ∨ InClock (toInt state.shared.ticks) (state.running cpu) := by
  by_cases isFirst : cpu.val = 0
  · exact inv.first cpu isFirst
  · exact Or.inl (inv.calm_of_ne isFirst)

theorem osTicks {now : ℤ} {index : ℕ} (head : state.running cpu = .act (.ageScan now index) :: rest) :
    now = toInt state.shared.ticks := by
  rcases inv.code_cases cpu with calm | inClock
  · rw [head] at calm
    exact absurd trivial (calm _ List.mem_cons_self)
  · rw [head] at inClock
    rcases inClock.head_cases with ⟨isTick, _⟩ | ⟨isIret, _⟩ | isAfter
    · contradiction
    · contradiction
    · exact isAfter

theorem recode (cpu : Fin ncpu) (code : Code Lock (Act Empty))
    (core : CoreInv noLocking (fun _ _ => True) next) (cur : next.cur = state.cur)
    (ticks : cpu.val ≠ 0 → next.shared.ticks = state.shared.ticks)
    (codes : next.code = Function.update state.code (state.cur cpu) code)
    (calm : Calm (state.running cpu) →
      Calm code ∨ cpu.val = 0 ∧ InClock (toInt next.shared.ticks) code)
    (inClock : InClock (toInt state.shared.ticks) (state.running cpu) →
      Calm code ∨ InClock (toInt next.shared.ticks) code) :
    ClockInv next where
  core := core
  elsewhere := by
    intro thread notFirst
    rw [cur] at notFirst
    rw [codes]
    by_cases same : thread = state.cur cpu
    · rw [same, Function.update_self]
      have calmBefore := inv.elsewhere thread notFirst
      rw [same] at calmBefore
      rcases calm calmBefore with isCalm | ⟨isFirst, _⟩
      · exact isCalm
      · exact absurd same.symm (notFirst cpu isFirst)
    · rw [Function.update_of_ne same]
      exact inv.elsewhere thread notFirst
  first := by
    intro zero isZero
    rw [State.running, cur, codes]
    by_cases same : zero = cpu
    · rw [same, Function.update_self]
      rcases inv.first zero isZero with isCalm | isClock
      · rw [same] at isCalm
        exact (calm isCalm).imp_right And.right
      · rw [same] at isClock
        exact inClock isClock
    · have notFirst : cpu.val ≠ 0 := fun isFirst => same (Fin.ext (isZero.trans isFirst.symm))
      rw [Function.update_of_ne (fun sameThread => same (inv.core.tracked.cur_injective sameThread)),
        ticks notFirst]
      exact inv.first zero isZero

theorem act_calm
    (core : CoreInv noLocking (fun _ _ => True) (state.apply cpu (state.cur cpu) rest outcome))
    (head : state.running cpu = .act act :: rest)
    (executed : exec noSub act cpu (state.cur cpu) choice state.shared = some outcome)
    (calm : Calm (state.running cpu)) :
    ClockInv (state.apply cpu (state.cur cpu) rest outcome) := by
  have ownCalm := calm
  rw [head] at ownCalm
  have notClock : ¬IsClock (.act act) := ownCalm _ List.mem_cons_self
  have notTick : act ≠ .tick := by
    rintro rfl
    exact notClock trivial
  have codes := inv.core.apply_code head executed
  -- every thread that was not at the front of the first processor stays calm
  have stays : ∀ thread, Calm (state.code thread) →
      Calm ((state.apply cpu (state.cur cpu) rest outcome).code thread) := by
    intro thread wasCalm
    by_cases same : thread = state.cur cpu
    · rw [same, codes.1, calm_append]
      exact ⟨calm_push executed notClock, ownCalm.tail⟩
    · rcases codes.2 thread same with unchanged | ⟨isForkret, _⟩
      · rw [unchanged]
        exact wasCalm
      · rw [isForkret]
        simp [Calm, forkret, IsClock]
  have allCalm : cpu.val = 0 → ∀ thread, Calm (state.code thread) := by
    intro isFirst thread
    by_cases same : thread = state.cur cpu
    · rw [same]
      exact calm
    · apply inv.elsewhere
      intro zero isZero isCur
      rw [Fin.ext (isZero.trans isFirst.symm)] at isCur
      exact same isCur.symm
  refine ⟨core, ?_, ?_⟩
  · intro thread notFirst
    apply stays
    by_cases isFirst : cpu.val = 0
    · exact allCalm isFirst thread
    · apply inv.elsewhere
      intro zero isZero
      have different : zero ≠ cpu := by
        rintro rfl
        exact isFirst isZero
      have kept := notFirst zero isZero
      rw [apply_cur_of_ne different] at kept
      exact kept
  · intro zero isZero
    by_cases same : zero = cpu
    · left
      exact stays _ (allCalm (same ▸ isZero) _)
    · rw [inv.core.running_of_ne head executed same]
      have ticks : (state.apply cpu (state.cur cpu) rest outcome).shared.ticks = state.shared.ticks :=
        ticks_exec executed notTick
      rw [ticks]
      exact inv.first zero isZero

theorem step (stepped : kernStep state label = some next) : ClockInv next := by
  have core := inv.core.kernStep stepped nestsAllowed_of_all
  cases Program.step_cases stepped with
  | @acquire cpu choice lock rest head free | @release cpu choice lock rest head owned =>
      refine inv.recode cpu _ core rfl (fun _ => rfl) rfl ?_ ?_
      · rw [head]
        exact fun calm => Or.inl calm.tail
      · rw [head]
        exact fun inClock => Or.inr (inClock.tail (by simp))
  | @call cpu entry code idle entered =>
      have calm : Calm code := calm_entry entered
      exact inv.recode cpu _ core rfl (fun _ => rfl) rfl (fun _ => Or.inl calm)
        (fun _ => Or.inl calm)
  | @intr cpu intr code unlocked unmasked handled =>
      refine inv.recode cpu _ core rfl (fun _ => rfl) rfl ?_ ?_
      · intro calm
        rcases kernel_intr_cases handled with ⟨isFirst, rfl⟩ | rfl | ⟨subIntr, _⟩
        · exact Or.inr ⟨isFirst, .start calm⟩
        · left
          rw [calm_append]
          exact ⟨by simp [Calm, yield, IsClock], calm⟩
        · exact subIntr.elim
      · exact fun inClock => absurd inClock.iret_mem unmasked
  | @act cpu choice act rest outcome head executed =>
      by_cases isFirst : cpu.val = 0
      · rcases inv.first cpu isFirst with calm | inClock
        · exact inv.act_calm core head executed calm
        · rcases inClock.after_act head executed with ⟨switch, spawn, after⟩
          refine inv.recode cpu (outcome.push ++ rest) core ?_
            (fun notFirst => absurd isFirst notFirst) ?_ (fun calm => ?_) (fun _ => after)
          · simp [State.apply, switch]
          · simp [State.apply, spawn]
          · rcases after with isCalm | stillClock
            · exact Or.inl isCalm
            · exact Or.inr ⟨isFirst, stillClock⟩
      · exact inv.act_calm core head executed (inv.calm_of_ne isFirst)

end

theorem boot (freePages : List ℕ) : ClockInv (boot ncpu freePages ()) := by
  have calm : ∀ thread, Calm ((Xv6.boot ncpu freePages () : KernMachine ncpu).code thread) := by
    intro thread
    cases thread with
    | scheduler own => simp [Xv6.boot, scheduler, Calm, IsClock]
    | proc slot =>
        by_cases isInit : slot = 0 <;> simp [Xv6.boot, isInit, forkret, Calm, IsClock]
  exact ⟨coreInv_boot, fun thread _ => calm thread, fun cpu _ => Or.inl (calm _)⟩

end ClockInv

end Xv6
