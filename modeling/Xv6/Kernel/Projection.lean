import Xv6.Kernel.Lifecycle

/-!
# What a step is for the subsystem

Of the code of a thread a subsystem sees the acts of its own that are still to come. A step
of the kernel starts such acts with a system call or an interrupt, carries out the next one,
or changes nothing of them.
-/

namespace Xv6

open Threads Function

variable {Sub SubAct SubEntry SubIntr : Type} {ncpu : ℕ}

/-- The act of the subsystem in an instruction. -/
def subAct? : Instr Lock (Act SubAct) → Option SubAct
  | .act (.sub act) => some act
  | _ => none

/-- The acts of the subsystem in the code. -/
def subActs (code : Code Lock (Act SubAct)) : List SubAct := code.filterMap subAct?

@[simp]
theorem subActs_nil : subActs ([] : Code Lock (Act SubAct)) = [] := rfl

@[simp]
theorem subActs_append {first second : Code Lock (Act SubAct)} :
    subActs (first ++ second) = subActs first ++ subActs second := List.filterMap_append

@[simp]
theorem subActs_sub {act : SubAct} {rest : Code Lock (Act SubAct)} :
    subActs (.act (.sub act) :: rest) = act :: subActs rest := rfl

@[simp]
theorem subActs_acquire {lock : Lock} {rest : Code Lock (Act SubAct)} :
    subActs (.acquire lock :: rest) = subActs rest := rfl

@[simp]
theorem subActs_release {lock : Lock} {rest : Code Lock (Act SubAct)} :
    subActs (.release lock :: rest) = subActs rest := rfl

theorem subActs_cons_of_none {instr : Instr Lock (Act SubAct)} {rest : Code Lock (Act SubAct)}
    (none : subAct? instr = none) : subActs (instr :: rest) = subActs rest :=
  List.filterMap_cons_none none

theorem subAct?_of_isCore {instr : Instr Lock (Act SubAct)} (core : IsCore instr) :
    subAct? instr = none := by
  cases instr with
  | act act =>
      cases act with
      | sub act => exact core.elim
      | _ => rfl
  | _ => rfl

theorem subActs_of_isCore {code : Code Lock (Act SubAct)} (core : ∀ instr ∈ code, IsCore instr) :
    subActs code = [] :=
  List.filterMap_eq_nil_iff.mpr fun instr mem => subAct?_of_isCore (core instr mem)

@[simp]
theorem subActs_sleep {chan : Chan} {lk : Lock} :
    subActs (sleep chan lk : Code Lock (Act SubAct)) = [] := by
  unfold sleep
  split <;> rfl

@[simp]
theorem subActs_wakeup {chan : Chan} : subActs (wakeup chan : Code Lock (Act SubAct)) = [] := rfl

/-- No act of the subsystem is carried out. -/
def NoSubAct (state : Machine Sub SubAct ncpu)
    (label : Label (Fin ncpu) (Entry SubEntry) (Intr SubIntr)) : Prop :=
  ∀ cpu choice act rest, label = .run cpu choice →
    state.running cpu ≠ .act (.sub act) :: rest

/-- All threads but one have the acts they had. -/
def OthersKeep (state next : Machine Sub SubAct ncpu) (thread : Thread ncpu) : Prop :=
  ∀ other, other ≠ thread → subActs (next.code other) = subActs (state.code other)

/-- A step of the kernel, for the subsystem. -/
inductive SubMoves (sub : Subsystem Sub SubAct SubEntry SubIntr)
    (state next : Machine Sub SubAct ncpu) :
    Label (Fin ncpu) (Entry SubEntry) (Intr SubIntr) → Prop
  | still {label : Label (Fin ncpu) (Entry SubEntry) (Intr SubIntr)}
      (noAct : NoSubAct state label) (shared : next.shared.sub = state.shared.sub)
      (keep : ∀ thread, subActs (next.code thread) = subActs (state.code thread)) :
      SubMoves sub state next label
  | call {cpu : Fin ncpu} {slot : Slot} {entry : SubEntry} (onCpu : state.cur cpu = .proc slot)
      (shared : next.shared.sub = state.shared.sub)
      (idle : subActs (state.code (.proc slot)) = [])
      (started : subActs (next.code (.proc slot)) = subActs (sub.entry entry))
      (others : OthersKeep state next (.proc slot)) :
      SubMoves sub state next (.call cpu (.sub entry))
  | intr {cpu : Fin ncpu} {intr : SubIntr} (shared : next.shared.sub = state.shared.sub)
      (started : subActs (next.code (state.cur cpu)) =
        subActs (sub.intr intr) ++ subActs (state.code (state.cur cpu)))
      (others : OthersKeep state next (state.cur cpu)) :
      SubMoves sub state next (.intr cpu (.sub intr))
  | act {cpu : Fin ncpu} {choice : ℕ} {act : SubAct} {rest : Code Lock (Act SubAct)}
      {result : Kern Sub × Code Lock (Act SubAct)}
      (head : state.running cpu = .act (.sub act) :: rest)
      (ran : sub.exec act (state.cur cpu) choice state.shared = some result)
      (shared : next.shared = result.1)
      (before : subActs (state.code (state.cur cpu)) = act :: subActs rest)
      (after : subActs (next.code (state.cur cpu)) = subActs result.2 ++ subActs rest)
      (others : OthersKeep state next (state.cur cpu)) :
      SubMoves sub state next (.run cpu choice)

section Step

variable {sub : Subsystem Sub SubAct SubEntry SubIntr} {locking : SubLocking SubAct}
  {allowed : Lock → Lock → Prop} {state next : Machine Sub SubAct ncpu} {cpu : Fin ncpu}
  {code rest : Code Lock (Act SubAct)}

theorem othersKeep_update {thread : Thread ncpu}
    (codeIs : next.code = update state.code thread code) :
    OthersKeep state next thread := by
  intro other different
  rw [codeIs, update_of_ne different]

theorem subActs_update {thread : Thread ncpu} (codeIs : next.code = update state.code thread code)
    (same : subActs code = subActs (state.code thread)) (other : Thread ncpu) :
    subActs (next.code other) = subActs (state.code other) := by
  by_cases isThread : other = thread
  · rw [isThread, codeIs, update_self]
    exact same
  · exact othersKeep_update codeIs other isThread

theorem LifeInv.othersKeep {act : Act SubAct} {choice : ℕ} {outcome : Effect Sub SubAct ncpu}
    (life : LifeInv locking allowed state) (head : state.running cpu = .act act :: rest)
    (executed : exec sub act cpu (state.cur cpu) choice state.shared = some outcome) :
    OthersKeep state (state.apply cpu (state.cur cpu) rest outcome) (state.cur cpu) := by
  intro other different
  rcases (life.core.apply_code head executed).2 other different with same | ⟨isForkret, np, rfl, embryo⟩
  · rw [same]
  · have dead := life.dead np (Or.inr (Or.inl embryo))
    have noActs : subActs (state.code (.proc np)) = [] := by
      apply subActs_of_isCore
      intro instr mem
      rcases dead instr mem with rfl | rfl <;> trivial
    rw [noActs, isForkret]
    rfl

theorem subMoves_call {entry : Entry SubEntry} (idle : state.running cpu = [])
    (entered : (kernel sub ncpu).entry entry (state.cur cpu) = some code)
    (shared : next.shared = state.shared)
    (codeIs : next.code = update state.code (state.cur cpu) code) :
    SubMoves sub state next (.call cpu entry) := by
  have noActs : subActs (state.code (state.cur cpu)) = [] := by
    rw [← State.running, idle]
    rfl
  rcases kernel_entry entered with ⟨slot, onCpu, rfl⟩
  rw [onCpu] at noActs codeIs
  rcases entry.sub_or_not with ⟨subEntry, rfl⟩ | notSub
  · refine .call onCpu (by rw [shared]) noActs ?_ (othersKeep_update codeIs)
    rw [codeIs, update_self]
    rfl
  · have core : ∀ instr ∈ entryCode sub entry, IsCore instr :=
      isCore_entry notSub
    refine .still (by simp [NoSubAct]) (by rw [shared]) (subActs_update codeIs ?_)
    rw [noActs, subActs_of_isCore core]

theorem subMoves_intr {intr : Intr SubIntr}
    (handled : (kernel sub ncpu).intr intr cpu (state.cur cpu) = some code)
    (shared : next.shared = state.shared)
    (codeIs : next.code = update state.code (state.cur cpu) (code ++ state.running cpu)) :
    SubMoves sub state next (.intr cpu intr) := by
  have core : subActs code = [] →
      ∀ thread, subActs (next.code thread) = subActs (state.code thread) := by
    intro none
    apply subActs_update codeIs
    rw [subActs_append, none]
    rfl
  cases intr with
  | sub intr =>
      simp only [kernel, Option.some.injEq] at handled
      subst handled
      refine .intr (by rw [shared]) ?_ (othersKeep_update codeIs)
      rw [codeIs, update_self, subActs_append, subActs_append, List.append_assoc]
      rfl
  | timer =>
      refine .still (by simp [NoSubAct]) (by rw [shared]) (core ?_)
      simp only [kernel] at handled
      split at handled
      · rw [← Option.some.inj handled]
        rfl
      · contradiction
  | yield =>
      refine .still (by simp [NoSubAct]) (by rw [shared]) (core ?_)
      cases onCpu : state.cur cpu with
      | scheduler own => simp [kernel, onCpu] at handled
      | proc slot =>
          simp only [kernel, onCpu, Option.some.injEq] at handled
          rw [← handled]
          rfl

theorem subMoves_lock {choice : ℕ} {instr : Instr Lock (Act SubAct)}
    (head : state.running cpu = instr :: rest) (isLock : ∀ act, instr ≠ .act act)
    (shared : next.shared = state.shared)
    (codeIs : next.code = update state.code (state.cur cpu) rest) :
    SubMoves sub state next (.run cpu choice) := by
  refine .still ?_ (by rw [shared]) (subActs_update codeIs ?_)
  · rintro other otherChoice act after ⟨⟩ isAct
    rw [head] at isAct
    exact isLock _ (List.cons.inj isAct).1
  · rw [← State.running, head, subActs_cons_of_none]
    cases instr with
    | act act => exact absurd rfl (isLock act)
    | _ => rfl

theorem LifeInv.subMoves [DecidableEq SubAct]
    {label : Label (Fin ncpu) (Entry SubEntry) (Intr SubIntr)} (life : LifeInv locking allowed state)
    (stepped : (kernel sub ncpu).step state label = some next) :
    SubMoves sub state next label := by
  cases Program.step_cases stepped with
  | acquire head | release head => exact subMoves_lock head (by simp) rfl rfl
  | call idle entered => exact subMoves_call idle entered rfl rfl
  | intr unlocked unmasked handled => exact subMoves_intr handled rfl rfl
  | @act cpu choice act rest outcome head executed =>
      have others := life.othersKeep head executed
      have here := (life.core.apply_code head executed).1
      rcases act.sub_or_not with ⟨subAct, rfl⟩ | notSub
      · have ran := executed
        simp only [kernel, exec, Option.map_eq_some_iff] at ran
        rcases ran with ⟨result, ran, rfl⟩
        refine .act head ran rfl ?_ ?_ others
        · rw [← State.running, head]
          rfl
        · rw [here, subActs_append]
      · have stays := staysOut_exec executed notSub
        refine .still ?_ stays.sub ?_
        · rintro other otherChoice subAct after ⟨⟩ isAct
          rw [head] at isAct
          exact notSub subAct (Instr.act.inj (List.cons.inj isAct).1)
        · intro thread
          by_cases same : thread = state.cur cpu
          · rw [same, here, subActs_append, subActs_of_isCore stays.push, List.nil_append,
              ← State.running, head, subActs_cons_of_none]
            cases act with
            | sub subAct => exact absurd rfl (notSub subAct)
            | _ => rfl
          · exact others thread same

theorem subActs_boot {freePages : List ℕ} {start : Sub} (thread : Thread ncpu) :
    subActs ((boot ncpu freePages start : Machine Sub SubAct ncpu).code thread) = [] := by
  cases thread with
  | scheduler own => rfl
  | proc slot => by_cases isInit : slot = 0 <;> simp [boot, isInit, forkret, subActs, subAct?]

end Step

end Xv6
