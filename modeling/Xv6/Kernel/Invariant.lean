import Xv6.Kernel.Locking

/-!
# Invariants of the process table

A process runs on a processor exactly when its state is `RUNNING`, the scheduler threads
stay on their own processors, and a slot that a `fork` is still building is an embryo that
belongs to this `fork` alone. Together with the lock discipline these are the facts about
`proc.c` that every subsystem relies on.

The invariants assume of a subsystem that it changes process states only by waking
sleepers. Whether it does is for the subsystem to show.
-/

namespace Xv6

open Threads Function

variable {Sub SubAct SubEntry SubIntr : Type} {ncpu : ℕ}

abbrev Machine (Sub SubAct : Type) (ncpu : ℕ) :=
  State (Fin ncpu) (Thread ncpu) Lock (Act SubAct) (Kern Sub)

namespace Kern

variable {kern : Kern Sub} {slot other : Slot}

@[simp]
theorem modify_proc_self (change : Proc → Proc) :
    (kern.modify slot change).proc slot = change (kern.proc slot) := by
  simp [modify]

@[simp]
theorem modify_proc_of_ne (change : Proc → Proc) (different : other ≠ slot) :
    (kern.modify slot change).proc other = kern.proc other := by
  simp [modify, different]

theorem setState_proc_of_ne {state : ProcState} (different : other ≠ slot) :
    (kern.setState slot state).proc other = kern.proc other :=
  modify_proc_of_ne _ different

@[simp]
theorem setState_state_self {state : ProcState} :
    ((kern.setState slot state).proc slot).state = state := by
  simp [setState]

/-- The state of a slot changes at most by waking a sleeper or by freeing a zombie. -/
def QuietAt (kern next : Kern Sub) (slot : Slot) : Prop :=
  (next.proc slot).state = (kern.proc slot).state ∨
    ((kern.proc slot).state = .sleeping ∧ (next.proc slot).state = .runnable) ∨
    ((kern.proc slot).state = .zombie ∧ (next.proc slot).state = .unused)

/-- No state changes but by waking sleepers and by freeing zombies. -/
def Quiet (kern next : Kern Sub) : Prop := ∀ slot, kern.QuietAt next slot

theorem QuietAt.iff {next : Kern Sub} {state : ProcState} (quietly : kern.QuietAt next slot)
    (fixed : state = .running ∨ state = .embryo) :
    (next.proc slot).state = state ↔ (kern.proc slot).state = state := by
  rcases quietly with same | ⟨before, after⟩ | ⟨before, after⟩
  · rw [same]
  · rcases fixed with rfl | rfl <;> simp [before, after]
  · rcases fixed with rfl | rfl <;> simp [before, after]

theorem quiet_of_proc {next : Kern Sub} (same : next.proc = kern.proc) : kern.Quiet next :=
  fun slot => Or.inl (by rw [same])

theorem Quiet.trans {middle last : Kern Sub} (first : kern.Quiet middle)
    (second : middle.Quiet last) : kern.Quiet last := by
  intro slot
  have firstHere := first slot
  have secondHere := second slot
  simp only [QuietAt] at firstHere secondHere ⊢
  grind

theorem quiet_modify {change : Proc → Proc}
    (keeps : (change (kern.proc slot)).state = (kern.proc slot).state) :
    kern.Quiet (kern.modify slot change) := by
  intro other
  by_cases same : other = slot
  · subst other
    left
    simpa using keeps
  · left
    rw [modify_proc_of_ne _ same]

theorem quiet_wakeup1 (chan : Option Chan) : kern.Quiet (kern.wakeup1 chan) := by
  intro slot
  by_cases matching : (kern.proc slot).state = .sleeping ∧ (kern.proc slot).chan = chan
  · right
    left
    simp [wakeup1, matching]
  · left
    simp [wakeup1, matching]

theorem quiet_adopt (curproc : Slot) : kern.Quiet (kern.adopt curproc) := by
  intro slot
  left
  simp only [adopt]
  split <;> rfl

theorem quiet_reparent (curproc : Slot) : kern.Quiet (kern.reparent curproc) := by
  unfold reparent
  split
  · exact (quiet_adopt curproc).trans (quiet_wakeup1 _)
  · exact quiet_adopt curproc

theorem quiet_kill (pid : ℤ) : kern.Quiet (kern.kill pid) := by
  unfold kill
  split
  · exact quiet_of_proc rfl
  · rename_i found _
    intro other
    by_cases same : other = found
    · subst other
      by_cases asleep : (kern.proc found).state = .sleeping
      · right
        left
        simp [asleep]
      · left
        simp [asleep]
    · left
      rw [modify_proc_of_ne _ same]

theorem quiet_reap {child : Slot} (zombie : (kern.proc child).state = .zombie) :
    kern.Quiet (kern.reap child) := by
  intro other
  by_cases same : other = child
  · subst other
    right
    right
    simp [reap, modify, zombie]
  · left
    simp [reap, modify, same]

end Kern

/-- The part of `fork` an instruction belongs to: `some none` before a slot is claimed,
`some (some np)` while `np` is being built. -/
def forkSite : Instr Lock (Act SubAct) → Option (Option Slot)
  | .act .allocproc => some none
  | .act (.kstack np) | .act (.copyuvm np) | .act (.forkRunnable np) => some (some np)
  | _ => none

/-- The unfinished calls of `fork` in a piece of code. -/
def forkSites : Code Lock (Act SubAct) → List (Option Slot)
  | [] => []
  | instr :: rest => (forkSite instr).toList ++ forkSites rest

@[simp]
theorem forkSites_append (first second : Code Lock (Act SubAct)) :
    forkSites (first ++ second) = forkSites first ++ forkSites second := by
  induction first with
  | nil => simp [forkSites]
  | cons instr rest ih => simp [forkSites, ih]

/-- What an act of the kernel can do to processors, process states and forks. -/
inductive Kind (kern : Kern Sub) (cpu : Fin ncpu) (thread : Thread ncpu) :
    Act SubAct → Effect Sub SubAct ncpu → Prop
  | quiet {act : Act SubAct} {outcome : Effect Sub SubAct ncpu}
      (switch : outcome.switch = none) (spawn : outcome.spawn = none)
      (quietly : kern.Quiet outcome.shared)
      (sites : (forkSites outcome.push).Sublist (forkSites [.act act])) :
      Kind kern cpu thread act outcome
  | claim {np : Slot} {shared : Kern Sub} (unused : (kern.proc np).state = .unused)
      (embryo : (shared.proc np).state = .embryo)
      (others : ∀ other, other ≠ np → kern.QuietAt shared other) :
      Kind kern cpu thread .allocproc
        { shared, push := [.release .ptable, .act (.kstack np)] }
  | fail {act : Act SubAct} {np : Slot} {shared : Kern Sub}
      (site : forkSite (.act act) = some (some np))
      (unused : (shared.proc np).state = .unused)
      (others : ∀ other, other ≠ np → kern.QuietAt shared other) :
      Kind kern cpu thread act { shared }
  | stack {np : Slot} {shared : Kern Sub} (quietly : kern.Quiet shared) :
      Kind kern cpu thread (.kstack np)
        { shared, push := [.act (.copyuvm np)], spawn := some (.proc np, forkret) }
  | start {np : Slot} {shared : Kern Sub} (runnable : (shared.proc np).state = .runnable)
      (others : ∀ other, other ≠ np → kern.QuietAt shared other) :
      Kind kern cpu thread (.forkRunnable np) { shared }
  | leave {act : Act SubAct} {curproc : Slot} {shared : Kern Sub}
      (leaving : act = .exitSched ∨ (∃ chan, act = .sleepSched chan) ∨ act = .yieldSched)
      (onCpu : thread = .proc curproc)
      (stopped : (shared.proc curproc).state ≠ .running ∧ (shared.proc curproc).state ≠ .embryo)
      (others : ∀ other, other ≠ curproc → kern.QuietAt shared other) :
      Kind kern cpu thread act { shared, switch := some (.scheduler cpu) }
  | pick {slot : Slot} {shared : Kern Sub} {own : Fin ncpu} (onScheduler : thread = .scheduler own)
      (runnable : (kern.proc slot).state = .runnable)
      (running : (shared.proc slot).state = .running)
      (others : ∀ other, other ≠ slot → kern.QuietAt shared other) :
      Kind kern cpu thread .pick
        { shared, push := .release .ptable :: scheduler, switch := some (.proc slot) }

section Kinds

variable {sub : Subsystem Sub SubAct SubEntry SubIntr} {act : Act SubAct} {cpu : Fin ncpu}
  {thread : Thread ncpu} {curproc : Slot} {choice : ℕ} {kern : Kern Sub}
  {outcome : Effect Sub SubAct ncpu}

theorem Kern.quietAt_modify_of_ne {slot other : Slot} {change : Proc → Proc}
    (different : other ≠ slot) : kern.QuietAt (kern.modify slot change) other :=
  Or.inl (by rw [Kern.modify_proc_of_ne _ different])

@[simp]
theorem forkSites_sleep {chan : Chan} {lk : Lock} :
    forkSites (sleep chan lk : Code Lock (Act SubAct)) = [] := by
  unfold sleep
  split <;> simp [forkSites, forkSite]

@[simp]
theorem forkSites_changeQueue {pid queue : ℤ} :
    forkSites (changeQueue pid queue : Code Lock (Act SubAct)) = [] := by
  unfold changeQueue
  split <;> simp [forkSites, forkSite]

theorem forkSites_entry {entry : Entry SubEntry} (subForks : ∀ entry, forkSites (sub.entry entry) = []) :
    forkSites (entryCode sub entry) = [] ∨ forkSites (entryCode sub entry) = [none] := by
  cases entry with
  | fork =>
      right
      simp [entryCode, fork, forkSites, forkSite]
  | sub entry =>
      left
      exact subForks entry
  | changeQueue pid queue =>
      left
      exact forkSites_changeQueue
  | _ =>
      left
      simp [entryCode, exit, wait, kill, sysSleep, setBjfParamsProcess, setBjfParamsSystem,
        setBjfPriority, sleepOther, wakeup, forkSites, forkSite]

theorem Kern.Sets.quiet {pid : ℤ} {change : SchedStat → SchedStat} {after : Kern Sub}
    (sets : kern.Sets pid change after) : kern.Quiet after := by
  cases sets with
  | missing => exact Kern.quiet_of_proc rfl
  | found isFirst =>
      apply Kern.quiet_modify
      rfl

theorem Kern.quietAt_exit {other : Slot} (different : other ≠ curproc) :
    kern.QuietAt (kern.exit curproc) other := by
  have woken : kern.Quiet (kern.wakeup1 ((kern.proc curproc).parent.map .proc)) := quiet_wakeup1 _
  have quietly := (woken.trans (quiet_reparent curproc)) other
  simpa [exit, QuietAt, setState_proc_of_ne different] using quietly

theorem kind_does (does : Does kern cpu choice act thread outcome) :
    Kind kern cpu thread act outcome := by
  cases does with
  | claim unused =>
      refine .claim unused (by simp [Kern.modify]) ?_
      intro other different
      exact Or.inl (by simp [Kern.modify, different])
  | noStack empty | notCopied failed =>
      refine .fail rfl (by simp [Kern.modify]) ?_
      intro other different
      exact Or.inl (by simp [Kern.modify, Kern.setState, different])
  | @stack _ np page pages free =>
      apply Kind.stack
      intro other
      left
      by_cases same : other = np
      · subst other
        simp [Kern.modify]
      · simp [Kern.modify, same]
  | start =>
      refine .start (by simp) ?_
      intro other different
      exact Kern.quietAt_modify_of_ne different
  | copied isCopied | stamp | clear =>
      refine .quiet rfl rfl ?_ (by simp [forkSites, forkSite])
      dsimp only
      apply Kern.quiet_modify
      rfl
  | exit notInit => exact .leave (Or.inl rfl) rfl (by simp [Kern.exit]) fun _ => Kern.quietAt_exit
  | reap isChild zombie => exact .quiet rfl rfl (Kern.quiet_reap zombie) (by simp [forkSites, forkSite])
  | sleep | yield =>
      refine .leave (by simp) rfl (by simp [Kern.sleepOn]) ?_
      intro other different
      exact Kern.quietAt_modify_of_ne different
  | setQueue sets | setParams sets | setPriority sets =>
      exact .quiet rfl rfl sets.quiet (by simp [forkSites])
  | setSystem => exact .quiet rfl rfl (fun _ => Or.inl rfl) (by simp [forkSites])
  | kill => exact .quiet rfl rfl (Kern.quiet_kill _) (by simp [forkSites])
  | wakeup => exact .quiet rfl rfl (Kern.quiet_wakeup1 _) (by simp [forkSites])
  | pick isChoice runnable =>
      refine .pick rfl runnable (by simp) ?_
      intro other different
      exact Kern.quietAt_modify_of_ne different
  | _ =>
      refine .quiet rfl rfl (Kern.quiet_of_proc rfl) ?_
      simp [forkSites, forkSite, Xv6.sleep, Xv6.wakeup, ageprocs, scheduler]

theorem kind_exec (executed : exec sub act cpu thread choice kern = some outcome)
    (subQuiet : ∀ subAct result, act = .sub subAct →
      sub.exec subAct thread choice kern = some result →
      kern.Quiet result.1 ∧ forkSites result.2 = []) :
    Kind kern cpu thread act outcome := by
  cases act with
  | sub subAct =>
      simp only [exec, Option.map_eq_some_iff] at executed
      rcases executed with ⟨result, ran, rfl⟩
      rcases subQuiet subAct result rfl ran with ⟨quietly, noForks⟩
      exact .quiet rfl rfl quietly (by simp [noForks])
  | _ => exact kind_does (does_exec executed (by simp))

end Kinds

/-- Processors, process states and unfinished forks fit together. -/
structure ProcInv (state : Machine Sub SubAct ncpu) : Prop where
  own : ∀ cpu other, state.cur cpu = .scheduler other → other = cpu
  running : ∀ cpu slot, state.cur cpu = .proc slot →
    (state.shared.proc slot).state = .running
  placed : ∀ slot, (state.shared.proc slot).state = .running → ∃ cpu, state.cur cpu = .proc slot
  forking : ∀ thread, (forkSites (state.code thread)).length ≤ 1
  embryo : ∀ thread np, some np ∈ forkSites (state.code thread) →
    (state.shared.proc np).state = .embryo
  forker : ∀ thread other np, some np ∈ forkSites (state.code thread) →
    some np ∈ forkSites (state.code other) → thread = other

namespace ProcInv

variable {state next : Machine Sub SubAct ncpu}

section

variable (inv : ProcInv state) (cur : next.cur = state.cur)
  (quietly : state.shared.Quiet next.shared)

include inv cur quietly

theorem of_known (short : ∀ thread, (forkSites (next.code thread)).length ≤ 1)
    (known : ∀ thread np, some np ∈ forkSites (next.code thread) →
      some np ∈ forkSites (state.code thread)) :
    ProcInv next where
  own := by
    rw [cur]
    exact inv.own
  running := by
    intro cpu slot current
    rw [cur] at current
    exact ((quietly slot).iff (.inl rfl)).mpr (inv.running cpu slot current)
  placed := by
    intro slot isRunning
    rw [cur]
    exact inv.placed slot (((quietly slot).iff (.inl rfl)).mp isRunning)
  forking := short
  embryo := by
    intro thread np mem
    exact ((quietly np).iff (.inr rfl)).mpr (inv.embryo thread np (known thread np mem))
  forker := by
    intro thread other np mem memOther
    exact inv.forker thread other np (known thread np mem) (known other np memOther)

theorem quiet
    (forks : ∀ thread, (forkSites (next.code thread)).Sublist (forkSites (state.code thread))) :
    ProcInv next :=
  inv.of_known cur quietly (fun thread => (forks thread).length_le.trans (inv.forking thread))
    (fun thread _ mem => (forks thread).subset mem)

end

theorem not_forking_of_cur (inv : ProcInv state) {cpu : Fin ncpu} {slot : Slot}
    (current : state.cur cpu = .proc slot) (thread : Thread ncpu) :
    some slot ∉ forkSites (state.code thread) := by
  intro mem
  have isRunning := inv.running cpu slot current
  rw [inv.embryo thread slot mem] at isRunning
  contradiction

theorem rest_of_site (inv : ProcInv state) {thread : Thread ncpu} {act : Act SubAct}
    {rest : Code Lock (Act SubAct)} {site : Option Slot}
    (code : state.code thread = .act act :: rest) (atSite : forkSite (.act act) = some site) :
    forkSites rest = [] := by
  have short := inv.forking thread
  rw [code] at short
  simp only [forkSites, atSite, Option.toList_some, List.length_append, List.length_cons,
    List.length_nil] at short
  exact List.length_eq_zero_iff.mp (by omega)

/-- A step that changes the slot `np` of the fork in progress, and ends or begins that fork. -/
theorem build (np : Slot) (thread : Thread ncpu) (inv : ProcInv state) (cur : next.cur = state.cur)
    (others : ∀ other, other ≠ np → state.shared.QuietAt next.shared other)
    (before : (state.shared.proc np).state ≠ .running)
    (after : (next.shared.proc np).state ≠ .running)
    (unclaimed : ∀ other, other ≠ thread → some np ∉ forkSites (state.code other))
    (elsewhere : ∀ other, other ≠ thread →
      forkSites (next.code other) = forkSites (state.code other))
    (here : forkSites (next.code thread) = [] ∨
      forkSites (next.code thread) = [some np] ∧ (next.shared.proc np).state = .embryo) :
    ProcInv next where
  own := by
    rw [cur]
    exact inv.own
  running := by
    intro cpu slot current
    rw [cur] at current
    have wasRunning := inv.running cpu slot current
    by_cases same : slot = np
    · subst slot
      exact absurd wasRunning before
    · exact ((others slot same).iff (.inl rfl)).mpr wasRunning
  placed := by
    intro slot isRunning
    rw [cur]
    apply inv.placed
    by_cases same : slot = np
    · subst slot
      exact absurd isRunning after
    · exact ((others slot same).iff (.inl rfl)).mp isRunning
  forking := by
    intro other
    by_cases same : other = thread
    · subst other
      rcases here with empty | ⟨single, _⟩
      · simp [empty]
      · simp [single]
    · rw [elsewhere other same]
      exact inv.forking other
  embryo := by
    intro other slot mem
    by_cases same : other = thread
    · subst other
      rcases here with empty | ⟨single, isEmbryo⟩
      · simp [empty] at mem
      · simp only [single, List.mem_singleton, Option.some.injEq] at mem
        subst mem
        exact isEmbryo
    · rw [elsewhere other same] at mem
      have different : slot ≠ np := by
        rintro rfl
        exact unclaimed other same mem
      exact ((others slot different).iff (.inr rfl)).mpr (inv.embryo other slot mem)
  forker := by
    intro left right slot memLeft memRight
    by_cases leftSame : left = thread <;> by_cases rightSame : right = thread
    · rw [leftSame, rightSame]
    · subst left
      rw [elsewhere right rightSame] at memRight
      rcases here with empty | ⟨single, _⟩
      · simp [empty] at memLeft
      · simp only [single, List.mem_singleton, Option.some.injEq] at memLeft
        subst memLeft
        exact absurd memRight (unclaimed right rightSame)
    · subst right
      rw [elsewhere left leftSame] at memLeft
      rcases here with empty | ⟨single, _⟩
      · simp [empty] at memRight
      · simp only [single, List.mem_singleton, Option.some.injEq] at memRight
        subst memRight
        exact absurd memLeft (unclaimed left leftSame)
    · rw [elsewhere left leftSame] at memLeft
      rw [elsewhere right rightSame] at memRight
      exact inv.forker left right slot memLeft memRight

theorem switch (cpu : Fin ncpu) (thread : Thread ncpu) (slot : Slot) (inv : ProcInv state)
    (injective : Function.Injective state.cur)
    (cur : next.cur = update state.cur cpu thread)
    (others : ∀ other, other ≠ slot → state.shared.QuietAt next.shared other)
    (notEmbryo : (state.shared.proc slot).state ≠ .embryo)
    (change : state.cur cpu = .proc slot ∧ thread = .scheduler cpu ∧
        (next.shared.proc slot).state ≠ .running ∨
      state.cur cpu = .scheduler cpu ∧ thread = .proc slot ∧
        (state.shared.proc slot).state ≠ .running ∧ (next.shared.proc slot).state = .running)
    (forks : ∀ thread, forkSites (next.code thread) = forkSites (state.code thread)) :
    ProcInv next where
  own := by
    intro other third current
    rw [cur] at current
    by_cases same : other = cpu
    · subst other
      simp only [update_self] at current
      rcases change with ⟨_, toScheduler, _⟩ | ⟨_, toProc, _, _⟩
      · rw [toScheduler] at current
        exact (Thread.scheduler.inj current).symm
      · simp [toProc] at current
    · rw [update_of_ne same] at current
      exact inv.own other third current
  running := by
    intro other slot' current
    rw [cur] at current
    by_cases same : other = cpu
    · subst other
      simp only [update_self] at current
      rcases change with ⟨_, toScheduler, _⟩ | ⟨_, toProc, _, nowRunning⟩
      · simp [toScheduler] at current
      · rw [toProc] at current
        cases current
        exact nowRunning
    · rw [update_of_ne same] at current
      have wasRunning := inv.running other slot' current
      have different : slot' ≠ slot := by
        rintro rfl
        rcases change with ⟨onCpu, _, _⟩ | ⟨_, _, stopped, _⟩
        · exact same (injective (current.trans onCpu.symm))
        · exact stopped wasRunning
      exact ((others slot' different).iff (.inl rfl)).mpr wasRunning
  placed := by
    intro slot' isRunning
    rw [cur]
    by_cases same : slot' = slot
    · subst slot'
      rcases change with ⟨_, _, stopped⟩ | ⟨_, toProc, _, _⟩
      · exact absurd isRunning stopped
      · exact ⟨cpu, by simp [toProc]⟩
    · rcases inv.placed slot' (((others slot' same).iff (.inl rfl)).mp isRunning) with ⟨other, current⟩
      refine ⟨other, ?_⟩
      have elsewhere : other ≠ cpu := by
        rintro rfl
        rcases change with ⟨onCpu, _, _⟩ | ⟨onScheduler, _, _, _⟩
        · rw [onCpu] at current
          exact same (Thread.proc.inj current).symm
        · simp [onScheduler] at current
      rw [update_of_ne elsewhere]
      exact current
  forking := by
    intro thread'
    rw [forks]
    exact inv.forking thread'
  embryo := by
    intro thread' np mem
    rw [forks] at mem
    have wasEmbryo := inv.embryo thread' np mem
    have different : np ≠ slot := by
      rintro rfl
      exact notEmbryo wasEmbryo
    exact ((others np different).iff (.inr rfl)).mpr wasEmbryo
  forker := by
    intro left right np memLeft memRight
    rw [forks] at memLeft memRight
    exact inv.forker left right np memLeft memRight

end ProcInv

section Step

variable {state next : Machine Sub SubAct ncpu} {cpu : Fin ncpu} {act : Act SubAct}
  {rest : Code Lock (Act SubAct)} {outcome : Effect Sub SubAct ncpu}

theorem forkSites_apply_of_ne {thread : Thread ncpu} (different : thread ≠ state.cur cpu)
    (spawn : outcome.spawn = none) :
    forkSites ((state.apply cpu (state.cur cpu) rest outcome).code thread) =
      forkSites (state.code thread) := by
  simp [State.apply, spawn, different]

theorem forkSites_apply_self (spawn : outcome.spawn = none) :
    forkSites ((state.apply cpu (state.cur cpu) rest outcome).code (state.cur cpu)) =
      forkSites outcome.push ++ forkSites rest := by
  simp [State.apply, spawn]

/-- A fork that starts its process, or gives it up. -/
theorem ProcInv.end_fork {np : Slot} {shared : Kern Sub} (inv : ProcInv state)
    (code : state.code (state.cur cpu) = .act act :: rest)
    (site : forkSite (.act act) = some (some np)) (stopped : (shared.proc np).state ≠ .running)
    (others : ∀ other, other ≠ np → state.shared.QuietAt shared other) :
    ProcInv (state.apply cpu (state.cur cpu) rest { shared }) := by
  have restEmpty := inv.rest_of_site code site
  have mine : some np ∈ forkSites (state.code (state.cur cpu)) := by
    simp [code, forkSites, site]
  refine inv.build np (state.cur cpu) rfl others (by simp [inv.embryo _ np mine]) stopped ?_ ?_ ?_
  · intro other different mem
    exact different (inv.forker other _ np mem mine)
  · intro other different
    exact forkSites_apply_of_ne different rfl
  · left
    rw [forkSites_apply_self rfl]
    simp [forkSites, restEmpty]

theorem ProcInv.step_act (inv : ProcInv state) (injective : Function.Injective state.cur)
    (head : state.running cpu = .act act :: rest)
    (kind : Kind state.shared cpu (state.cur cpu) act outcome) :
    ProcInv (state.apply cpu (state.cur cpu) rest outcome) := by
  have code : state.code (state.cur cpu) = .act act :: rest := head
  cases kind with
  | quiet switch spawn quietly sites =>
      apply inv.quiet
      · simp [State.apply, switch]
      · exact quietly
      · intro thread
        by_cases same : thread = state.cur cpu
        · subst thread
          rw [forkSites_apply_self spawn, code]
          have whole : forkSites (.act act :: rest) = forkSites [.act act] ++ forkSites rest := by
            simp [forkSites]
          rw [whole]
          exact sites.append (List.Sublist.refl _)
        · rw [forkSites_apply_of_ne same spawn]
  | @claim np shared unused embryo others =>
      have restEmpty := inv.rest_of_site code rfl
      apply inv.build np (state.cur cpu)
      · simp [State.apply]
      · exact others
      · simp [unused]
      · simp [State.apply, embryo]
      · intro other _ mem
        have isEmbryo := inv.embryo other np mem
        simp [unused] at isEmbryo
      · intro other different
        exact forkSites_apply_of_ne different rfl
      · right
        rw [forkSites_apply_self rfl]
        exact ⟨by simp [forkSites, forkSite, restEmpty], embryo⟩
  | fail site unused others => exact inv.end_fork code site (by simp [unused]) others
  | @stack np shared quietly =>
      apply inv.quiet
      · simp [State.apply]
      · exact quietly
      · intro thread
        by_cases new : thread = .proc np
        · subst thread
          simp [State.apply, forkret, forkSites, forkSite]
        · by_cases same : thread = state.cur cpu
          · subst thread
            simp [State.apply, new, code, forkSites, forkSite]
          · simp [State.apply, new, same]
  | start runnable others => exact inv.end_fork code rfl (by simp [runnable]) others
  | @leave _ curproc shared leaving onCpu stopped others =>
      apply inv.switch cpu (.scheduler cpu) curproc injective
      · simp [State.apply]
      · exact others
      · simp [inv.running cpu curproc onCpu]
      · exact Or.inl ⟨onCpu, rfl, stopped.1⟩
      · intro thread
        by_cases same : thread = state.cur cpu
        · subst thread
          rw [forkSites_apply_self rfl, code]
          rcases leaving with rfl | ⟨chan, rfl⟩ | rfl <;> simp [forkSites, forkSite]
        · exact forkSites_apply_of_ne same rfl
  | @pick slot shared own onScheduler runnable running others =>
      have ownCpu := inv.own cpu own onScheduler
      subst ownCpu
      apply inv.switch own (.proc slot) slot injective
      · simp [State.apply]
      · exact others
      · simp [runnable]
      · exact Or.inr ⟨onScheduler, rfl, by simp [runnable], running⟩
      · intro thread
        by_cases same : thread = state.cur own
        · subst thread
          rw [forkSites_apply_self rfl, code]
          simp [forkSites, forkSite, scheduler]
        · exact forkSites_apply_of_ne same rfl

end Step

end Xv6
