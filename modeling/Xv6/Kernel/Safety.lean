import Xv6.Kernel.Invariant

/-!
# Steps of the kernel keep its invariants

The lock discipline and the invariants of the process table are kept together: a context
switch is sound because the process that is picked is on no other processor, and that is
so because states change under `ptable.lock` only.

What the subsystem has to bring along are laws about its code (`SubLaws`) and, for the
step at hand, that it wakes nobody but sleepers.
-/

namespace Xv6

open Threads

variable {Sub SubAct SubEntry SubIntr : Type} {ncpu : ℕ}

/-- The code of a subsystem obeys the discipline and does not call `fork`. -/
structure SubLaws (sub : Subsystem Sub SubAct SubEntry SubIntr)
    (locking : SubLocking SubAct) : Prop where
  entry_runs : ∀ entry, (discipline locking).Runs ∅ (sub.entry entry) ∅
  intr_runs : ∀ intr, (discipline locking).Runs ∅ (sub.intr intr) ∅
  exec_runs : ∀ {ncpu : ℕ} (act : SubAct) (thread : Thread ncpu) (choice : ℕ) (kern : Kern Sub)
    (result : Kern Sub × Code Lock (Act SubAct)) (held : Finset Lock), locking.needs act held →
    sub.exec act thread choice kern = some result →
    (discipline locking).Runs held result.2 (locking.leaves act held)
  entry_forks : ∀ entry, forkSites (sub.entry entry) = []
  intr_forks : ∀ intr, forkSites (sub.intr intr) = []
  exec_forks : ∀ {ncpu : ℕ} (act : SubAct) (thread : Thread ncpu) (choice : ℕ) (kern : Kern Sub)
    (result : Kern Sub × Code Lock (Act SubAct)),
    sub.exec act thread choice kern = some result → forkSites result.2 = []

/-- Lock discipline, allowed nestings and process table. -/
structure CoreInv (locking : SubLocking SubAct) (allowed : Lock → Lock → Prop)
    (state : Machine Sub SubAct ncpu) : Prop where
  tracked : Tracked (discipline locking) allowed state
  procs : ProcInv state

/-- In this state, a step of the subsystem wakes nobody but sleepers. -/
def WakesSleepers (sub : Subsystem Sub SubAct SubEntry SubIntr)
    (state : Machine Sub SubAct ncpu) (cpu : Fin ncpu) (choice : ℕ) : Prop :=
  ∀ act rest result, state.running cpu = .act (.sub act) :: rest →
    sub.exec act (state.cur cpu) choice state.shared = some result →
    state.shared.Quiet result.1

/-- The nestings begun by a step are allowed. -/
structure NestsAllowed (sub : Subsystem Sub SubAct SubEntry SubIntr)
    (locking : SubLocking SubAct) (allowed : Lock → Lock → Prop)
    (state : Machine Sub SubAct ncpu) (label : Label (Fin ncpu) (Entry SubEntry) (Intr SubIntr)) :
    Prop where
  entry : ∀ entry outer inner,
    (discipline locking).Nests outer inner ∅ (entryCode sub entry) → allowed outer inner
  intr : ∀ intr outer inner,
    (discipline locking).Nests outer inner ∅ (sub.intr intr) → allowed outer inner
  act : ∀ cpu choice act rest outcome held outer inner, label = .run cpu choice →
    state.running cpu = .act act :: rest →
    exec sub act cpu (state.cur cpu) choice state.shared = some outcome →
    (discipline locking).needs act held →
    (discipline locking).Nests outer inner held outcome.push → allowed outer inner

theorem nestsAllowed_of_all {sub : Subsystem Sub SubAct SubEntry SubIntr}
    {locking : SubLocking SubAct} {state : Machine Sub SubAct ncpu}
    {label : Label (Fin ncpu) (Entry SubEntry) (Intr SubIntr)} :
    NestsAllowed sub locking (fun _ _ => True) state label where
  entry := fun _ _ _ _ => trivial
  intr := fun _ _ _ _ => trivial
  act := fun _ _ _ _ _ _ _ _ _ _ _ _ _ => trivial

variable {sub : Subsystem Sub SubAct SubEntry SubIntr} {locking : SubLocking SubAct}
  {allowed : Lock → Lock → Prop} {state next : Machine Sub SubAct ncpu}

theorem sound_of_kind {cpu : Fin ncpu} {act : Act SubAct} {outcome : Effect Sub SubAct ncpu}
    {rest : Code Lock (Act SubAct)} {held : Finset Lock} (inv : ProcInv state)
    (head : state.running cpu = .act act :: rest)
    (needs : (discipline locking).needs act held)
    (push : Obeys (discipline locking) allowed held outcome.push
      ((discipline locking).leaves act held))
    (kind : Kind state.shared cpu (state.cur cpu) act outcome) :
    Sound (discipline locking) allowed state cpu act outcome held where
  push := push
  switch := by
    intro thread switched
    cases kind with
    | quiet switch _ _ _ => simp [switch] at switched
    | leave leaving _ _ _ =>
        rcases leaving with rfl | ⟨chan, rfl⟩ | rfl <;> exact needs
    | pick _ _ _ _ => exact needs
    | _ => simp at switched
  target := by
    intro thread switched other current
    cases kind with
    | quiet switch _ _ _ => simp [switch] at switched
    | leave _ _ _ _ =>
        simp only [Option.some.injEq] at switched
        subst switched
        exact (inv.own other cpu current).symm
    | pick _ runnable _ _ =>
        simp only [Option.some.injEq] at switched
        subst switched
        have isRunning := inv.running other _ current
        simp [runnable] at isRunning
    | _ => simp at switched
  spawn := by
    intro thread code spawned
    cases kind with
    | quiet _ spawn _ _ => simp [spawn] at spawned
    | @stack np _ _ =>
        simp only [Option.some.injEq, Prod.mk.injEq] at spawned
        rcases spawned with ⟨rfl, rfl⟩
        have mine : some np ∈ forkSites (state.code (state.cur cpu)) := by
          have code : state.code (state.cur cpu) = .act (.kstack np) :: rest := head
          simp [code, forkSites, forkSite]
        refine ⟨?_, rfl, ?_⟩
        · intro other current
          exact inv.not_forking_of_cur current _ mine
        · refine ⟨by simp [forkret, Discipline.Runs, discipline], ?_⟩
          intro outer inner nests
          simp [forkret, Discipline.Nests] at nests
    | _ => simp at spawned

theorem CoreInv.step (laws : SubLaws sub locking) (inv : CoreInv locking allowed state)
    {label : Label (Fin ncpu) (Entry SubEntry) (Intr SubIntr)} [DecidableEq SubAct]
    (stepped : (kernel sub ncpu).step state label = some next)
    (wakes : ∀ cpu choice, label = .run cpu choice → WakesSleepers sub state cpu choice)
    (nests : NestsAllowed sub locking allowed state label) :
    CoreInv locking allowed next where
  tracked := by
    apply inv.tracked.step stepped
    · intro cpu choice act rest outcome held isRun head executed _ needs
      have kind : Kind state.shared cpu (state.cur cpu) act outcome := by
        apply kind_exec executed
        rintro subAct result rfl ran
        exact ⟨wakes cpu choice isRun subAct rest result head ran,
          laws.exec_forks subAct _ choice _ result ran⟩
      apply sound_of_kind inv.procs head needs _ kind
      constructor
      · apply runs_exec executed needs
        intro subAct result _ subNeeds ran
        exact laws.exec_runs subAct _ choice _ result held subNeeds ran
      · intro outer inner nested
        exact nests.act cpu choice act rest outcome held outer inner isRun head executed
          needs nested
    · intro entry thread code entered
      rcases kernel_entry entered with ⟨slot, rfl, rfl⟩
      exact ⟨runs_entry laws.entry_runs, nests.entry entry⟩
    · intro intr cpu thread code handled
      rcases kernel_intr_cases handled with ⟨_, rfl⟩ | rfl | ⟨subIntr, rfl⟩
      · refine ⟨by simp [timer, Discipline.Runs, discipline, Act.needs, Act.leaves], ?_⟩
        intro outer inner nested
        simp [timer, Discipline.Nests] at nested
      · refine ⟨by simp [yield, Discipline.Runs, discipline, Act.needs, Act.leaves], ?_⟩
        intro outer inner nested
        simp [yield, Discipline.Nests] at nested
      · have handlerObeys : Obeys (discipline locking) allowed ∅ (sub.intr subIntr) ∅ :=
          ⟨laws.intr_runs subIntr, nests.intr subIntr⟩
        refine handlerObeys.append ⟨?_, ?_⟩
        · simp [Discipline.Runs, discipline, Act.needs, Act.leaves]
        · intro outer inner nested
          simp [Discipline.Nests] at nested
  procs := by
    cases Program.step_cases stepped with
    | @acquire cpu _ lock rest head | @release cpu _ lock rest head =>
        refine inv.procs.quiet rfl (Kern.quiet_of_proc rfl) ?_
        intro thread
        by_cases same : thread = state.cur cpu
        · subst thread
          rw [State.running] at head
          simp [head, forkSites, forkSite]
        · simp [same]
    | @act cpu choice act rest outcome head executed =>
        apply inv.procs.step_act inv.tracked.cur_injective head
        apply kind_exec executed
        rintro subAct result rfl ran
        exact ⟨wakes cpu choice rfl subAct rest result head ran,
          laws.exec_forks subAct _ choice _ result ran⟩
    | @call cpu entry code idle entered =>
        -- user code is empty, so the new code is all the thread has
        have sites : forkSites code = [] ∨ forkSites code = [none] := by
          cases thread : state.cur cpu with
          | proc slot =>
              simp only [thread, kernel, Option.some.injEq] at entered
              subst entered
              exact forkSites_entry laws.entry_forks
          | scheduler own => simp [thread, kernel] at entered
        refine inv.procs.of_known rfl (Kern.quiet_of_proc rfl) ?_ ?_
        · intro thread
          by_cases same : thread = state.cur cpu
          · subst thread
            rcases sites with none | one
            · simp [none]
            · simp [one]
          · simpa [same] using inv.procs.forking thread
        · intro thread np mem
          by_cases same : thread = state.cur cpu
          · subst thread
            rcases sites with none | one
            · simp [none] at mem
            · simp [one] at mem
          · simpa [same] using mem
    | @intr cpu intr code unlocked unmasked handled =>
        have sites : forkSites code = [] := by
          rcases kernel_intr_cases handled with ⟨_, rfl⟩ | rfl | ⟨subIntr, rfl⟩
          · simp [timer, forkSites, forkSite]
          · simp [yield, forkSites, forkSite]
          · simp [laws.intr_forks, forkSites, forkSite]
        refine inv.procs.quiet rfl (Kern.quiet_of_proc rfl) ?_
        intro thread
        by_cases same : thread = state.cur cpu
        · subst thread
          simp [sites, State.running]
        · simp [same]

theorem coreInv_boot {freePages : List ℕ} {start : Sub} :
    CoreInv locking allowed (boot ncpu freePages start : Machine Sub SubAct ncpu) where
  tracked :=
    { cur_injective := fun left right equal => Thread.scheduler.inj equal
      current := by
        intro cpu
        refine ⟨∅, ⟨by simp [boot], by simp [boot]⟩, ⟨?_, ?_⟩⟩
        · simp [State.running, boot, scheduler, Discipline.Runs, discipline, Act.needs, Act.leaves]
        · intro outer inner nests
          simp [State.running, boot, scheduler, Discipline.Nests] at nests
      parked := by
        intro thread idle
        cases thread with
        | scheduler own => exact absurd rfl (idle own)
        | proc slot =>
            by_cases isInit : slot = 0
            · refine ⟨by simp [boot, isInit, forkret, Discipline.Runs, discipline], ?_⟩
              intro outer inner nests
              simp [boot, isInit, forkret, Discipline.Nests] at nests
            · refine ⟨by simp [boot, isInit, Discipline.Runs, discipline, Act.needs, Act.leaves],
                ?_⟩
              intro outer inner nests
              simp [boot, isInit, Discipline.Nests] at nests }
  procs :=
    { own := fun cpu other current => (Thread.scheduler.inj current).symm
      running := by simp [boot]
      placed := by
        intro slot isRunning
        by_cases isInit : slot = 0 <;>
          simp [boot, bootProc, isInit, Proc.empty] at isRunning
      forking := by
        intro thread
        cases thread with
        | scheduler own => simp [boot, scheduler, forkSites, forkSite]
        | proc slot => by_cases isInit : slot = 0 <;> simp [boot, isInit, forkret, forkSites, forkSite]
      embryo := by
        intro thread np mem
        cases thread with
        | scheduler own => simp [boot, scheduler, forkSites, forkSite] at mem
        | proc slot =>
            by_cases isInit : slot = 0 <;> simp [boot, isInit, forkret, forkSites, forkSite] at mem
      forker := by
        intro thread other np mem
        cases thread with
        | scheduler own => simp [boot, scheduler, forkSites, forkSite] at mem
        | proc slot =>
            by_cases isInit : slot = 0 <;> simp [boot, isInit, forkret, forkSites, forkSite] at mem }

end Xv6
