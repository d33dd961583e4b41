import Xv6.Kernel.Lifecycle
import Xv6.Lib.Run
import Xv6.Semaphore.Section

/-!
# The kernel refines the abstract semaphores

Each state of the kernel shows, for every semaphore, a state of the abstract semaphore
(`view`). A step of the kernel is one operation on the view of a semaphore, or does not
change it; which operation it is can be read off the instruction that runs (`semOp`).

The one assumption is that `kill` does not hit a process that sleeps on a semaphore.
-/

namespace Xv6

open Threads Transition

variable {ncpu : ℕ} {allowed : Lock → Lock → Prop} {state next : SemMachine ncpu}
  {label : SemLabel ncpu} {sem : SemId} {cpu : Fin ncpu} {thread : Thread ncpu} {slot : Slot}

/-- The process is in the blocking part of `semaphore_acquire` and nobody has released it. -/
def Waits (state : SemMachine ncpu) (sem : SemId) (slot : Slot) : Prop :=
  Sleeps sem (state.code (.proc slot)) ∨ state.shared.AsleepOn slot (.sem sem)

open Classical in
/-- The stage that satisfies the predicate, or `free`. -/
noncomputable def stageOf (isStage : Stage → Prop) : Stage :=
  if found : ∃ stage, isStage stage then found.choose else .free

noncomputable def view (state : SemMachine ncpu) (sem : SemId) : SemView where
  sem := state.shared.sem sem
  waits := { slot | Waits state sem slot }
  stage := stageOf fun stage => ∃ thread, At sem (state.code thread) stage

/-- The operation that the first instruction of the code begins. -/
def opOf (sem : SemId) (thread : Thread ncpu) : SemCode → Option SemOp
  | .act (.sub (.acquireBody id)) :: _ =>
      match thread with
      | .proc curproc => if id = sem then some (.acquire curproc) else none
      | .scheduler _ => none
  | .act (.sub (.sortOuter id _)) :: _ | .act (.sub (.sortInner id _ _)) :: _ =>
      if id = sem then some .sort else none
  | .act (.sub (.placeLoop id _)) :: _ | .act (.sub (.placeStore id _)) :: _ =>
      if id = sem then some .place else none
  | .act (.sub (.releaseBody id)) :: _ => if id = sem then some .release else none
  | .act (.sub (.wakeupproc target)) :: .release .ptable :: .act (.sub (.dequeue id)) :: _ =>
      if id = sem then some (.wake target) else none
  | .act (.sub (.dequeue id)) :: _ => if id = sem then some .dequeue else none
  | _ => none

/-- The operation on a semaphore that a step carries out. -/
def semOp (state : SemMachine ncpu) (label : SemLabel ncpu) (sem : SemId) : Option SemOp :=
  match label with
  | .run cpu _ => opOf sem (state.cur cpu) (state.running cpu)
  | _ => none

def Chan.isSem : Chan → Bool
  | .sem _ => true
  | _ => false

/-- The step carries out the act of `kill` on a process that sleeps on a semaphore. -/
def killsWaiter (state : SemMachine ncpu) (label : SemLabel ncpu) : Bool :=
  match label with
  | .run cpu _ =>
      match state.running cpu with
      | .act (.kill pid) :: _ =>
          (state.shared.find fun _ proc => proc.pid = pid).any fun slot =>
            (state.shared.proc slot).state = .sleeping &&
              (state.shared.proc slot).chan.any Chan.isSem
      | _ => false
  | _ => false

/-- Lock discipline, process table and semaphores fit together. -/
structure SemInv (allowed : Lock → Lock → Prop) (state : SemMachine ncpu) : Prop where
  core : CoreInv semLocking allowed state
  placed : ∀ thread, Placed (state.code thread)
  onCpu : ∀ thread sem, Sleeps sem (state.code thread) → ∃ cpu, state.cur cpu = thread
  asleep : ∀ slot sem, state.shared.AsleepOn slot (.sem sem) →
    state.code (.proc slot) = wakeTail sem
  sound : ∀ sem, (view state sem).Sound

section Holder

section

variable (core : CoreInv semLocking allowed state)

include core

/-- A thread whose code gives up a lock other than `ptable.lock` is on a processor that owns
the lock. -/
theorem CoreInv.owner_of_gives {lock : Lock} (gives : Gives lock (state.code thread))
    (notPtable : lock ≠ .ptable) : ∃ cpu, state.cur cpu = thread ∧ state.owner lock = some cpu := by
  rcases gives with ⟨before, rest, codeIs, unacquired⟩
  by_cases current : ∃ cpu, state.cur cpu = thread
  · rcases current with ⟨cpu, rfl⟩
    exact ⟨cpu, rfl, core.tracked.owner_of_release codeIs unacquired⟩
  · have obeys := core.tracked.parked thread fun cpu isCur => current ⟨cpu, isCur⟩
    rw [codeIs] at obeys
    have held := obeys.runs.mem_of_release unacquired
    simp only [discipline, Finset.mem_singleton] at held
    exact absurd held notPtable

theorem CoreInv.owner_of_at {stage : Stage} (isAt : At sem (state.code thread) stage) :
    ∃ cpu, state.cur cpu = thread ∧ state.owner (.sem sem) = some cpu :=
  core.owner_of_gives isAt.gives (by simp)

theorem CoreInv.cur_of_at {stage : Stage} (owned : state.owner (.sem sem) = some cpu)
    (isAt : At sem (state.code thread) stage) : state.cur cpu = thread := by
  rcases core.owner_of_at isAt with ⟨other, isCur, owns⟩
  rw [owned, Option.some.injEq] at owns
  rw [owns, isCur]

end

theorem stageOf_eq {isStage : Stage → Prop} {stage : Stage}
    (unique : ∀ other, isStage other → other = stage) (here : isStage stage) :
    stageOf isStage = stage := by
  have found : ∃ stage, isStage stage := ⟨stage, here⟩
  rw [stageOf, dif_pos found]
  exact unique _ found.choose_spec

theorem CoreInv.view_stage {stage : Stage} (core : CoreInv semLocking allowed state)
    (isAt : At sem (state.code thread) stage) : (view state sem).stage = stage := by
  rcases core.owner_of_at isAt with ⟨cpu, rfl, owned⟩
  refine stageOf_eq ?_ ⟨_, isAt⟩
  rintro other ⟨thread, otherAt⟩
  have same := core.cur_of_at owned otherAt
  subst same
  exact (otherAt.unique isAt).2

theorem CoreInv.view_free (core : CoreInv semLocking allowed state)
    (owned : state.owner (.sem sem) = some cpu)
    (nowhere : ∀ stage, ¬At sem (state.running cpu) stage) : (view state sem).stage = .free := by
  have none : ¬∃ stage, ∃ thread, At sem (state.code thread) stage := by
    rintro ⟨stage, thread, isAt⟩
    have same := core.cur_of_at owned isAt
    subst same
    exact nowhere stage isAt
  exact dif_neg none

theorem view_eq (semIs : next.shared.sem sem = state.shared.sem sem)
    (waits : ∀ slot, Waits next sem slot ↔ Waits state sem slot)
    (places : ∀ thread stage, At sem (next.code thread) stage ↔ At sem (state.code thread) stage) :
    view next sem = view state sem := by
  have sameStage : (fun stage => ∃ thread, At sem (next.code thread) stage) =
      fun stage => ∃ thread, At sem (state.code thread) stage := by
    funext stage
    simp only [places]
  simp only [view, semIs, waits, sameStage]

end Holder

def SemView.Does (priority : Slot → ℤ) (before : SemView) : Option SemOp → SemView → Prop
  | none, after => after = before
  | some op, after => SemView.Step priority before op after

theorem SemView.Does.cases {priority : Slot → ℤ} {before after : SemView} {op : Option SemOp}
    (does : before.Does priority op after) :
    op = none ∧ after = before ∨ ∃ sure, op = some sure ∧ SemView.Step priority before sure after := by
  cases op with
  | none => exact Or.inl ⟨rfl, does⟩
  | some op => exact Or.inr ⟨op, rfl, does⟩

theorem SemView.Exact.does {priority : Slot → ℤ} {before after : SemView} {queue : List Slot}
    {op : Option SemOp} (sound : before.Sound) (exact : before.Exact queue)
    (does : before.Does priority op after) : ∃ queueAfter, after.Exact queueAfter := by
  rcases does.cases with ⟨_, rfl⟩ | ⟨op, _, stepped⟩
  · exact ⟨queue, exact⟩
  · exact exact.step sound stepped

theorem SemView.Sound.does {priority : Slot → ℤ} {before after : SemView}
    {op : Option SemOp} (sound : before.Sound) (does : before.Does priority op after) :
    after.Sound := by
  rcases does.cases with ⟨_, rfl⟩ | ⟨op, _, stepped⟩
  · exact sound
  · exact sound.step stepped

/-- The thread on `cpu` has `code` left to do. Of the other threads only the one of a process
that is being built can have changed. -/
structure Moved (state next : SemMachine ncpu) (cpu : Fin ncpu) (code : SemCode) : Prop where
  here : next.code (state.cur cpu) = code
  elsewhere : ∀ thread, thread ≠ state.cur cpu → next.code thread = state.code thread ∨
    (next.code thread = forkret ∧
      ∃ np, thread = .proc np ∧ (state.shared.proc np).state = .embryo)
  cur : ∀ other, other ≠ cpu → next.cur other = state.cur other

namespace Moved

variable {code : SemCode}

theorem of_update (codeIs : next.code = Function.update state.code (state.cur cpu) code)
    (curIs : next.cur = state.cur) : Moved state next cpu code where
  here := by simp [codeIs]
  elsewhere := by
    intro thread different
    left
    rw [codeIs, Function.update_of_ne different]
  cur := fun _ _ => by rw [curIs]

theorem not_embryo {np : Slot} (core : CoreInv semLocking allowed state)
    (embryo : (state.shared.proc np).state = .embryo) : state.cur cpu ≠ .proc np := by
  intro isCur
  have running := core.procs.running cpu np isCur
  simp [embryo] at running

theorem open_forkret : Open forkret := .outside (by simp [forkret, Foreign])

section

variable (moved : Moved state next cpu code)

include moved

theorem at_elsewhere {stage : Stage} (core : CoreInv semLocking allowed state)
    (different : thread ≠ state.cur cpu) :
    At sem (next.code thread) stage ↔ At sem (state.code thread) stage := by
  rcases moved.elsewhere thread different with same | ⟨isForkret, np, rfl, embryo⟩
  · rw [same]
  · constructor
    · intro isAt
      rw [isForkret] at isAt
      exact absurd isAt (not_at_of_unmarked open_forkret.unmarked)
    · intro isAt
      rcases core.owner_of_at isAt with ⟨other, isCur, _⟩
      exact absurd isCur (not_embryo core embryo)

section

variable (inv : SemInv allowed state)

include inv

theorem sleeps_elsewhere (different : thread ≠ state.cur cpu) :
    Sleeps sem (next.code thread) ↔ Sleeps sem (state.code thread) := by
  rcases moved.elsewhere thread different with same | ⟨isForkret, np, rfl, embryo⟩
  · rw [same]
  · constructor
    · intro sleeps
      rw [isForkret] at sleeps
      exact absurd sleeps open_forkret.not_sleeps
    · intro sleeps
      rcases inv.onCpu _ _ sleeps with ⟨other, isCur⟩
      exact absurd isCur (not_embryo inv.core embryo)

theorem semInv (core : CoreInv semLocking allowed next) (placed : Placed code)
    (stays : ∀ sem, Sleeps sem code → next.cur cpu = state.cur cpu)
    (asleep : ∀ slot sem, next.shared.AsleepOn slot (.sem sem) →
      state.shared.AsleepOn slot (.sem sem) ∨ (state.cur cpu = .proc slot ∧ code = wakeTail sem))
    (sound : ∀ sem, (view next sem).Sound) : SemInv allowed next where
  core := core
  placed := by
    intro thread
    by_cases same : thread = state.cur cpu
    · rw [same, moved.here]
      exact placed
    · rcases moved.elsewhere thread same with unchanged | ⟨isForkret, _⟩
      · rw [unchanged]
        exact inv.placed thread
      · rw [isForkret]
        exact .idle open_forkret
  onCpu := by
    intro thread sem sleeps
    by_cases same : thread = state.cur cpu
    · rw [same, moved.here] at sleeps
      exact ⟨cpu, (stays sem sleeps).trans same.symm⟩
    · rw [moved.sleeps_elsewhere inv same] at sleeps
      rcases inv.onCpu thread sem sleeps with ⟨other, isCur⟩
      have elsewhere : other ≠ cpu := by
        rintro rfl
        exact same isCur.symm
      exact ⟨other, (moved.cur other elsewhere).trans isCur⟩
  asleep := by
    intro slot sem isAsleep
    rcases asleep slot sem isAsleep with before | ⟨isCur, codeIs⟩
    · have different : Thread.proc slot ≠ state.cur cpu := by
        intro isCur
        have running := inv.core.procs.running cpu slot isCur.symm
        simp [before.1] at running
      rcases moved.elsewhere _ different with unchanged | ⟨_, np, isNp, embryo⟩
      · rw [unchanged]
        exact inv.asleep slot sem before
      · cases isNp
        simp [before.1] at embryo
    · rw [← isCur, moved.here, codeIs]
  sound := sound

theorem waits_iff
    (asleep : next.shared.AsleepOn slot (.sem sem) ↔ state.shared.AsleepOn slot (.sem sem))
    (sleeps : Sleeps sem code ↔ Sleeps sem (state.running cpu)) :
    Waits next sem slot ↔ Waits state sem slot := by
  apply or_congr _ asleep
  by_cases same : Thread.proc slot = state.cur cpu
  · rw [same, moved.here]
    exact sleeps
  · exact moved.sleeps_elsewhere inv same

theorem view_eq (semIs : next.shared.sem sem = state.shared.sem sem)
    (asleep : ∀ slot, next.shared.AsleepOn slot (.sem sem) ↔ state.shared.AsleepOn slot (.sem sem))
    (sleeps : Sleeps sem code ↔ Sleeps sem (state.running cpu))
    (places : ∀ stage, At sem code stage ↔ At sem (state.running cpu) stage) :
    view next sem = view state sem := by
  apply Xv6.view_eq semIs
  · intro slot
    exact moved.waits_iff inv (asleep slot) sleeps
  · intro thread stage
    by_cases same : thread = state.cur cpu
    · rw [same, moved.here]
      exact places stage
    · exact moved.at_elsewhere inv.core same

end

end

end Moved

section Wakes

theorem SemInv.actPlace {act : Act SemAct} {rest : SemCode} (inv : SemInv allowed state)
    (head : state.running cpu = .act act :: rest) : ActPlace act rest := by
  have placed := inv.placed (state.cur cpu)
  rw [← State.running, head] at placed
  exact placed.at_act

/-- A thread on its way to sleep owns the lock of the semaphore, or has come to the switch with
`ptable.lock`. -/
theorem SemInv.owner_of_sleeps (inv : SemInv allowed state) (sleeps : Sleeps sem (state.code thread)) :
    ∃ cpu, state.cur cpu = thread ∧ (state.owner (.sem sem) = some cpu ∨
      state.owner .ptable = some cpu ∧
        state.running cpu = .act (.sleepSched (.sem sem)) :: wakeTail sem) := by
  rcases (inv.placed _).gives_of_sleeps sleeps with gives | codeIs
  · rcases inv.core.owner_of_gives gives (by simp) with ⟨cpu, isCur, owned⟩
    exact ⟨cpu, isCur, Or.inl owned⟩
  · rcases inv.onCpu _ _ sleeps with ⟨cpu, rfl⟩
    rcases inv.core.tracked.current cpu with ⟨held, holds, obeys⟩
    rw [State.running, codeIs] at obeys
    have heldIs : held = {.ptable} := obeys.runs.1
    exact ⟨cpu, rfl, Or.inr ⟨(holds.mem .ptable).mp (by simp [heldIs]), codeIs⟩⟩

theorem SemInv.asleep_of_wake (inv : SemInv allowed state)
    (head : state.running cpu = semAct (.wakeupproc (some slot)) :: .release .ptable ::
      afterWake sem) : state.shared.AsleepOn slot (.sem sem) := by
  have isAt : At sem (state.code (state.cur cpu)) (.called (some slot)) := by
    rw [← State.running, head]
    exact .called
  have stage := inv.core.view_stage isAt
  rcases inv.core.owner_of_at isAt with ⟨owner, isCur, owned⟩
  have same := inv.core.tracked.cur_injective isCur
  subst same
  have headIs := (inv.sound sem).called _ stage
  rcases (inv.sound sem).cell _ slot (inv.sound sem).first_lt headIs.symm with waits | ⟨_, granted⟩
  · rcases waits with sleeps | asleep
    · -- a thread on its way to sleep would own one of the two locks held here
      rcases inv.owner_of_sleeps sleeps with ⟨other, isOther, owns | ⟨owns, codeIs⟩⟩
      · rw [owned, Option.some.injEq] at owns
        subst owns
        rw [← isOther, ← State.running, head] at sleeps
        simp [Sleeps, afterWake] at sleeps
      · rcases inv.core.tracked.current owner with ⟨held, holds, obeys⟩
        rw [head] at obeys
        have ownsHere := (holds.mem .ptable).mp obeys.runs.1
        rw [ownsHere, Option.some.injEq] at owns
        subst owns
        rw [codeIs] at head
        cases head
    · exact asleep
  · simp [stage] at granted

theorem SemInv.wakesSleepers (inv : SemInv allowed state) (choice : ℕ) :
    WakesSleepers semaphores state cpu choice := by
  intro act rest result head executed
  have actPlace := inv.actPlace head
  generalize state.cur cpu = thread at executed
  cases semExec_cases executed with
  | @wake slot thread =>
      cases actPlace with
      | foreign never | print never => exact absurd never id
      | wakeupproc =>
          have asleep := inv.asleep_of_wake head
          intro other
          by_cases same : other = slot
          · subst other
            exact Or.inr (Or.inl ⟨asleep.1, by simp⟩)
          · exact Or.inl (by rw [Kern.setState_proc_of_ne same])
  | placeStore entry =>
      dsimp only
      apply Kern.quiet_modify
      rfl
  | _ => exact Kern.quiet_of_proc rfl

end Wakes

/-- What one step does to the shape of the state and to the views. -/
structure Refined (state : SemMachine ncpu) (label : SemLabel ncpu) (next : SemMachine ncpu)
    (cpu : Fin ncpu) (code : SemCode) : Prop where
  moved : Moved state next cpu code
  placed : Placed code
  stays : ∀ sem, Sleeps sem code → next.cur cpu = state.cur cpu
  asleep : ∀ slot sem, next.shared.AsleepOn slot (.sem sem) →
    state.shared.AsleepOn slot (.sem sem) ∨ (state.cur cpu = .proc slot ∧ code = wakeTail sem)
  does : ∀ sem, (view state sem).Does state.shared.priority (semOp state label sem)
    (view next sem)

namespace Refined

variable {code : SemCode}

theorem of_open (inv : SemInv allowed state) (moved : Moved state next cpu code)
    (before : Open (state.running cpu)) (after : Open code)
    (semIs : next.shared.sub.sems = state.shared.sub.sems)
    (asleep : ∀ slot sem,
      next.shared.AsleepOn slot (.sem sem) ↔ state.shared.AsleepOn slot (.sem sem))
    (silent : ∀ sem, semOp state label sem = none) : Refined state label next cpu code where
  moved := moved
  placed := .idle after
  stays := fun _ sleeps => absurd sleeps after.not_sleeps
  asleep := fun slot sem isAsleep => Or.inl ((asleep slot sem).mp isAsleep)
  does := by
    intro sem
    rw [silent]
    refine moved.view_eq inv (congrFun semIs sem) (fun slot => asleep slot sem) ?_ ?_
    · exact iff_of_false after.not_sleeps before.not_sleeps
    · intro stage
      exact iff_of_false (not_at_of_unmarked after.unmarked) (not_at_of_unmarked before.unmarked)

theorem lock {instr : Instr Lock (Act SemAct)} {choice : ℕ} {rest : SemCode}
    (inv : SemInv allowed state) (head : state.running cpu = instr :: rest)
    (isLock : ∀ act, instr ≠ .act act)
    (codeIs : next.code = Function.update state.code (state.cur cpu) rest)
    (curIs : next.cur = state.cur) (shared : next.shared = state.shared) :
    Refined state (.run cpu choice) next cpu rest := by
  have placed := inv.placed (state.cur cpu)
  rw [← State.running, head] at placed
  have moved : Moved state next cpu rest := .of_update codeIs curIs
  refine ⟨moved, placed.after_lock isLock, fun _ _ => by rw [curIs], ?_, ?_⟩
  · intro slot sem isAsleep
    rw [shared] at isAsleep
    exact Or.inl isAsleep
  · intro sem
    have silent : semOp state (.run cpu choice) sem = none := by
      simp only [semOp, head]
      cases instr with
      | act act => exact absurd rfl (isLock act)
      | _ => rfl
    rw [silent]
    refine moved.view_eq inv (by rw [shared]) (fun slot => by rw [shared]) ?_ ?_
    · have notAct : .act (.sleepSched (.sem sem)) ≠ instr := fun same => isLock _ same.symm
      simp [head, Sleeps, notAct]
    · intro stage
      rw [head]
      exact placed.at_after_lock isLock

theorem open_entry {body : SemAct} (isBody : body = .acquireBody sem ∨ body = .releaseBody sem) :
    Open [.acquire (.sem sem), semAct body, .release (.sem sem)] := by
  have foreign : ∀ instr ∈ ([.acquire (.sem sem)] : SemCode), Foreign instr := by
    simp [Foreign]
  exact .entered foreign isBody

theorem call {entry : Entry SemEntry} (inv : SemInv allowed state)
    (idle : state.running cpu = [])
    (entered : (kernel semaphores ncpu).entry entry (state.cur cpu) = some code) :
    Refined state (.call cpu entry)
      { state with code := Function.update state.code (state.cur cpu) code } cpu code := by
  refine of_open inv (.of_update rfl rfl) ?_ ?_ rfl (fun _ _ => Iff.rfl) (fun _ => rfl)
  · rw [idle]
    exact .outside (by simp)
  · rcases kernel_entry entered with ⟨curproc, thread, rfl⟩
    cases entry with
    | sub entry =>
        cases entry with
        | semAcquire sem =>
            exact open_entry (Or.inl rfl)
        | semRelease sem =>
            exact open_entry (Or.inr rfl)
        | _ =>
            apply Open.outside
            simp [entryCode, semaphores, consoleread, consolewrite, cprintf, Foreign]
    | _ =>
        apply Open.outside
        intro instr mem
        exact foreign_of_isCore (isCore_entry (by simp) instr mem)

theorem open_of_unlocked (inv : SemInv allowed state) (unlocked : state.ncli cpu = 0) :
    Open (state.running cpu) := by
  rcases inv.core.tracked.current cpu with ⟨held, holds, obeys⟩
  have empty := holds.eq_empty unlocked
  subst empty
  have nothing : ∀ lock, ¬Gives lock (state.running cpu) := by
    rintro lock ⟨before, rest, codeIs, unacquired⟩
    rw [codeIs] at obeys
    simpa using obeys.runs.mem_of_release unacquired
  have placed := inv.placed (state.cur cpu)
  rw [← State.running] at placed
  generalize codeIs : state.running cpu = code at placed obeys nothing
  cases placed with
  | idle isOpen => exact isOpen
  | busy isAt => exact absurd isAt.gives (nothing _)
  | @printing before sem prints =>
      refine absurd ⟨before, _, rfl, ?_⟩ (nothing (.sem sem))
      intro mem
      have isPrint := prints _ mem
      simp [PrintInstr] at isPrint
  | sleeping =>
      have needs : (∅ : Finset Lock) = {.ptable} := obeys.runs.1
      simp at needs

theorem intr {intr : Intr Unit} (inv : SemInv allowed state) (unlocked : state.ncli cpu = 0)
    (handled : (kernel semaphores ncpu).intr intr cpu (state.cur cpu) = some code) :
    Refined state (.intr cpu intr)
      { state with
        code := Function.update state.code (state.cur cpu) (code ++ state.running cpu) }
      cpu (code ++ state.running cpu) := by
  have before := open_of_unlocked inv unlocked
  refine of_open inv (.of_update rfl rfl) before ?_ rfl (fun _ _ => Iff.rfl) (fun _ => rfl)
  refine .append_foreign ?_ before
  rcases kernel_intr_cases handled with ⟨_, rfl⟩ | rfl | ⟨subIntr, rfl⟩
  · simp [timer, Foreign]
  · simp [yield, Foreign]
  · simp [semaphores, consoleintr, Foreign]

end Refined

section Acts

variable {act : Act SemAct} {rest : SemCode} {choice : ℕ} {outcome : Effect SemState SemAct ncpu}

theorem exec_sub {subAct : SemAct}
    (executed : exec semaphores (.sub subAct) cpu thread choice state.shared = some outcome) :
    ∃ result, semExec subAct thread choice state.shared = some result ∧
      outcome = { shared := result.1, push := result.2 } := by
  simp only [exec, Option.map_eq_some_iff] at executed
  rcases executed with ⟨result, ran, rfl⟩
  exact ⟨result, ran, rfl⟩

theorem SemInv.moved_act (inv : SemInv allowed state)
    (head : state.running cpu = .act act :: rest)
    (executed : exec semaphores act cpu (state.cur cpu) choice state.shared = some outcome) :
    Moved state (state.apply cpu (state.cur cpu) rest outcome) cpu (outcome.push ++ rest) := by
  rcases inv.core.apply_code head executed with ⟨here, elsewhere⟩
  exact ⟨here, elsewhere, fun _ => apply_cur_of_ne⟩

theorem semExec_console {subAct : SemAct} {kern : Kern SemState}
    {result : Kern SemState × SemCode} (executed : semExec subAct thread choice kern = some result)
    (foreign : Foreign (semAct subAct)) :
    result.1.sub.sems = kern.sub.sems ∧ result.1.proc = kern.proc ∧
      ∀ instr ∈ result.2, Foreign instr := by
  cases semExec_cases executed with
  | @keysDone doprocdump =>
      refine ⟨rfl, rfl, ?_⟩
      cases doprocdump <;> simp [Foreign]
  | keysDump | key | readDone | readMore => exact ⟨rfl, rfl, by simp [Foreign]⟩
  | line => exact ⟨rfl, rfl, by simp [wakeup, Foreign]⟩
  | procdump =>
      refine ⟨rfl, rfl, ?_⟩
      intro instr mem
      rcases mem_cprintfs mem with rfl | rfl <;> trivial
  | readSleep => exact ⟨rfl, rfl, by simp [sleep, Foreign]⟩
  | _ => exact absurd foreign id

theorem Refined.foreign (inv : SemInv allowed state)
    (head : state.running cpu = .act act :: rest)
    (executed : exec semaphores act cpu (state.cur cpu) choice state.shared = some outcome)
    (isForeign : Foreign (.act act)) (openRest : Open rest)
    (safe : killsWaiter state (.run cpu choice) = false) :
    Refined state (.run cpu choice) (state.apply cpu (state.cur cpu) rest outcome) cpu
      (outcome.push ++ rest) := by
  have before : Open (state.running cpu) := by
    have foreignHead : ∀ instr ∈ [.act act], Foreign instr := by simpa using isForeign
    rw [head]
    exact openRest.append_foreign foreignHead
  have silent : ∀ sem, semOp state (.run cpu choice) sem = none := by
    intro sem
    simp only [semOp, head]
    cases act with
    | sub subAct => cases subAct <;> first | rfl | exact absurd isForeign id
    | _ => rfl
  have moved := inv.moved_act head executed
  rcases act.sub_or_not with ⟨subAct, rfl⟩ | notSub
  · rcases exec_sub executed with ⟨result, ran, rfl⟩
    rcases semExec_console ran isForeign with ⟨sems, procs, pushed⟩
    refine .of_open inv moved before (openRest.append_foreign pushed) sems ?_ silent
    intro slot sem
    simp [Kern.AsleepOn, State.apply, procs]
  · have stays := staysOut_exec executed notSub
    refine .of_open inv moved before (openRest.append_foreign ?_) ?_ ?_ silent
    · exact fun instr mem => foreign_of_isCore (stays.push instr mem)
    · exact congrArg SemState.sems stays.sub
    · intro slot sem
      refine sleepSame_exec executed notSub (by simp [Chan.IsCore]) ?_ ?_ ?_ ?_ ?_ slot
      · exact fun curproc isCur => inv.core.procs.running cpu curproc isCur
      · exact fun np => inv.core.embryo_of_head head
      · rintro rfl
        exact isForeign sem rfl
      · rintro rfl
        exact isForeign sem rfl
      · rintro pid target rfl found asleep
        simp [killsWaiter, head, found, asleep.1, asleep.2, Chan.isSem] at safe

theorem semExec_print {subAct : SemAct} {kern : Kern SemState}
    {result : Kern SemState × SemCode} (executed : semExec subAct thread choice kern = some result)
    (isPrint : PrintInstr (semAct subAct)) :
    result.1 = kern ∧ ∀ instr ∈ result.2, PrintInstr instr := by
  cases semExec_cases executed with
  | skipRow => exact ⟨rfl, by simp [PrintInstr]⟩
  | printRow =>
      refine ⟨rfl, ?_⟩
      simp only [List.forall_mem_append]
      refine ⟨?_, by simp [PrintInstr]⟩
      intro instr mem
      rcases mem_cprintfs mem with rfl | rfl <;> exact Or.inr rfl
  | printed => exact ⟨rfl, by simp⟩
  | _ => exact absurd isPrint id

theorem Refined.print {before : SemCode} (inv : SemInv allowed state)
    (head : state.running cpu = .act act :: (before ++ blockTail sem))
    (executed : exec semaphores act cpu (state.cur cpu) choice state.shared = some outcome)
    (isPrint : PrintInstr (.act act)) (prints : ∀ instr ∈ before, PrintInstr instr) :
    Refined state (.run cpu choice)
      (state.apply cpu (state.cur cpu) (before ++ blockTail sem) outcome) cpu
      (outcome.push ++ (before ++ blockTail sem)) := by
  have moved := inv.moved_act head executed
  have isSub : ∃ subAct, act = .sub subAct := by
    cases act with
    | sub subAct => exact ⟨subAct, rfl⟩
    | _ => exact absurd isPrint id
  rcases isSub with ⟨subAct, rfl⟩
  rcases exec_sub executed with ⟨result, ran, rfl⟩
  rcases semExec_print ran isPrint with ⟨shared, pushed⟩
  have printsHead : ∀ instr ∈ semAct subAct :: before, PrintInstr instr := by
    simpa using ⟨isPrint, prints⟩
  have printsNext : ∀ instr ∈ result.2 ++ before, PrintInstr instr := by
    simp only [List.forall_mem_append]
    exact ⟨pushed, prints⟩
  rw [← List.append_assoc] at moved ⊢
  refine ⟨moved, .printing printsNext, fun _ _ => rfl, ?_, ?_⟩
  · intro slot other isAsleep
    exact Or.inl (by simpa [State.apply, shared] using isAsleep)
  · intro other
    have silent : semOp state (.run cpu choice) other = none := by
      simp only [semOp, head]
      cases subAct <;> first | rfl | exact absurd isPrint id
    rw [silent]
    refine moved.view_eq inv (by simp [State.apply, shared]) (by simp [State.apply, shared]) ?_ ?_
    · rw [sleeps_blockTail printsNext, head, ← List.cons_append, sleeps_blockTail printsHead]
    · intro stage
      rw [head, ← List.cons_append]
      exact iff_of_false (not_at_of_unmarked (unmarked_blockTail printsNext))
        (not_at_of_unmarked (unmarked_blockTail printsHead))

theorem sleeps_wakeTail {other : SemId} : ¬Sleeps other (wakeTail sem) := by
  simp [Sleeps, wakeTail]

theorem open_wakeTail : Open (wakeTail sem) := .outside (by simp [wakeTail, Foreign])

theorem Refined.sleep (inv : SemInv allowed state)
    (head : state.running cpu = .act (.sleepSched (.sem sem)) :: wakeTail sem)
    (executed : exec semaphores (.sleepSched (.sem sem)) cpu (state.cur cpu) choice state.shared =
      some outcome) :
    Refined state (.run cpu choice) (state.apply cpu (state.cur cpu) (wakeTail sem) outcome) cpu
      (outcome.push ++ wakeTail sem) := by
  have moved := inv.moved_act head executed
  have runs : ∃ curproc, state.cur cpu = .proc curproc ∧ outcome =
      { shared := state.shared.sleepOn curproc (.sem sem), switch := some (.scheduler cpu) } := by
    cases thread : state.cur cpu with
    | scheduler own => simp [exec, execAny, thread] at executed
    | proc curproc =>
        simp only [exec, execProc, execAny, thread, Option.or_none, Option.some.injEq] at executed
        exact ⟨curproc, rfl, executed.symm⟩
  rcases runs with ⟨curproc, isCur, rfl⟩
  have awake := inv.core.procs.running cpu curproc isCur
  refine ⟨moved, .idle open_wakeTail, fun _ sleeps => absurd sleeps sleeps_wakeTail, ?_, ?_⟩
  · intro slot other isAsleep
    by_cases same : slot = curproc
    · subst slot
      have isSem := Kern.asleepOn_sleepOn_self.mp isAsleep
      cases isSem
      exact Or.inr ⟨isCur, rfl⟩
    · exact Or.inl ((Kern.asleepOn_sleepOn_of_ne same).mp isAsleep)
  · intro other
    have silent : semOp state (.run cpu choice) other = none := by
      simp [semOp, head, opOf]
    rw [silent]
    refine Xv6.view_eq ?_ ?_ ?_
    · rfl
    · intro slot
      by_cases same : slot = curproc
      · subst slot
        have before : Waits state other curproc ↔ sem = other := by
          simp only [Waits, ← isCur]
          rw [← State.running, head]
          simp [Sleeps, wakeTail, Kern.AsleepOn, awake, eq_comm]
        have after : ¬Sleeps other (wakeTail sem) := sleeps_wakeTail
        rw [before, Waits, ← isCur, moved.here]
        simp only [List.nil_append, after, false_or]
        exact Kern.asleepOn_sleepOn_self.trans (by simp)
      · apply or_congr _ (Kern.asleepOn_sleepOn_of_ne same)
        refine moved.sleeps_elsewhere inv ?_
        simpa [isCur] using same
    · intro thread stage
      by_cases same : thread = state.cur cpu
      · rw [same, moved.here, ← State.running, head]
        apply iff_of_false
        · exact not_at_of_unmarked open_wakeTail.unmarked
        · intro isAt
          cases isAt
      · exact moved.at_elsewhere inv.core same

end Acts

section Stages

variable {id : SemId} {op : SemOp} {rest : SemCode} {choice i j : ℕ} {act : SemAct}
  {stage stageNext : Stage} {semNext : Sem} {result : Kern SemState × SemCode}

/-- The state after an act of a semaphore function. -/
abbrev after (state : SemMachine ncpu) (cpu : Fin ncpu) (rest : SemCode)
    (result : Kern SemState × SemCode) : SemMachine ncpu :=
  state.apply cpu (state.cur cpu) rest { shared := result.1, push := result.2 }

/-- What is to be shown of an act of a semaphore function. -/
abbrev RefinedAfter (state : SemMachine ncpu) (cpu : Fin ncpu) (choice : ℕ) (rest : SemCode)
    (result : Kern SemState × SemCode) : Prop :=
  Refined state (.run cpu choice) (after state cpu rest result) cpu (result.2 ++ rest)

/-- An act writes to one semaphore, and puts nobody to sleep and wakes nobody. -/
structure Writes (id : SemId) (kern after : Kern SemState) (semNext : Sem) : Prop where
  asleep : ∀ slot sem, after.AsleepOn slot (.sem sem) ↔ kern.AsleepOn slot (.sem sem)
  sems : ∀ sem, sem ≠ id → after.sem sem = kern.sem sem
  semIs : after.sem id = semNext

theorem owner_of_running (core : CoreInv semLocking allowed state)
    (gives : Gives (.sem id) (state.running cpu)) : state.owner (.sem id) = some cpu := by
  rcases core.owner_of_gives gives (by simp) with ⟨other, isCur, owned⟩
  have same := core.tracked.cur_injective isCur
  rw [owned, same]

theorem running_after : (after state cpu rest result).running cpu = result.2 ++ rest := by
  simp [State.running, State.apply]

@[simp]
theorem Kern.setSem_sem_self {kern : Kern SemState} {updated : Sem} :
    (kern.setSem id updated).sem id = updated := by
  simp [Kern.setSem, Kern.sem]

theorem Kern.setSem_sem_of_ne {kern : Kern SemState} {updated : Sem} (different : sem ≠ id) :
    (kern.setSem id updated).sem sem = kern.sem sem := by
  simp [Kern.setSem, Kern.sem, different]

theorem Writes.refl (kern : Kern SemState) : Writes id kern kern (kern.sem id) :=
  ⟨fun _ _ => Iff.rfl, fun _ _ => rfl, rfl⟩

theorem Writes.setSem (kern : Kern SemState) : Writes id kern (kern.setSem id semNext) semNext :=
  ⟨fun _ _ => Iff.rfl, fun _ different => Kern.setSem_sem_of_ne different, Kern.setSem_sem_self⟩

theorem moved_after : Moved state (after state cpu rest result) cpu (result.2 ++ rest) :=
  .of_update rfl rfl

theorem open_body {body : SemAct} (isBody : body = .acquireBody id ∨ body = .releaseBody id) :
    Open [semAct body, .release (.sem id)] := by
  have nothing : ∀ instr ∈ ([] : SemCode), Foreign instr := by simp
  exact .entered nothing isBody

theorem open_release : Open [.release (.sem id)] := .outside (by simp [Foreign])

theorem not_sleeps_release : ¬Sleeps sem [.release (.sem id)] := open_release.not_sleeps

theorem SemInv.stage_of_at (inv : SemInv allowed state) (isAt : At id (state.running cpu) stage) :
    state.owner (.sem id) = some cpu ∧ (view state id).stage = stage :=
  ⟨owner_of_running inv.core isAt.gives, inv.core.view_stage isAt⟩

/-- A semaphore function has run an act, and `rest` follows. -/
structure Ran (allowed : Lock → Lock → Prop) (state : SemMachine ncpu) (cpu : Fin ncpu) (choice : ℕ)
    (thread : Thread ncpu) (act : SemAct) (rest : SemCode) (result : Kern SemState × SemCode) :
    Prop where
  inv : SemInv allowed state
  head : state.running cpu = semAct act :: rest
  isCur : state.cur cpu = thread
  exec : semExec act thread choice state.shared = some result
  core : CoreInv semLocking allowed (after state cpu rest result)

namespace Ran

variable (ran : Ran allowed state cpu choice thread act rest result)

include ran

theorem stage_after (isNext : At id (result.2 ++ rest) stage) :
    (view (after state cpu rest result) id).stage = stage := by
  have here := (moved_after : Moved state (after state cpu rest result) cpu _).here
  rw [← here] at isNext
  exact ran.core.view_stage isNext

theorem free_after (owned : state.owner (.sem id) = some cpu)
    (unmarked : ∀ instr ∈ result.2 ++ rest, ¬StageMark instr) :
    (view (after state cpu rest result) id).stage = .free := by
  refine ran.core.view_free (show _ = some cpu from owned) ?_
  intro stage
  rw [running_after]
  exact not_at_of_unmarked unmarked

theorem free_of_body (isBody : act = .acquireBody id ∨ act = .releaseBody id)
    (isRest : rest = [.release (.sem id)]) :
    state.owner (.sem id) = some cpu ∧ (view state id).stage = .free := by
  have head := ran.head
  rw [isRest] at head
  have owned : state.owner (.sem id) = some cpu := by
    apply owner_of_running ran.inv.core
    rw [head]
    exact ⟨[semAct act], [], rfl, by simp⟩
  refine ⟨owned, ran.inv.core.view_free owned ?_⟩
  intro stage
  rw [head]
  exact not_at_of_unmarked (open_body isBody).unmarked

theorem stage_of_at (isAt : At id (semAct act :: rest) stage) :
    state.owner (.sem id) = some cpu ∧ (view state id).stage = stage :=
  ran.inv.stage_of_at (ran.head ▸ isAt)

section

variable (placed : Placed (result.2 ++ rest)) (before : Only id (semAct act :: rest))
  (onlyAfter : Only id (result.2 ++ rest))

include placed before onlyAfter

theorem refined
    (asleep : ∀ slot sem, result.1.AsleepOn slot (.sem sem) → state.shared.AsleepOn slot (.sem sem))
    (asleepOther : ∀ slot sem, sem ≠ id → state.shared.AsleepOn slot (.sem sem) →
      result.1.AsleepOn slot (.sem sem))
    (sems : ∀ sem, sem ≠ id → result.1.sem sem = state.shared.sem sem)
    (ops : ∀ sem, opOf sem thread (semAct act :: rest) = if id = sem then some op else none)
    (stepped : SemView.Step state.shared.priority (view state id) op
      (view (after state cpu rest result) id)) :
    RefinedAfter state cpu choice rest result where
  moved := moved_after
  placed := placed
  stays := fun _ _ => rfl
  asleep := fun slot sem isAsleep => Or.inl (asleep slot sem isAsleep)
  does := by
    intro sem
    rw [semOp, ran.isCur, ran.head, ops]
    by_cases same : sem = id
    · rw [same, if_pos rfl]
      exact stepped
    · rw [if_neg (Ne.symm same)]
      refine moved_after.view_eq ran.inv (sems sem same) ?_ ?_ ?_
      · exact fun slot => ⟨asleep slot sem, asleepOther slot sem same⟩
      · rw [ran.head]
        exact iff_of_false (onlyAfter sem same).1 (before sem same).1
      · rw [ran.head]
        exact fun stage => iff_of_false ((onlyAfter sem same).2 stage) ((before sem same).2 stage)

theorem quiet
    (ops : ∀ sem, opOf sem thread (semAct act :: rest) = if id = sem then some op else none)
    (writes : Writes id state.shared result.1 semNext)
    (sleeps : Sleeps id (result.2 ++ rest) ↔ Sleeps id (semAct act :: rest))
    (stageIs : (view (after state cpu rest result) id).stage = stageNext)
    (stepped : SemView.Step state.shared.priority (view state id) op
      { view state id with sem := semNext, stage := stageNext }) :
    RefinedAfter state cpu choice rest result := by
  apply ran.refined placed before onlyAfter (fun slot sem => (writes.asleep slot sem).mp)
    (fun slot sem _ => (writes.asleep slot sem).mpr) writes.sems ops
  have isView : view (after state cpu rest result) id =
      { view state id with sem := semNext, stage := stageNext } := by
    apply SemView.ext
    · exact writes.semIs
    · ext slot
      rw [← ran.head] at sleeps
      exact moved_after.waits_iff ran.inv (writes.asleep slot id) sleeps
    · exact stageIs
  rw [isView]
  exact stepped

end

theorem busy (isAt : At id (semAct act :: rest) stage) (isNext : At id (result.2 ++ rest) stageNext)
    (ops : ∀ sem, opOf sem thread (semAct act :: rest) = if id = sem then some op else none)
    (writes : Writes id state.shared result.1 semNext) (blocks : stageNext.Blocks ↔ stage.Blocks)
    (stepped : SemView.Step state.shared.priority (view state id) op
      { view state id with sem := semNext, stage := stageNext }) :
    RefinedAfter state cpu choice rest result := by
  have sleeps := (isNext.sleeps_iff.trans blocks).trans isAt.sleeps_iff.symm
  exact ran.quiet (.busy isNext) isAt.only isNext.only ops writes sleeps (ran.stage_after isNext)
    stepped

end Ran

theorem Refined.acquireBody
    (ran : Ran allowed state cpu choice thread (.acquireBody id) [.release (.sem id)] result) :
    RefinedAfter state cpu choice [.release (.sem id)] result := by
  rcases ran.free_of_body (Or.inl rfl) rfl with ⟨owned, free⟩
  have before : Open [semAct (.acquireBody id), .release (.sem id)] := open_body (Or.inl rfl)
  cases semExec_cases ran.exec with
  | @pass _ curproc positive =>
      apply ran.quiet (.idle open_release) before.only open_release.only (fun _ => rfl) (.setSem _)
        (iff_of_false not_sleeps_release before.not_sleeps) (ran.free_after owned open_release.unmarked)
      rw [← free]
      exact .pass free positive
  | @block _ curproc negative =>
      have isAt : At id (blockCode id (state.shared.sem id).wfirst ++ [.release (.sem id)])
          (.sorting (state.shared.sem id).wfirst) := by
        rw [blockCode_append]
        exact .sorting
      apply ran.refined (.busy isAt) before.only isAt.only (fun _ _ asleep => asleep)
        (fun _ _ _ asleep => asleep) (fun _ different => Kern.setSem_sem_of_ne different)
        (fun _ => rfl)
      have fresh : ¬Waits state id curproc := by
        rintro (sleepsBefore | asleep)
        · rw [← ran.isCur, ← State.running, ran.head] at sleepsBefore
          exact before.not_sleeps sleepsBefore
        · simp [Kern.AsleepOn, ran.inv.core.procs.running cpu curproc ran.isCur] at asleep
      have viewNext : view (after state cpu [.release (.sem id)]
          (state.shared.setSem id (Sem.enqueue { state.shared.sem id with
            value := (state.shared.sem id).value - 1 } curproc),
            blockCode id (state.shared.sem id).wfirst)) id =
          { sem := Sem.enqueue { state.shared.sem id with
              value := (state.shared.sem id).value - 1 } curproc
            waits := insert curproc (view state id).waits
            stage := .sorting (state.shared.sem id).wfirst } := by
        apply SemView.ext
        · exact Kern.setSem_sem_self
        · ext slot
          by_cases same : slot = curproc
          · subst slot
            refine iff_of_true (Or.inl ?_) (Set.mem_insert _ _)
            rw [← ran.isCur, moved_after.here]
            exact isAt.sleeps_iff.mpr trivial
          · have different : Thread.proc slot ≠ state.cur cpu := by simpa [ran.isCur] using same
            rw [Set.mem_insert_iff, or_iff_right same]
            exact or_congr (moved_after.sleeps_elsewhere ran.inv different) Iff.rfl
        · exact ran.stage_after isAt
      rw [viewNext]
      exact .block free negative fresh

theorem Refined.releaseBody
    (ran : Ran allowed state cpu choice thread (.releaseBody id) [.release (.sem id)] result) :
    RefinedAfter state cpu choice [.release (.sem id)] result := by
  rcases ran.free_of_body (Or.inr rfl) rfl with ⟨owned, free⟩
  have before : Open [semAct (.releaseBody id), .release (.sem id)] := open_body (Or.inr rfl)
  cases semExec_cases ran.exec with
  | count positive =>
      apply ran.quiet (.idle open_release) before.only open_release.only (fun _ => rfl) (.setSem _)
        (iff_of_false not_sleeps_release before.not_sleeps) (ran.free_after owned open_release.unmarked)
      rw [← free]
      exact .count free positive
  | grant waiters =>
      have isAt : At id ([.acquire .ptable,
          semAct (.wakeupproc ((state.shared.sem id).waiting (state.shared.sem id).wfirst)),
          .release .ptable, semAct (.dequeue id)] ++ [.release (.sem id)])
          (.called ((state.shared.sem id).waiting (state.shared.sem id).wfirst)) := .calling
      exact ran.quiet (.busy isAt) before.only isAt.only (fun _ => rfl) (.setSem _)
        (iff_of_false (by simp [Sleeps]) before.not_sleeps) (ran.stage_after isAt) (.grant free waiters)

theorem Refined.sortOuter
    (ran : Ran allowed state cpu choice thread (.sortOuter id i) (afterSort id) result) :
    RefinedAfter state cpu choice (afterSort id) result := by
  have isAt : At id (semAct (.sortOuter id i) :: afterSort id) (.sorting i) := .sorting
  have stage := (ran.stage_of_at isAt).2
  cases semExec_cases ran.exec with
  | sortRow more =>
      exact ran.busy isAt .comparing (fun _ => rfl) (.refl _) Iff.rfl (.row stage more)
  | sorted done => exact ran.busy isAt .placing (fun _ => rfl) (.refl _) Iff.rfl (.sorted stage done)

theorem Refined.sortInner
    (ran : Ran allowed state cpu choice thread (.sortInner id i j)
      (semAct (.sortOuter id (i + 1)) :: afterSort id) result) :
    RefinedAfter state cpu choice (semAct (.sortOuter id (i + 1)) :: afterSort id) result := by
  have isAt : At id (semAct (.sortInner id i j) :: semAct (.sortOuter id (i + 1)) :: afterSort id)
      (.comparing i j) := .comparing
  have stage := (ran.stage_of_at isAt).2
  cases semExec_cases ran.exec with
  | compare inside leftIs rightIs =>
      exact ran.busy isAt .comparing (fun _ => rfl) (.setSem _) Iff.rfl
        (.compare stage inside leftIs rightIs)
  | rowDone done => exact ran.busy isAt .sorting (fun _ => rfl) (.refl _) Iff.rfl (.rowDone stage done)

theorem Refined.placeLoop
    (ran : Ran allowed state cpu choice thread (.placeLoop id i) (afterPlace id) result) :
    RefinedAfter state cpu choice (afterPlace id) result := by
  have isAt : At id (semAct (.placeLoop id i) :: afterPlace id) (.placing i) := .placing
  rcases ran.stage_of_at isAt with ⟨owned, stage⟩
  cases semExec_cases ran.exec with
  | placeNext more =>
      exact ran.busy isAt .storing (fun _ => rfl) (.refl _) Iff.rfl (.placeNext stage more)
  | placed done =>
      rcases afterPlace_eq id with ⟨before, isAfter, prints⟩
      have unmarked : ∀ instr ∈ [] ++ afterPlace id, ¬StageMark instr := by
        rw [List.nil_append, isAfter]
        exact unmarked_blockTail prints
      have placedNext : Placed (afterPlace id) := by
        rw [isAfter]
        exact .printing prints
      have onlyNext : Only id (afterPlace id) := by
        rw [isAfter]
        exact only_blockTail prints
      exact ran.quiet placedNext isAt.only onlyNext (fun _ => rfl) (.refl _)
        (iff_of_true (sleeps_afterPlace.mpr rfl) (isAt.sleeps_iff.mpr trivial))
        (ran.free_after owned unmarked) (.placed stage done)

theorem Refined.placeStore
    (ran : Ran allowed state cpu choice thread (.placeStore id i)
      (.release .ptable :: semAct (.placeLoop id (i + 1)) :: afterPlace id) result) :
    RefinedAfter state cpu choice
      (.release .ptable :: semAct (.placeLoop id (i + 1)) :: afterPlace id) result := by
  have isAt : At id (semAct (.placeStore id i) :: .release .ptable :: semAct (.placeLoop id (i + 1)) ::
      afterPlace id) (.storing i) := .locked
  -- the store changes a place, which no test of the kernel reads
  have effect : result.2 = [] ∧ result.1.sub = state.shared.sub ∧
      ∀ slot sem, result.1.AsleepOn slot (.sem sem) ↔ state.shared.AsleepOn slot (.sem sem) := by
    cases semExec_cases ran.exec with
    | placeNull null => exact ⟨rfl, rfl, fun _ _ => Iff.rfl⟩
    | @placeStore _ _ target _ entry =>
        refine ⟨rfl, rfl, ?_⟩
        intro slot sem
        by_cases same : slot = target <;> simp [Kern.AsleepOn, Kern.modify, same]
  rcases effect with ⟨pushed, subIs, asleep⟩
  have semIs : ∀ sem, result.1.sem sem = state.shared.sem sem := by
    intro sem
    simp [Kern.sem, subIs]
  have isNext : At id (result.2 ++ .release .ptable :: semAct (.placeLoop id (i + 1)) ::
      afterPlace id) (.placing (i + 1)) := by
    rw [pushed]
    exact .stored
  exact ran.busy isAt isNext (fun _ => rfl) ⟨asleep, fun sem _ => semIs sem, semIs id⟩ Iff.rfl
    (.store (ran.stage_of_at isAt).2)

theorem Refined.wakeupproc {target : Option Slot}
    (ran : Ran allowed state cpu choice thread (.wakeupproc target) (.release .ptable :: afterWake id)
      result) :
    RefinedAfter state cpu choice (.release .ptable :: afterWake id) result := by
  have isAt : At id (semAct (.wakeupproc target) :: .release .ptable :: afterWake id) (.called target) :=
    .called
  have stage := (ran.stage_of_at isAt).2
  have isNext : At id ([] ++ .release .ptable :: afterWake id) .granted := .woken
  cases semExec_cases ran.exec with
  | wakeNull =>
      apply ran.busy isAt isNext (fun _ => rfl) (.refl _) Iff.rfl
      have nobody : { slot ∈ (view state id).waits | (none : Option Slot) ≠ some slot } =
          (view state id).waits := by
        simp
      have stepped : SemView.Step state.shared.priority (view state id) (.wake none)
          { view state id with
            waits := { slot ∈ (view state id).waits | (none : Option Slot) ≠ some slot }
            stage := .granted } := .wake stage
      rw [nobody] at stepped
      exact stepped
  | @wake slot =>
      have asleep := ran.inv.asleep_of_wake ran.head
      have notHere : Thread.proc slot ≠ state.cur cpu := by
        intro isCur
        have sleeping := asleep.1
        simp [ran.inv.core.procs.running cpu slot isCur.symm] at sleeping
      have awake : ∀ {sem}, ¬(state.shared.setState slot .runnable).AsleepOn slot (.sem sem) := by
        simp [Kern.AsleepOn]
      have others : ∀ {other sem}, other ≠ slot →
          ((state.shared.setState slot .runnable).AsleepOn other (.sem sem) ↔
            state.shared.AsleepOn other (.sem sem)) := by
        intro other sem different
        simp [Kern.AsleepOn, Kern.setState_proc_of_ne different]
      apply ran.refined (.busy isNext) isAt.only isNext.only _ _ (fun _ _ => rfl) (fun _ => rfl)
      · have viewNext : view (after state cpu (.release .ptable :: afterWake id)
            (state.shared.setState slot .runnable, [])) id =
            { view state id with
              waits := { other ∈ (view state id).waits | some slot ≠ some other }
              stage := .granted } := by
          apply SemView.ext
          · rfl
          · ext other
            by_cases same : other = slot
            · subst other
              -- the target is asleep, so it is no thread on its way to sleep
              refine iff_of_false ?_ (fun mem => mem.2 rfl)
              rintro (sleeps | isAsleep)
              · rw [moved_after.sleeps_elsewhere ran.inv notHere, ran.inv.asleep slot id asleep] at sleeps
                exact sleeps_wakeTail sleeps
              · exact awake isAsleep
            · have kept : some slot ≠ some other := by simpa using Ne.symm same
              have moves : Waits (after state cpu (.release .ptable :: afterWake id)
                  (state.shared.setState slot .runnable, [])) id other ↔ Waits state id other := by
                refine moved_after.waits_iff ran.inv (others same) ?_
                rw [ran.head]
                exact isNext.sleeps_iff.trans isAt.sleeps_iff.symm
              exact moves.trans (and_iff_left kept).symm
          · exact ran.stage_after isNext
        rw [viewNext]
        exact .wake stage
      · intro other sem isAsleep
        by_cases same : other = slot
        · rw [same] at isAsleep
          exact absurd isAsleep awake
        · exact (others same).mp isAsleep
      · intro other sem different isAsleep
        have notTarget : other ≠ slot := by
          rintro rfl
          have chans := asleep.2.symm.trans isAsleep.2
          simp only [Option.some.injEq, Chan.sem.injEq] at chans
          exact different chans.symm
        exact (others notTarget).mpr isAsleep

theorem Refined.dequeue
    (ran : Ran allowed state cpu choice thread (.dequeue id) [.release (.sem id)] result) :
    RefinedAfter state cpu choice [.release (.sem id)] result := by
  have isAt : At id (semAct (.dequeue id) :: [.release (.sem id)]) .granted := .granted
  rcases ran.stage_of_at isAt with ⟨owned, stage⟩
  cases semExec_cases ran.exec with
  | dequeue =>
      exact ran.quiet (.idle open_release) isAt.only open_release.only (fun _ => rfl) (.setSem _)
        (iff_of_false not_sleeps_release (by simp [Sleeps])) (ran.free_after owned open_release.unmarked)
        (.dequeue stage)

end Stages

section Step

section

variable (inv : SemInv allowed state) (stepped : semStep state label = some next)
  (safe : killsWaiter state label = false)

include inv stepped safe

theorem SemInv.refined (core : CoreInv semLocking allowed next) :
    ∃ cpu code, Refined state label next cpu code := by
  cases Program.step_cases stepped with
  | @acquire cpu _ _ rest head | @release cpu _ _ rest head =>
      exact ⟨cpu, rest, .lock inv head (by simp) rfl rfl rfl⟩
  | @call cpu entry code idle entered => exact ⟨cpu, code, .call inv idle entered⟩
  | @intr cpu intr code unlocked unmasked handled =>
      exact ⟨cpu, _, .intr inv unlocked handled⟩
  | @act cpu choice act rest outcome head executed =>
      refine ⟨cpu, outcome.push ++ rest, ?_⟩
      have executed : exec semaphores act cpu (state.cur cpu) choice state.shared = some outcome :=
        executed
      have sub : ∀ subAct, act = .sub subAct →
          (∀ {result}, Ran allowed state cpu choice (state.cur cpu) subAct rest result →
            RefinedAfter state cpu choice rest result) →
          Refined state (.run cpu choice) (state.apply cpu (state.cur cpu) rest outcome) cpu
            (outcome.push ++ rest) := by
        rintro subAct rfl refined
        rcases exec_sub executed with ⟨result, ran, rfl⟩
        exact refined ⟨inv, head, rfl, ran, core⟩
      cases inv.actPlace head with
      | foreign isForeign openRest => exact .foreign inv head executed isForeign openRest safe
      | print isPrint prints => exact .print inv head executed isPrint prints
      | sleep => exact .sleep inv head executed
      | acquireBody => exact sub _ rfl Refined.acquireBody
      | releaseBody => exact sub _ rfl Refined.releaseBody
      | sortOuter => exact sub _ rfl Refined.sortOuter
      | sortInner => exact sub _ rfl Refined.sortInner
      | placeLoop => exact sub _ rfl Refined.placeLoop
      | placeStore => exact sub _ rfl Refined.placeStore
      | wakeupproc => exact sub _ rfl Refined.wakeupproc
      | dequeue => exact sub _ rfl Refined.dequeue

/-- One step of the kernel keeps the invariant and is one operation, or none, on the view of
each semaphore. -/
theorem SemInv.step (nests : NestsAllowed semaphores semLocking allowed state label) :
    SemInv allowed next ∧ ∀ sem, (view state sem).Does state.shared.priority
      (semOp state label sem) (view next sem) := by
  have core : CoreInv semLocking allowed next :=
    inv.core.step semLaws stepped (fun cpu choice _ => inv.wakesSleepers choice) nests
  rcases inv.refined stepped safe core with ⟨cpu, code, refined⟩
  refine ⟨?_, refined.does⟩
  refine refined.moved.semInv inv core refined.placed refined.stays refined.asleep ?_
  exact fun sem => (inv.sound sem).does (refined.does sem)

end

section Boot

variable {freePages : List ℕ} {values : SemId → ℤ}

theorem open_boot (thread : Thread ncpu) : Open ((semBoot ncpu freePages values).code thread) := by
  apply Open.outside
  cases thread with
  | scheduler own => simp [semBoot, boot, scheduler, Foreign]
  | proc slot => by_cases isInit : slot = 0 <;> simp [semBoot, boot, isInit, forkret, Foreign]

theorem not_asleep_boot {chan : Chan} :
    ¬(semBoot ncpu freePages values).shared.AsleepOn slot chan := by
  by_cases isInit : slot = 0 <;>
    simp [Kern.AsleepOn, semBoot, boot, bootProc, isInit, Proc.empty]

theorem view_boot (sem : SemId) : view (semBoot ncpu freePages values) sem =
    { sem := .init (values sem), waits := ∅, stage := .free } := by
  apply SemView.ext
  · rfl
  · ext slot
    refine iff_of_false ?_ (Set.notMem_empty slot)
    rintro (sleeps | asleep)
    · exact (open_boot _).not_sleeps sleeps
    · exact not_asleep_boot asleep
  · refine dif_neg ?_
    rintro ⟨stage, thread, isAt⟩
    exact not_at_of_unmarked (open_boot thread).unmarked isAt

theorem semInv_boot : SemInv allowed (semBoot ncpu freePages values) where
  core := coreInv_boot
  placed := fun thread => .idle (open_boot thread)
  onCpu := fun thread _ sleeps => absurd sleeps (open_boot thread).not_sleeps
  asleep := fun _ _ asleep => absurd asleep not_asleep_boot
  sound := by
    intro sem
    rw [view_boot]
    exact SemView.sound_init _

variable {trace : Trace (SemMachine ncpu) (SemLabel ncpu)}

theorem semInv_of_run (run : Run semStep (semBoot ncpu freePages values) trace state)
    (safe : trace.All fun before label => killsWaiter before label = false) :
    SemInv (fun _ _ => True) state := by
  refine Run.stateInvariant (SemInv fun _ _ => True) semInv_boot ?_ run safe
  intro before label after inv safeStep stepped
  exact (inv.step stepped safeStep nestsAllowed_of_all).1

/-- Induction over the operations on the view of a semaphore, along a run in which no waiter
is killed. -/
theorem view_invariant (sem : SemId) {good : SemMachine ncpu → SemLabel ncpu → Prop}
    (Inv : Trace (SemMachine ncpu) (SemLabel ncpu) → SemMachine ncpu → Prop)
    (initially : Inv [] (semBoot ncpu freePages values))
    (preserved : ∀ {trace before label after}, Inv trace before → (view before sem).Sound →
      good before label → semStep before label = some after →
      (view before sem).Does before.shared.priority (semOp before label sem) (view after sem) →
      Inv ((before, label) :: trace) after)
    (run : Run semStep (semBoot ncpu freePages values) trace state)
    (safe : trace.All fun before label => killsWaiter before label = false)
    (all : trace.All good) : Inv trace state := by
  have both : SemInv (fun _ _ => True) state ∧ Inv trace state := by
    refine Run.invariant (fun trace state => SemInv (fun _ _ => True) state ∧ Inv trace state)
      ⟨semInv_boot, initially⟩ ?_ run (safe.and all)
    rintro trace before label after ⟨inv, holds⟩ _ ⟨safeStep, goodStep⟩ stepped
    rcases inv.step stepped safeStep nestsAllowed_of_all with ⟨invNext, does⟩
    exact ⟨invNext, preserved holds (inv.sound sem) goodStep stepped (does sem)⟩
  exact both.2

theorem exact_of_run (positive : 0 ≤ values sem)
    (run : Run semStep (semBoot ncpu freePages values) trace state)
    (safe : trace.All fun before label => killsWaiter before label = false) :
    ∃ queue, (view state sem).Exact queue := by
  refine view_invariant sem (fun _ state => ∃ queue, (view state sem).Exact queue) ⟨[], ?_⟩ ?_ run
    safe (Trace.all_true trace)
  · rw [view_boot]
    exact SemView.exact_init positive
  · rintro trace before label after ⟨queue, exact⟩ sound _ _ does
    exact exact.does sound does

end Boot

end Step

/-- Init forks, and the child waits for a semaphore of value 0. -/
def childWaits : List (SemLabel 1) :=
  [dispatch 0 0, go 0 1, call 0 .fork 15, preempt 0,
    dispatch 0 1, go 0 1, call 0 (.sub (.semAcquire 0)) 51,
    dispatch 0 0, go 0 2].flatten

end Xv6
