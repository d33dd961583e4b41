import Xv6.Lib.Threads

/-!
# A locking discipline for thread code

A discipline says, for each act, with which locks held it may run and which locks are
held after the code it puts in front has run. Code that obeys the discipline never takes
a lock twice and never releases a lock it does not hold. The main result is that every
step keeps the correspondence between the locks a processor owns and the code it still
has to run, so that mutual exclusion can be read off the code.

The same analysis records which lock is acquired while which other lock is held. A pair
of locks that no code ever nests one way round cannot be part of a deadlock.
-/

namespace Threads

open Function

variable {Cpu Thread Lock Act Shared Entry Intr : Type} [DecidableEq Lock]

/-- The discipline: what an act requires of the held locks, what it leaves held, and the
locks a processor holds during a context switch. -/
structure Discipline (Lock Act : Type) where
  needs : Act → Finset Lock → Prop
  leaves : Act → Finset Lock → Finset Lock
  handoff : Finset Lock
  leaves_subset : ∀ act held, leaves act held ⊆ held

namespace Discipline

variable (discipline : Discipline Lock Act)

/-- Started with exactly `held`, the code obeys the discipline and ends with exactly `final`. -/
def Runs : Finset Lock → Code Lock Act → Finset Lock → Prop
  | held, [], final => held = final
  | held, .acquire lock :: rest, final => lock ∉ held ∧ Runs (insert lock held) rest final
  | held, .release lock :: rest, final => lock ∈ held ∧ Runs (held.erase lock) rest final
  | held, .act act :: rest, final =>
      discipline.needs act held ∧ Runs (discipline.leaves act held) rest final

/-- Started with `held`, the code acquires `inner` at a point where it holds `outer`. -/
def Nests (outer inner : Lock) : Finset Lock → Code Lock Act → Prop
  | _, [] => False
  | held, .acquire lock :: rest =>
      (outer ∈ held ∧ lock = inner) ∨ Nests outer inner (insert lock held) rest
  | held, .release lock :: rest => Nests outer inner (held.erase lock) rest
  | held, .act act :: rest => Nests outer inner (discipline.leaves act held) rest

variable {discipline}

theorem Runs.append {held middle final : Finset Lock} {first second : Code Lock Act}
    (firstRuns : discipline.Runs held first middle)
    (secondRuns : discipline.Runs middle second final) :
    discipline.Runs held (first ++ second) final := by
  induction first generalizing held with
  | nil =>
      simp only [Runs] at firstRuns
      subst held
      exact secondRuns
  | cons instr rest ih =>
      cases instr with
      | acquire | release | act => exact ⟨firstRuns.1, ih firstRuns.2⟩

theorem nests_append {outer inner : Lock} {held middle : Finset Lock}
    {first second : Code Lock Act} (firstRuns : discipline.Runs held first middle) :
    discipline.Nests outer inner held (first ++ second) ↔
      discipline.Nests outer inner held first ∨ discipline.Nests outer inner middle second := by
  induction first generalizing held with
  | nil =>
      simp only [Runs] at firstRuns
      subst held
      simp [Nests]
  | cons instr rest ih =>
      cases instr with
      | acquire lock => simp [Nests, ih firstRuns.2, or_assoc]
      | release | act => simp [Nests, ih firstRuns.2]

theorem Runs.mem_of_release {held final : Finset Lock} {before rest : Code Lock Act} {lock : Lock}
    (runs : discipline.Runs held (before ++ .release lock :: rest) final)
    (unacquired : .acquire lock ∉ before) : lock ∈ held := by
  induction before generalizing held with
  | nil => exact runs.1
  | cons instr before ih =>
      have unacquiredRest : .acquire lock ∉ before := fun mem => unacquired (.tail _ mem)
      cases instr with
      | acquire other =>
          have different : lock ≠ other := by
            rintro rfl
            exact unacquired List.mem_cons_self
          have inserted := ih runs.2 unacquiredRest
          simpa [different] using inserted
      | release other =>
          have erased := ih runs.2 unacquiredRest
          exact Finset.mem_of_mem_erase erased
      | act act => exact discipline.leaves_subset act held (ih runs.2 unacquiredRest)

end Discipline

/-- The discipline and the allowed nestings hold of code started with `held`. -/
structure Obeys (discipline : Discipline Lock Act) (allowed : Lock → Lock → Prop)
    (held : Finset Lock) (code : Code Lock Act) (final : Finset Lock) : Prop where
  runs : discipline.Runs held code final
  nested : ∀ outer inner, discipline.Nests outer inner held code → allowed outer inner

namespace Obeys

variable {discipline : Discipline Lock Act} {allowed : Lock → Lock → Prop}
  {held middle final : Finset Lock} {lock : Lock} {act : Act} {first rest : Code Lock Act}

theorem append (firstObeys : Obeys discipline allowed held first middle)
    (restObeys : Obeys discipline allowed middle rest final) :
    Obeys discipline allowed held (first ++ rest) final where
  runs := firstObeys.runs.append restObeys.runs
  nested := by
    intro outer inner nests
    rcases (Discipline.nests_append firstObeys.runs).mp nests with inFirst | inRest
    · exact firstObeys.nested outer inner inFirst
    · exact restObeys.nested outer inner inRest

theorem after_acquire (obeys : Obeys discipline allowed held (.acquire lock :: rest) final) :
    Obeys discipline allowed (insert lock held) rest final where
  runs := obeys.runs.2
  nested := fun outer inner nests => obeys.nested outer inner (Or.inr nests)

theorem after_release (obeys : Obeys discipline allowed held (.release lock :: rest) final) :
    Obeys discipline allowed (held.erase lock) rest final where
  runs := obeys.runs.2
  nested := fun outer inner nests => obeys.nested outer inner nests

theorem after_act (obeys : Obeys discipline allowed held (.act act :: rest) final) :
    Obeys discipline allowed (discipline.leaves act held) rest final where
  runs := obeys.runs.2
  nested := fun outer inner nests => obeys.nested outer inner nests

end Obeys

/-- `held` is the set of locks that `cpu` owns. -/
structure Holds (state : State Cpu Thread Lock Act Shared) (cpu : Cpu)
    (held : Finset Lock) : Prop where
  mem : ∀ lock, lock ∈ held ↔ state.owner lock = some cpu
  card : held.card = state.ncli cpu

def AllBut (first second outer inner : Lock) : Prop := ¬(outer = first ∧ inner = second)

/-- Every processor owns exactly the locks that its code expects, no thread is on two
processors, and a thread on no processor expects the locks of a context switch. -/
structure Tracked (discipline : Discipline Lock Act) (allowed : Lock → Lock → Prop)
    (state : State Cpu Thread Lock Act Shared) : Prop where
  cur_injective : Function.Injective state.cur
  current : ∀ cpu, ∃ held, Holds state cpu held ∧
    Obeys discipline allowed held (state.running cpu) ∅
  parked : ∀ thread, (∀ cpu, state.cur cpu ≠ thread) →
    Obeys discipline allowed discipline.handoff (state.code thread) ∅

/-- What the outcome of an act has to satisfy for `Tracked` to survive it. -/
structure Sound (discipline : Discipline Lock Act) (allowed : Lock → Lock → Prop)
    (state : State Cpu Thread Lock Act Shared) (cpu : Cpu) (act : Act)
    (outcome : Outcome Thread Lock Act Shared) (held : Finset Lock) : Prop where
  push : Obeys discipline allowed held outcome.push (discipline.leaves act held)
  switch : ∀ thread, outcome.switch = some thread → held = discipline.handoff
  target : ∀ thread, outcome.switch = some thread → ∀ other, state.cur other = thread →
    other = cpu
  spawn : ∀ thread code, outcome.spawn = some (thread, code) →
    (∀ other, state.cur other ≠ thread) ∧ outcome.switch = none ∧
      Obeys discipline allowed discipline.handoff code ∅

namespace Holds

variable {state : State Cpu Thread Lock Act Shared} {cpu : Cpu} {held : Finset Lock}

omit [DecidableEq Lock] in
theorem unique {other : Finset Lock} (left : Holds state cpu held)
    (right : Holds state cpu other) : held = other := by
  ext lock
  rw [left.mem, right.mem]

omit [DecidableEq Lock] in
theorem eq_empty (holds : Holds state cpu held) (unlocked : state.ncli cpu = 0) : held = ∅ :=
  Finset.card_eq_zero.mp (holds.card.trans unlocked)

variable [DecidableEq Cpu]

section

variable (holds : Holds state cpu held)

include holds

theorem acquire {lock : Lock} {code : Thread → Code Lock Act} (free : state.owner lock = none) :
    Holds
      { state with
        owner := update state.owner lock (some cpu)
        ncli := update state.ncli cpu (state.ncli cpu + 1)
        code := code } cpu (insert lock held) where
  mem := by
    intro other
    by_cases same : other = lock
    · subst other
      simp
    · simp [same, holds.mem]
  card := by
    have fresh : lock ∉ held := by
      rw [holds.mem, free]
      simp
    simp [Finset.card_insert_of_notMem fresh, holds.card]

theorem release {lock : Lock} {code : Thread → Code Lock Act} (owned : state.owner lock = some cpu) :
    Holds
      { state with
        owner := update state.owner lock none
        ncli := update state.ncli cpu (state.ncli cpu - 1)
        code := code } cpu (held.erase lock) where
  mem := by
    intro other
    by_cases same : other = lock
    · subst other
      simp
    · simp [same, holds.mem]
  card := by
    simp [Finset.card_erase_of_mem ((holds.mem lock).mpr owned), holds.card]

theorem other_of_acquire {lock : Lock} {code : Thread → Code Lock Act} {taker : Cpu}
    (free : state.owner lock = none) (different : cpu ≠ taker) : Holds
      { state with
        owner := update state.owner lock (some taker)
        ncli := update state.ncli taker (state.ncli taker + 1)
        code := code } cpu held where
  mem := by
    intro other
    by_cases same : other = lock
    · subst other
      simp [holds.mem, free, different.symm]
    · simp [update_of_ne same, holds.mem]
  card := by simp [update_of_ne different, holds.card]

theorem other_of_release {lock : Lock} {code : Thread → Code Lock Act} {giver : Cpu}
    (owned : state.owner lock = some giver) (different : cpu ≠ giver) : Holds
      { state with
        owner := update state.owner lock none
        ncli := update state.ncli giver (state.ncli giver - 1)
        code := code } cpu held where
  mem := by
    intro other
    by_cases same : other = lock
    · subst other
      simp [holds.mem, owned, different.symm]
    · simp [update_of_ne same, holds.mem]
  card := by simp [update_of_ne different, holds.card]

end

end Holds

namespace Tracked

variable {discipline : Discipline Lock Act} {allowed : Lock → Lock → Prop}
  {state : State Cpu Thread Lock Act Shared} [DecidableEq Cpu] [DecidableEq Thread]

theorem recode {next : State Cpu Thread Lock Act Shared} (cpu : Cpu) (code : Code Lock Act)
    (held : Finset Lock) (tracked : Tracked discipline allowed state)
    (cur : next.cur = state.cur)
    (recoded : next.code = update state.code (state.cur cpu) code)
    (holds : Holds next cpu held) (obeys : Obeys discipline allowed held code ∅)
    (others : ∀ other heldByOther, other ≠ cpu → Holds state other heldByOther →
      Holds next other heldByOther) :
    Tracked discipline allowed next where
  cur_injective := by
    rw [cur]
    exact tracked.cur_injective
  current := by
    intro other
    by_cases same : other = cpu
    · subst other
      refine ⟨held, holds, ?_⟩
      simpa [State.running, cur, recoded] using obeys
    · rcases tracked.current other with ⟨heldByOther, holdsOther, obeysOther⟩
      refine ⟨heldByOther, others other heldByOther same holdsOther, ?_⟩
      have elsewhere : state.cur other ≠ state.cur cpu := by
        intro equal
        exact same (tracked.cur_injective equal)
      simpa [State.running, cur, recoded, update_of_ne elsewhere] using obeysOther
  parked := by
    intro thread idle
    rw [cur] at idle
    rw [recoded, update_of_ne (idle cpu).symm]
    exact tracked.parked thread idle

omit [DecidableEq Cpu] in
theorem respawn {thread : Thread} {code : Code Lock Act}
    (tracked : Tracked discipline allowed state) (idle : ∀ cpu, state.cur cpu ≠ thread)
    (obeys : Obeys discipline allowed discipline.handoff code ∅) :
    Tracked discipline allowed { state with code := update state.code thread code } where
  cur_injective := tracked.cur_injective
  current := by
    intro cpu
    rcases tracked.current cpu with ⟨held, holds, obeysHere⟩
    refine ⟨held, ⟨holds.mem, holds.card⟩, ?_⟩
    simpa [State.running, update_of_ne (idle cpu)] using obeysHere
  parked := by
    intro other otherIdle
    by_cases same : other = thread
    · subst other
      simpa using obeys
    · simpa [update_of_ne same] using tracked.parked other otherIdle

theorem reswitch {cpu : Cpu} {thread : Thread} (tracked : Tracked discipline allowed state)
    (holds : Holds state cpu discipline.handoff)
    (target : ∀ other, state.cur other = thread → other = cpu) :
    Tracked discipline allowed { state with cur := update state.cur cpu thread } where
  cur_injective := by
    intro left right equal
    by_cases leftSame : left = cpu <;> by_cases rightSame : right = cpu
    · rw [leftSame, rightSame]
    · subst left
      simp only [update_self, update_of_ne rightSame] at equal
      exact (target right equal.symm).symm
    · subst right
      simp only [update_self, update_of_ne leftSame] at equal
      exact target left equal
    · simp only [update_of_ne leftSame, update_of_ne rightSame] at equal
      exact tracked.cur_injective equal
  current := by
    intro other
    rcases tracked.current other with ⟨held, holdsOther, obeysOther⟩
    by_cases same : other = cpu
    · rw [same] at holdsOther obeysOther ⊢
      refine ⟨discipline.handoff, ⟨holds.mem, holds.card⟩, ?_⟩
      simp only [State.running, update_self]
      by_cases stays : state.cur cpu = thread
      · rw [← stays]
        rw [holdsOther.unique holds] at obeysOther
        exact obeysOther
      · apply tracked.parked
        intro third equal
        rw [target third equal] at equal
        exact stays equal
    · refine ⟨held, ⟨holdsOther.mem, holdsOther.card⟩, ?_⟩
      simpa [State.running, update_of_ne same] using obeysOther
  parked := by
    intro other idle
    by_cases left : state.cur cpu = other
    · -- the thread that has just given up the processor
      rcases tracked.current cpu with ⟨held, holdsHere, obeysHere⟩
      rw [holdsHere.unique holds, State.running, left] at obeysHere
      exact obeysHere
    · apply tracked.parked
      intro third equal
      by_cases same : third = cpu
      · exact left (same ▸ equal)
      · have unmoved := idle third
        simp only [update_of_ne same] at unmoved
        exact unmoved equal

theorem act {cpu : Cpu} {act : Act} {rest : Code Lock Act}
    {outcome : Outcome Thread Lock Act Shared} (tracked : Tracked discipline allowed state)
    (head : state.running cpu = .act act :: rest)
    (sound : ∀ held, Holds state cpu held → discipline.needs act held →
      Sound discipline allowed state cpu act outcome held) :
    Tracked discipline allowed (state.apply cpu (state.cur cpu) rest outcome) := by
  rcases tracked.current cpu with ⟨held, holds, obeys⟩
  rw [head] at obeys
  have soundHere := sound held holds obeys.runs.1
  have pushed : Obeys discipline allowed held (outcome.push ++ rest) ∅ :=
    soundHere.push.append obeys.after_act
  -- first the code, then the new thread or the switch
  have recoded : Tracked discipline allowed
      { state with
        shared := outcome.shared
        code := update state.code (state.cur cpu) (outcome.push ++ rest) } := by
    refine tracked.recode cpu (outcome.push ++ rest) held rfl rfl ⟨holds.mem, holds.card⟩
      pushed ?_
    intro other heldByOther _ holdsOther
    exact ⟨holdsOther.mem, holdsOther.card⟩
  cases switched : outcome.switch with
  | none =>
      cases spawned : outcome.spawn with
      | none => simpa [State.apply, switched, spawned] using recoded
      | some pair =>
          rcases soundHere.spawn pair.1 pair.2 spawned with ⟨idle, _, obeysNew⟩
          simpa [State.apply, switched, spawned] using recoded.respawn idle obeysNew
  | some thread =>
      cases spawned : outcome.spawn with
      | none =>
          have atHandoff := soundHere.switch thread switched
          subst atHandoff
          simpa [State.apply, switched, spawned] using
            recoded.reswitch ⟨holds.mem, holds.card⟩ (soundHere.target thread switched)
      | some pair =>
          have unswitched := (soundHere.spawn pair.1 pair.2 spawned).2.1
          simp [switched] at unswitched

theorem step [DecidableEq Act] {program : Program Cpu Thread Lock Act Shared Entry Intr}
    {next : State Cpu Thread Lock Act Shared} {label : Label Cpu Entry Intr}
    (tracked : Tracked discipline allowed state) (stepped : program.step state label = some next)
    (sound : ∀ cpu choice act rest outcome held, label = .run cpu choice →
      state.running cpu = .act act :: rest →
      program.exec act cpu (state.cur cpu) choice state.shared = some outcome →
      Holds state cpu held → discipline.needs act held →
      Sound discipline allowed state cpu act outcome held)
    (entries : ∀ entry thread code, program.entry entry thread = some code →
      Obeys discipline allowed ∅ code ∅)
    (handlers : ∀ intr cpu thread code, program.intr intr cpu thread = some code →
      Obeys discipline allowed ∅ code ∅) :
    Tracked discipline allowed next := by
  cases Program.step_cases stepped with
  | @acquire cpu choice lock rest head free =>
      rcases tracked.current cpu with ⟨held, holds, obeys⟩
      rw [head] at obeys
      refine tracked.recode cpu rest (insert lock held) rfl rfl (holds.acquire free)
        obeys.after_acquire ?_
      intro other heldByOther different holdsOther
      exact holdsOther.other_of_acquire free different
  | @release cpu choice lock rest head owned =>
      rcases tracked.current cpu with ⟨held, holds, obeys⟩
      rw [head] at obeys
      refine tracked.recode cpu rest (held.erase lock) rfl rfl (holds.release owned)
        obeys.after_release ?_
      intro other heldByOther different holdsOther
      exact holdsOther.other_of_release owned different
  | @act cpu choice act rest outcome head executed =>
      apply tracked.act head
      intro held holds needs
      exact sound cpu choice act rest outcome held rfl head executed holds needs
  | @call cpu entry code idle entered =>
      rcases tracked.current cpu with ⟨held, holds, obeys⟩
      have empty : held = ∅ := by
        simpa [idle, Discipline.Runs] using obeys.runs
      subst empty
      refine tracked.recode cpu code ∅ rfl rfl ⟨holds.mem, holds.card⟩
        (entries entry _ code entered) ?_
      intro other heldByOther _ holdsOther
      exact ⟨holdsOther.mem, holdsOther.card⟩
  | @intr cpu intr code unlocked unmasked handled =>
      rcases tracked.current cpu with ⟨held, holds, obeys⟩
      have empty := holds.eq_empty unlocked
      subst empty
      refine tracked.recode cpu (code ++ state.running cpu) ∅ rfl rfl
        ⟨holds.mem, holds.card⟩ ((handlers intr cpu _ code handled).append obeys) ?_
      intro other heldByOther _ holdsOther
      exact ⟨holdsOther.mem, holdsOther.card⟩

omit [DecidableEq Cpu] [DecidableEq Thread] in
/-- If no code may acquire `inner` while it holds `outer`, the two locks cannot deadlock. -/
theorem not_deadlock {outer inner : Lock} (tracked : Tracked discipline allowed state)
    (forbidden : ¬allowed outer inner) : ¬state.Deadlock outer inner := by
  rintro ⟨left, right, _, owned, ⟨⟨rest, head⟩, _⟩, _⟩
  rcases tracked.current left with ⟨held, holds, obeys⟩
  rw [head] at obeys
  apply forbidden
  apply obeys.nested
  exact Or.inl ⟨(holds.mem outer).mpr owned, rfl⟩

omit [DecidableEq Cpu] [DecidableEq Thread] in
theorem not_deadlock_of_allBut {first second : Lock}
    (tracked : Tracked discipline (AllBut first second) state) :
    ¬state.Deadlock first second ∧ ¬state.Deadlock second first := by
  have noDeadlock : ¬state.Deadlock first second := tracked.not_deadlock (by simp [AllBut])
  exact ⟨noDeadlock, fun deadlock => noDeadlock deadlock.symm⟩

omit [DecidableEq Cpu] [DecidableEq Thread] in
theorem owner_of_release {cpu : Cpu} {lock : Lock} {before rest : Code Lock Act}
    (tracked : Tracked discipline allowed state)
    (running : state.running cpu = before ++ .release lock :: rest)
    (unacquired : .acquire lock ∉ before) : state.owner lock = some cpu := by
  rcases tracked.current cpu with ⟨held, holds, obeys⟩
  rw [running] at obeys
  exact (holds.mem lock).mp (obeys.runs.mem_of_release unacquired)

end Tracked

end Threads
