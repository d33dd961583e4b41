import Xv6.Kernel.Clock

/-!
# Idle ticks

When no process is `RUNNABLE` and none waits for the clock, the clock interrupt does nothing but
count the tick. So the kernel can go through any number of ticks and be in the same state
otherwise.
-/

namespace Xv6

open Threads Transition

section Alone

variable {ncpu : ℕ} {Sub SubAct SubEntry SubIntr : Type} [DecidableEq SubAct]
  {sub : Subsystem Sub SubAct SubEntry SubIntr}
  {state : Machine Sub SubAct ncpu} {cpu : Fin ncpu} {kern : Kern Sub}
  {act : Act SubAct} {code rest : Code Lock (Act SubAct)} {held : List Lock} {lock : Lock}

/-- No process is `RUNNABLE` or waits for the clock. -/
def Kern.Idle (kern : Kern Sub) : Prop :=
  ∀ slot, (kern.proc slot).state ≠ .runnable ∧
    ((kern.proc slot).state = .sleeping → (kern.proc slot).chan ≠ some .ticks)

instance (kern : Kern Sub) : Decidable kern.Idle :=
  inferInstanceAs (Decidable (∀ slot, (kern.proc slot).state ≠ .runnable ∧
    ((kern.proc slot).state = .sleeping → (kern.proc slot).chan ≠ some .ticks)))

/-- The steps of one processor, while nobody else makes one. -/
abbrev aloneStep (sub : Subsystem Sub SubAct SubEntry SubIntr) (cpu : Fin ncpu)
    (state : Machine Sub SubAct ncpu) (choice : ℕ) : Option (Machine Sub SubAct ncpu) :=
  (kernel sub ncpu).step state (.run cpu choice)

theorem leads_of_alone {next : Machine Sub SubAct ncpu} (leads : Leads (aloneStep sub cpu) state next) :
    Leads (kernel sub ncpu).step state next := by
  rcases leads with ⟨trace, run⟩
  induction run with
  | refl => exact .refl
  | tail run stepped ih => exact ih.trans (.head stepped .refl)

/-- The state with other data, and with other code and locks for one processor. -/
def inHandler (state : Machine Sub SubAct ncpu) (cpu : Fin ncpu) (code : Code Lock (Act SubAct))
    (held : List Lock) (kern : Kern Sub) : Machine Sub SubAct ncpu where
  shared := kern
  cur := state.cur
  code := Function.update state.code (state.cur cpu) code
  owner := fun lock => if lock ∈ held then some cpu else state.owner lock
  ncli := Function.update state.ncli cpu held.length

omit [DecidableEq SubAct] in
theorem inHandler_nil (unlocked : state.ncli cpu = 0) :
    inHandler state cpu (state.running cpu) [] kern = { state with shared := kern } := by
  simp [inHandler, State.running, ← unlocked]

theorem inHandler_acquire (free : state.owner lock = none) (notHeld : lock ∉ held) :
    aloneStep sub cpu (inHandler state cpu (.acquire lock :: rest) held kern) 0 =
      some (inHandler state cpu rest (lock :: held) kern) := by
  have owner : (fun other => if other ∈ lock :: held then some cpu else state.owner other) =
      Function.update (fun other => if other ∈ held then some cpu else state.owner other) lock
        (some cpu) := by
    funext other
    by_cases same : other = lock <;> simp [same]
  simp only [inHandler, owner]
  simp [aloneStep, Program.step, Program.runOn, free, notHeld]

theorem inHandler_release (free : state.owner lock = none) (notHeld : lock ∉ held) :
    aloneStep sub cpu (inHandler state cpu (.release lock :: rest) (lock :: held) kern) 0 =
      some (inHandler state cpu rest held kern) := by
  have owner : (fun other => if other ∈ held then some cpu else state.owner other) =
      Function.update (fun other => if other ∈ lock :: held then some cpu else state.owner other) lock
        none := by
    funext other
    by_cases same : other = lock
    · simp [same, notHeld, free]
    · simp [same]
  simp [aloneStep, Program.step, Program.runOn, inHandler, owner]

theorem inHandler_act (after : Kern Sub) (push : Code Lock (Act SubAct))
    (executed : exec sub act cpu (state.cur cpu) 0 kern = some { shared := after, push := push }) :
    aloneStep sub cpu (inHandler state cpu (.act act :: rest) held kern) 0 =
      some (inHandler state cpu (push ++ rest) held after) := by
  simp [aloneStep, Program.step, Program.runOn, inHandler, kernel, executed, State.apply]

theorem inHandler_timer (isFirst : cpu.val = 0) (unmasked : .act .iret ∉ code) :
    (kernel sub ncpu).step (inHandler state cpu code [] kern) (.intr cpu .timer) =
      some (inHandler state cpu (timer ++ code) [] kern) := by
  simp [Program.step, inHandler, kernel, State.running, isFirst, unmasked]

/-! ## Aging -/

instance (kern : Kern Sub) (osTicks : ℤ) (slot : Slot) : Decidable (kern.Starved osTicks slot) :=
  inferInstanceAs (Decidable (_ ∧ _ ∧ _))

def Proc.setQueue (proc : Proc) (queue : ℤ) : Proc :=
  { proc with scheduleStatus := { proc.scheduleStatus with queueId := queue } }

/-- A process is the first one with its pid, so that the scans for the pid come to it. -/
def Kern.First (kern : Kern Sub) (slot : Slot) : Prop :=
  (kern.find fun _ proc => proc.pid = (kern.proc slot).pid) = some slot

/-- The table with the processes moved that have starved, from an index on. -/
def Kern.aged (kern : Kern Sub) (osTicks : ℤ) (index : ℕ) : Kern Sub :=
  { kern with
    proc := fun slot =>
      if index ≤ slot.val ∧ kern.Starved osTicks slot then (kern.proc slot).setQueue ROUND_ROBIN
      else kern.proc slot }

section Aged

variable {osTicks : ℤ} {index : ℕ}

theorem Kern.aged_of_not (nobody : ∀ slot : Slot, index ≤ slot.val → ¬kern.Starved osTicks slot) :
    kern.aged osTicks index = kern := by
  have same : (kern.aged osTicks index).proc = kern.proc := by
    funext slot
    exact if_neg fun both => nobody slot both.1 both.2
  exact congrArg (fun proc => { kern with proc }) same

theorem Kern.aged_of_not_starved {slot : Slot} (notStarved : ¬kern.Starved osTicks slot) :
    kern.aged osTicks slot = kern.aged osTicks (slot + 1) := by
  have same : (kern.aged osTicks slot).proc = (kern.aged osTicks (slot + 1)).proc := by
    funext other
    refine if_congr ⟨?_, ?_⟩ rfl rfl
    · rintro ⟨behind, starved⟩
      refine ⟨lt_of_le_of_ne behind ?_, starved⟩
      exact fun isSlot => notStarved (Fin.ext isSlot ▸ starved)
    · exact fun both => ⟨Nat.le_of_succ_le both.1, both.2⟩
  exact congrArg (fun proc => { kern with proc }) same

variable {slot other : Slot}

theorem Kern.not_starved_setQueue :
    ¬(kern.modify slot (·.setQueue ROUND_ROBIN)).Starved osTicks slot := by
  simp [Starved, Proc.setQueue]

theorem Kern.starved_setQueue (different : other ≠ slot) :
    (kern.modify slot (·.setQueue ROUND_ROBIN)).Starved osTicks other ↔ kern.Starved osTicks other := by
  simp [Starved, Kern.modify, different]

theorem Kern.aged_of_starved (starved : kern.Starved osTicks slot) :
    kern.aged osTicks slot =
      (kern.modify slot (·.setQueue ROUND_ROBIN)).aged osTicks (slot + 1) := by
  have same : (kern.aged osTicks slot).proc =
      ((kern.modify slot (·.setQueue ROUND_ROBIN)).aged osTicks (slot + 1)).proc := by
    funext other
    by_cases isSlot : other = slot
    · subst isSlot
      simp [aged, starved, Kern.not_starved_setQueue]
    · have unequal : slot.val ≠ other.val := fun same => isSlot (Fin.ext same.symm)
      have behind : slot.val + 1 ≤ other.val ↔ slot.val ≤ other.val := by omega
      have same : (kern.modify slot (·.setQueue ROUND_ROBIN)).proc other = kern.proc other := by
        simp [Kern.modify, isSlot]
      simp only [aged, Kern.starved_setQueue isSlot, behind, same]
  exact congrArg (fun proc => { kern with proc }) same

theorem Kern.first_setQueue (queue : ℤ) : (kern.modify slot (·.setQueue queue)).First other ↔ kern.First other := by
  have samePid : ∀ other, ((kern.modify slot (·.setQueue queue)).proc other).pid =
      (kern.proc other).pid := by
    intro other
    by_cases isSlot : other = slot <;> simp [Kern.modify, isSlot, Proc.setQueue]
  simp only [First, Kern.find, samePid]

omit [DecidableEq SubAct] in
theorem exec_ageScan (thread : Thread ncpu) :
    exec sub (.ageScan osTicks slot) cpu thread 0 kern = some
      { shared := kern
        push :=
          if kern.Starved osTicks slot then [.release .ptable, .act (.ageQueue slot),
            .acquire .ptable, .act (.ageScan osTicks (slot + 1))]
          else [.act (.ageScan osTicks (slot + 1))] } := by
  have inTable := slot.isLt
  by_cases starved : kern.Starved osTicks slot
  · have tested := starved
    simp only [Kern.Starved] at tested
    cases thread <;> simp only [exec, execProc, execAny, dif_pos inTable, Fin.eta, if_pos starved,
      if_pos tested]
    rfl
  · have tested := starved
    simp only [Kern.Starved] at tested
    cases thread <;> simp only [exec, execProc, execAny, dif_pos inTable, Fin.eta, if_neg starved,
      if_neg tested]
    rfl

/-- The loop of `ageprocs` with nobody else running: a starved process is moved if it is the first one
with its pid, and has still starved afterwards if it is not. -/
theorem leads_ageScan (free : state.owner .ptable = none) (notHeld : .ptable ∉ held) (turns : ℕ)
    (isLast : index + turns = NPROC) : ∃ after,
      Leads (aloneStep sub cpu)
        (inHandler state cpu (.act (.ageScan osTicks index) :: rest) (.ptable :: held) kern)
        (inHandler state cpu (.release .ptable :: rest) (.ptable :: held) after) ∧
      ((∀ slot, kern.Starved osTicks slot → kern.First slot) → after = kern.aged osTicks index) ∧
      ∀ slot, kern.Starved osTicks slot → ¬kern.First slot → after.Starved osTicks slot := by
  induction turns generalizing index kern with
  | zero =>
      have isEnd : ¬index < NPROC := by omega
      refine ⟨kern, Leads.head (inHandler_act kern [.release .ptable] ?_) .refl, ?_, fun _ starved _ => starved⟩
      · cases state.cur cpu <;> simp [exec, execProc, execAny, isEnd]
      · intro _
        exact (Kern.aged_of_not fun slot behind => absurd (behind.trans_lt slot.isLt) isEnd).symm
  | succ turns ih =>
      have inTable : index < NPROC := by omega
      obtain ⟨slot, rfl⟩ : ∃ slot : Slot, slot.val = index := ⟨⟨index, inTable⟩, rfl⟩
      by_cases starved : kern.Starved osTicks slot
      · obtain ⟨hit, isFound⟩ : ∃ hit, (kern.find fun _ proc => proc.pid = (kern.proc slot).pid) = some hit := by
          rw [← Option.isSome_iff_exists, Kern.find, List.find?_isSome]
          exact ⟨slot, List.mem_finRange slot, by simp⟩
        have isPid : (kern.proc hit).pid = (kern.proc slot).pid := by simpa using Kern.find_some isFound
        have isFirst : kern.First hit := by
          rw [Kern.First, isPid]
          exact isFound
        have asked : exec sub (.ageQueue slot) cpu (state.cur cpu) 0 kern = some
            { shared := kern, push := changeQueue (kern.proc slot).pid ROUND_ROBIN } := by
          cases state.cur cpu <;> rfl
        have set : exec sub (.setQueue (kern.proc slot).pid ROUND_ROBIN) cpu (state.cur cpu) 0 kern =
            some { shared := kern.modify hit (·.setQueue ROUND_ROBIN), push := [] } := by
          cases state.cur cpu <;> simp [exec, execProc, execAny, isFound] <;> rfl
        rcases @ih (kern.modify hit (·.setQueue ROUND_ROBIN)) (slot.val + 1) (by omega) with
          ⟨after, leads, whenFirst, otherwise⟩
        refine ⟨after, ?_, ?_, ?_⟩
        · apply Leads.head (inHandler_act _ _ (exec_ageScan _))
          rw [if_pos starved]
          apply Leads.head (inHandler_release free notHeld)
          apply Leads.head (inHandler_act _ _ asked)
          apply Leads.head (inHandler_acquire free notHeld)
          apply Leads.head (inHandler_act _ _ set)
          apply Leads.head (inHandler_release free notHeld)
          exact Leads.head (inHandler_acquire free notHeld) leads
        · intro first
          have isSlot : hit = slot := Option.some.inj (isFound.symm.trans (first slot starved))
          subst isSlot
          rw [Kern.aged_of_starved starved]
          apply whenFirst
          intro other otherStarved
          have different : other ≠ hit := by
            rintro rfl
            exact Kern.not_starved_setQueue otherStarved
          rw [Kern.first_setQueue]
          exact first other ((Kern.starved_setQueue different).mp otherStarved)
        · intro other otherStarved notFirst
          have different : other ≠ hit := by
            rintro rfl
            exact notFirst isFirst
          apply otherwise other ((Kern.starved_setQueue different).mpr otherStarved)
          rw [Kern.first_setQueue]
          exact notFirst
      · rcases @ih kern (slot.val + 1) (by omega) with ⟨after, leads, whenFirst, otherwise⟩
        refine ⟨after, ?_, ?_, otherwise⟩
        · apply Leads.head (inHandler_act _ _ (exec_ageScan _))
          rw [if_neg starved]
          exact leads
        · rw [Kern.aged_of_not_starved starved]
          exact whenFirst

theorem leads_ageprocs (osTicks : ℤ) (cpu : Fin ncpu) (rest : Code Lock (Act SubAct))
    (free : state.owner .ptable = none) (notHeld : .ptable ∉ held) : ∃ after,
      Leads (aloneStep sub cpu) (inHandler state cpu (ageprocs osTicks ++ rest) held kern)
        (inHandler state cpu rest held after) ∧
      ((∀ slot, kern.Starved osTicks slot → kern.First slot) → after = kern.aged osTicks 0) ∧
      ∀ slot, kern.Starved osTicks slot → ¬kern.First slot → after.Starved osTicks slot := by
  rcases @leads_ageScan ncpu _ _ _ _ _ sub state cpu kern rest held osTicks 0 free notHeld NPROC (Nat.zero_add _) with
    ⟨after, leads, moved⟩
  refine ⟨after, ?_, moved⟩
  apply Leads.head (inHandler_acquire free notHeld)
  exact leads.trans (.head (inHandler_release free notHeld) .refl)

end Aged

theorem Kern.Idle.wakeup1 (idle : kern.Idle) : kern.wakeup1 (some .ticks) = kern := by
  have same : (kern.wakeup1 (some .ticks)).proc = kern.proc := by
    funext slot
    have notWaiting := (idle slot).2
    simp only [Kern.wakeup1]
    grind
  exact congrArg (fun proc => { kern with proc }) same

end Alone

section Kernel

variable {ncpu : ℕ} {state : KernMachine ncpu} {cpu : Fin ncpu}

theorem leads_tick (state : KernMachine ncpu) (isFirst : cpu.val = 0) (unlocked : state.ncli cpu = 0)
    (unmasked : .act .iret ∉ state.running cpu) (ptable : state.owner .ptable = none)
    (tickslock : state.owner .tickslock = none) (idle : state.shared.Idle) :
    Leads kernStep state
      { state with shared :=
        { state.shared with ticks := (state.shared.ticks + 1) % 2 ^ 32 } } := by
  let ticks := (state.shared.ticks + 1) % 2 ^ 32
  let after : Kern Unit := { state.shared with ticks }
  have idleAfter : after.Idle := idle
  have counted : exec noSub .tick cpu (state.cur cpu) 0 state.shared = some
      { shared := after
        push := wakeup .ticks ++ [.release .tickslock] ++ ageprocs (toInt ticks) } := by
    cases state.cur cpu <;> rfl
  have wakesNobody : exec noSub (.wakeup1 .ticks) cpu (state.cur cpu) 0 after =
      some { shared := after } := by
    have same := idleAfter.wakeup1
    cases state.cur cpu <;> simp [exec, execProc, execAny, same]
  have returned : exec noSub .iret cpu (state.cur cpu) 0 after = some { shared := after } := by
    cases state.cur cpu <;> rfl
  have notStarved : ∀ slot, ¬after.Starved (toInt ticks) slot :=
    fun slot starved => (idleAfter slot).1 starved.1
  rcases @leads_ageprocs ncpu _ _ _ _ _ noSub state after [] (toInt ticks) cpu
    (.act .iret :: state.running cpu) ptable (by simp) with ⟨final, aged, isFinal, _⟩
  rw [isFinal fun slot starved => absurd starved (notStarved slot),
    Kern.aged_of_not fun slot _ => notStarved slot] at aged
  have leads : Leads kernStep (inHandler state cpu (state.running cpu) [] state.shared)
      (inHandler state cpu (state.running cpu) [] after) := by
    apply Leads.head (inHandler_timer isFirst unmasked)
    apply leads_of_alone
    apply Leads.head (inHandler_acquire tickslock (by simp))
    apply Leads.head (inHandler_act _ _ counted)
    apply Leads.head (inHandler_acquire ptable (by simp))
    apply Leads.head (inHandler_act _ _ wakesNobody)
    apply Leads.head (inHandler_release ptable (by simp))
    apply Leads.head (inHandler_release tickslock (by simp))
    apply Leads.trans aged
    apply Leads.head (inHandler_act _ _ returned)
    exact .refl
  rw [inHandler_nil unlocked, inHandler_nil unlocked] at leads
  exact leads

theorem pids_of_run {freePages : List ℕ} {trace : KernTrace ncpu}
    (run : Run kernStep (boot ncpu freePages ()) trace state) : state.shared.Pids := by
  have both : CoreInv noLocking (fun _ _ => True) state ∧ state.shared.Pids := by
    refine Run.stateInvariant
      (fun state => CoreInv noLocking (fun _ _ => True) state ∧ state.shared.Pids)
      ⟨coreInv_boot, pids_boot⟩ ?_ run (Trace.all_true trace)
    rintro before label after ⟨core, pids⟩ _ stepped
    exact ⟨core.kernStep stepped nestsAllowed_of_all, core.pids noPlain pids stepped⟩
  exact both.2

/-- The pids other than 0 are different, also those in free slots, and the scan for the pid of a
process in use comes to that process. -/
theorem pids_identify {freePages : List ℕ} {trace : KernTrace ncpu}
    (run : Run kernStep (boot ncpu freePages ()) trace state) :
    (∀ slot, (state.shared.proc slot).pid ≠ 0 →
      1 ≤ (state.shared.proc slot).pid ∧ (state.shared.proc slot).pid < state.shared.nextpid ∧
        ∀ other, (state.shared.proc other).pid = (state.shared.proc slot).pid → other = slot) ∧
    ∀ slot pid, (state.shared.proc slot).state ≠ .unused → (state.shared.proc slot).pid = pid →
      pid ≠ 0 ∧ ∀ (cpu : Fin ncpu) thread choice queue ratios priority,
        exec noSub (.setQueue pid queue) cpu thread choice state.shared =
          some { shared := state.shared.modify slot fun proc => proc.setQueue queue } ∧
        exec noSub (.setBjfParamsProcess pid ratios) cpu thread choice state.shared =
          some { shared := state.shared.modify slot fun proc =>
            { proc with scheduleStatus := proc.scheduleStatus.setRatios ratios } } ∧
        exec noSub (.setBjfPriority pid priority) cpu thread choice state.shared =
          some { shared := state.shared.modify slot fun proc =>
            { proc with scheduleStatus := { proc.scheduleStatus with priority } } } := by
  have pids := pids_of_run run
  refine ⟨?_, ?_⟩
  · intro slot notZero
    have nonneg := pids.nonneg slot
    refine ⟨by omega, pids.below slot, ?_⟩
    intro other same
    exact (pids.distinct slot other (by omega) same.symm).symm
  · intro slot pid used isPid
    have isFirst := pids.find used
    have positive := pids.used slot used
    rw [isPid] at isFirst positive
    refine ⟨by omega, ?_⟩
    intro cpu thread choice queue ratios priority
    refine ⟨?_, ?_, ?_⟩ <;> cases thread <;> simp [exec, execProc, execAny, isFirst, Proc.setQueue]

/-- The first child of `init`, by its pid. -/
theorem pids_identify_child : ∃ trace state, Run kernStep (boot 1 [1] ()) trace state ∧
    (state.shared.proc 1).state = .runnable ∧ (state.shared.proc 1).pid = 2 ∧
    exec noSub (.setQueue 2 LCFS) (0 : Fin 1) (.scheduler 0) 0 state.shared =
      some { shared := state.shared.modify 1 fun proc => proc.setQueue LCFS } := by
  have found : ∃ trace state, Run kernStep (boot 1 [1] ()) trace state ∧
      (state.shared.proc 1).state = .runnable ∧ (state.shared.proc 1).pid = 2 :=
    exists_run [dispatch 0 0, go 0 1, call 0 .fork 15].flatten (by decide +kernel)
  obtain ⟨trace, state, run, runnable, isPid⟩ := found
  have acts := ((pids_identify run).2 1 2 (by simp [runnable]) isPid).2
  exact ⟨trace, state, run, runnable, isPid, (acts 0 (.scheduler 0) 0 LCFS ⟨1, 1, 1⟩ 3).1⟩

/-- `ageprocs` with nobody else running moves those who have starved, and changes nothing else, exactly
if each of them is the first one with its pid. In the kernel without semaphores all are, in every
table that can be reached. -/
theorem ageprocs_complete_iff :
    (∀ {Sub SubAct SubEntry SubIntr : Type} [DecidableEq SubAct] (sub : Subsystem Sub SubAct SubEntry SubIntr)
      (state : Machine Sub SubAct ncpu) (osTicks : ℤ) (cpu : Fin ncpu) (rest : Code Lock (Act SubAct))
      (held : List Lock), state.owner .ptable = none → .ptable ∉ held →
      ∃ after : Kern Sub,
        Leads (aloneStep sub cpu) (inHandler state cpu (ageprocs osTicks ++ rest) held state.shared)
          (inHandler state cpu rest held after) ∧
        ((∀ slot, ¬after.Starved osTicks slot) ∧
          (∀ slot, after.proc slot =
            if state.shared.Starved osTicks slot then (state.shared.proc slot).setQueue ROUND_ROBIN
            else state.shared.proc slot) ∧
          { after with proc := state.shared.proc } = state.shared ↔
        ∀ slot, state.shared.Starved osTicks slot → state.shared.First slot)) ∧
    ∀ (freePages : List ℕ) (trace : KernTrace ncpu) (state : KernMachine ncpu),
      Run kernStep (boot ncpu freePages ()) trace state →
      ∀ osTicks slot, state.shared.Starved osTicks slot → state.shared.First slot := by
  refine ⟨?_, ?_⟩
  · intro Sub SubAct SubEntry SubIntr _ sub state osTicks cpu rest held free notHeld
    rcases @leads_ageprocs ncpu _ _ _ _ _ sub state state.shared held osTicks cpu rest free notHeld with
      ⟨after, leads, whenFirst, otherwise⟩
    refine ⟨after, leads, ?_, ?_⟩
    · rintro ⟨nobody, _⟩ slot starved
      by_contra notFirst
      exact nobody slot (otherwise slot starved notFirst)
    · intro first
      have moves : ∀ slot, (state.shared.aged osTicks 0).proc slot =
          if state.shared.Starved osTicks slot then (state.shared.proc slot).setQueue ROUND_ROBIN
          else state.shared.proc slot := by
        intro slot
        exact if_congr (and_iff_right (Nat.zero_le _)) rfl rfl
      rw [whenFirst first]
      refine ⟨?_, moves, rfl⟩
      intro slot starved
      rw [Kern.Starved, moves] at starved
      split at starved
      · simp [Proc.setQueue] at starved
      · contradiction
  · intro freePages trace state run osTicks slot starved
    exact (pids_of_run run).find (by simp [starved.1])

/-- A process of the `LCFS` queue that has waited too long since it was forked. -/
theorem ageprocs_moves_child : ∃ trace state after, Run kernStep (boot 1 [1] ()) trace state ∧
    state.shared.Starved 9000 1 ∧
    Leads (aloneStep noSub 0) (inHandler state 0 (ageprocs 9000 ++ []) [] state.shared)
      (inHandler state 0 [] [] after) ∧
    ¬after.Starved 9000 1 ∧ (after.proc 1).scheduleStatus.queueId = ROUND_ROBIN := by
  have found : ∃ trace state, Run kernStep (boot 1 [1] ()) trace state ∧
      state.shared.Starved 9000 1 ∧ state.owner .ptable = none :=
    exists_run [dispatch 0 0, go 0 1, call 0 .fork 15].flatten (by decide +kernel)
  obtain ⟨trace, state, run, starved, free⟩ := found
  obtain ⟨complete, first⟩ := @ageprocs_complete_iff 1
  obtain ⟨after, leads, exact⟩ := complete noSub state 9000 0 [] [] free List.not_mem_nil
  obtain ⟨nobody, moved, -⟩ := exact.2 (first [1] trace state run 9000)
  refine ⟨trace, state, after, run, starved, leads, nobody 1, ?_⟩
  rw [moved, if_pos starved]
  rfl

theorem leads_ticks (isFirst : cpu.val = 0) (unlocked : state.ncli cpu = 0)
    (unmasked : .act .iret ∉ state.running cpu) (ptable : state.owner .ptable = none)
    (tickslock : state.owner .tickslock = none) (idle : state.shared.Idle) (count : ℕ)
    (bound : state.shared.ticks + count < 2 ^ 32) :
    Leads kernStep state
      { state with shared := { state.shared with ticks := state.shared.ticks + count } } := by
  induction count with
  | zero => exact .refl
  | succ count ih =>
      apply Leads.trans (ih (by omega))
      have ticked := leads_tick
        { state with shared := { state.shared with ticks := state.shared.ticks + count } } isFirst
        unlocked unmasked ptable tickslock idle
      simp only [Nat.add_assoc] at ticked
      rw [Nat.mod_eq_of_lt bound] at ticked
      exact ticked

end Kernel

end Xv6
