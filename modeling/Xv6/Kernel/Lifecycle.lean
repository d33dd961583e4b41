import Xv6.Kernel.Frame
import Xv6.Kernel.Safety

/-!
# The life of a process

What the acts of `proc.c` do to the table, one case for each kind of change (`TableStep`),
and which code a process can have at the ends of its life: after `exit` it does nothing any
more, and a slot that is not in use, or still being built, has no code of an earlier process.
-/

namespace Xv6

open Threads Function

variable {Sub SubAct SubEntry SubIntr : Type} {ncpu : ℕ}

/-- The instruction is no part of `fork`, `exit` or of the sleep in `wait`. -/
def Plain : Instr Lock (Act SubAct) → Prop
  | .act .allocproc | .act (.kstack _) | .act (.copyuvm _) | .act (.forkRunnable _) => False
  | .act .exitSched | .act (.sleepSched (.proc _)) => False
  | _ => True

/-- Nothing of the table changes but scheduling data. -/
structure Kern.OnlyStatus (kern next : Kern Sub) : Prop where
  proc : ∀ slot, ∃ status, next.proc slot = { kern.proc slot with scheduleStatus := status }
  initproc : next.initproc = kern.initproc
  nextpid : next.nextpid = kern.nextpid
  freePages : next.freePages = kern.freePages

theorem Kern.OnlyStatus.refl {kern : Kern Sub} : kern.OnlyStatus kern :=
  ⟨fun _ => ⟨_, rfl⟩, rfl, rfl, rfl⟩

theorem Kern.OnlyStatus.sameState {kern next : Kern Sub} (only : kern.OnlyStatus next)
    (slot : Slot) : (next.proc slot).state = (kern.proc slot).state := by
  rcases only.proc slot with ⟨status, procIs⟩
  rw [procIs]

theorem Kern.onlyStatus_modify {kern : Kern Sub} {slot : Slot} {change : Proc → Proc}
    (status : ∀ proc, ∃ status, change proc = { proc with scheduleStatus := status }) :
    kern.OnlyStatus (kern.modify slot change) := by
  refine ⟨?_, rfl, rfl, rfl⟩
  intro other
  by_cases same : other = slot
  · subst other
    rw [Kern.modify_proc_self]
    exact status _
  · rw [Kern.modify_proc_of_ne _ same]
    exact ⟨_, rfl⟩

/-- What an act of `proc.c` does to the table and to the code of its thread. -/
inductive TableStep (kern : Kern Sub) (cpu : Fin ncpu) (thread : Thread ncpu) :
    Act SubAct → Effect Sub SubAct ncpu → Prop
  | claim {np : Slot} (unused : (kern.proc np).state = .unused) :
      TableStep kern cpu thread .allocproc
        { shared := { kern.modify np fun proc =>
            { proc with state := .embryo, pid := kern.nextpid } with nextpid := kern.nextpid + 1 }
          push := [.release .ptable, .act (.kstack np)] }
  | noStack {np : Slot} (empty : kern.freePages = []) :
      TableStep kern cpu thread (.kstack np) { shared := kern.setState np .unused }
  | stack {np : Slot} {page : ℕ} {pages : List ℕ} (free : kern.freePages = page :: pages) :
      TableStep kern cpu thread (.kstack np)
        { shared := { kern.modify np fun proc =>
            { proc with kstack := some page, scheduleStatus := .fresh } with freePages := pages }
          push := [.act (.copyuvm np)]
          spawn := some (.proc np, forkret) }
  | copied {np curproc : Slot} (onCpu : thread = .proc curproc) :
      TableStep kern cpu thread (.copyuvm np)
        { shared := kern.modify np fun proc => { proc with parent := some curproc }
          push := [.acquire .ptable, .act (.forkRunnable np), .acquire .tickslock,
            .act (.forkTicks np), .release .tickslock, .release .ptable, .act (.forkQueue np)] }
  | notCopied {np : Slot} :
      TableStep kern cpu thread (.copyuvm np)
        { shared := { kern.modify np fun proc => { proc with kstack := none, state := .unused } with
            freePages := (kern.proc np).kstack.toList ++ kern.freePages } }
  | start {np : Slot} :
      TableStep kern cpu thread (.forkRunnable np) { shared := kern.setState np .runnable }
  | exit {curproc : Slot} (onCpu : thread = .proc curproc) (notInit : curproc ≠ kern.initproc) :
      TableStep kern cpu thread .exitSched
        { shared := kern.exit curproc, switch := some (.scheduler cpu) }
  | reap {curproc child : Slot} (onCpu : thread = .proc curproc)
      (parent : (kern.proc child).parent = some curproc)
      (zombie : (kern.proc child).state = .zombie) :
      TableStep kern cpu thread .waitScan
        { shared := kern.reap child, push := [.release .ptable] }
  | wait {curproc child : Slot} (onCpu : thread = .proc curproc)
      (parent : (kern.proc child).parent = some curproc)
      (noZombie : ∀ other, (kern.proc other).parent = some curproc →
        (kern.proc other).state ≠ .zombie) :
      TableStep kern cpu thread .waitScan
        { shared := kern, push := sleep (.proc curproc) .ptable ++ [.act .waitScan] }
  | sleep {curproc : Slot} {chan : Chan} (onCpu : thread = .proc curproc) :
      TableStep kern cpu thread (.sleepSched chan)
        { shared := kern.sleepOn curproc chan, switch := some (.scheduler cpu) }
  | clear {curproc : Slot} (onCpu : thread = .proc curproc) :
      TableStep kern cpu thread .clearChan
        { shared := kern.modify curproc fun proc => { proc with chan := none } }
  | yield {curproc : Slot} (onCpu : thread = .proc curproc) :
      TableStep kern cpu thread .yieldSched
        { shared := kern.setState curproc .runnable, switch := some (.scheduler cpu) }
  | pick {slot : Slot} {own : Fin ncpu} (onScheduler : thread = .scheduler own)
      (runnable : (kern.proc slot).state = .runnable) :
      TableStep kern cpu thread .pick
        { shared := kern.modify slot fun proc => proc.dispatch (toInt kern.ticks)
          push := .release .ptable :: scheduler
          switch := some (.proc slot) }
  | kill {pid : ℤ} : TableStep kern cpu thread (.kill pid) { shared := kern.kill pid }
  | wakeup {chan : Chan} :
      TableStep kern cpu thread (.wakeup1 chan) { shared := kern.wakeup1 (some chan) }
  | other {act : Act SubAct} {outcome : Effect Sub SubAct ncpu} (notExit : act ≠ .exitSched)
      (table : kern.OnlyStatus outcome.shared) (switch : outcome.switch = none)
      (spawn : outcome.spawn = none) (plain : ∀ instr ∈ outcome.push, Plain instr) :
      TableStep kern cpu thread act outcome

section Exec

variable {sub : Subsystem Sub SubAct SubEntry SubIntr} {act : Act SubAct} {cpu : Fin ncpu}
  {thread : Thread ncpu} {curproc : Slot} {choice : ℕ} {kern : Kern Sub}
  {outcome : Effect Sub SubAct ncpu}

theorem plain_sleep {chan : Chan} {lk : Lock} (notProc : ∀ slot, chan ≠ .proc slot) :
    ∀ instr ∈ (sleep chan lk : Code Lock (Act SubAct)), Plain instr := by
  cases chan with
  | proc slot => exact absurd rfl (notProc slot)
  | _ =>
      unfold sleep
      split <;> simp [Plain]

theorem plain_changeQueue {pid queue : ℤ} :
    ∀ instr ∈ (changeQueue pid queue : Code Lock (Act SubAct)), Plain instr := by
  unfold changeQueue
  split <;> simp [Plain]

theorem tableStep_exec (executed : exec sub act cpu thread choice kern = some outcome)
    (notSub : ∀ subAct, act ≠ .sub subAct) : TableStep kern cpu thread act outcome := by
  cases does_exec executed notSub with
  | claim unused => exact .claim unused
  | noStack empty => exact .noStack empty
  | stack free => exact .stack free
  | copied isCopied => exact .copied rfl
  | notCopied failed => exact .notCopied
  | start => exact .start
  | exit notInit => exact .exit rfl notInit
  | reap isChild zombie => exact .reap rfl isChild zombie
  | wait isChild noZombie => exact .wait rfl isChild noZombie
  | sleep => exact .sleep rfl
  | clear => exact .clear rfl
  | yield => exact .yield rfl
  | kill => exact .kill
  | wakeup => exact .wakeup
  | pick isChoice runnable => exact .pick rfl runnable
  | stamp =>
      refine .other (by simp) ?_ rfl rfl (by simp)
      exact Kern.onlyStatus_modify fun proc => ⟨_, rfl⟩
  | setQueue sets | setParams sets | setPriority sets =>
      cases sets with
      | missing => exact .other (by simp) .refl rfl rfl (by simp)
      | found isFirst =>
          exact .other (by simp) (Kern.onlyStatus_modify fun proc => ⟨_, rfl⟩) rfl rfl (by simp)
  | setSystem => exact .other (by simp) ⟨fun _ => ⟨_, rfl⟩, rfl, rfl, rfl⟩ rfl rfl (by simp)
  | queue | ageQueue =>
      refine .other (by simp) .refl rfl rfl ?_
      dsimp only
      exact plain_changeQueue
  | sleepsOn early alive | otherSleeps =>
      refine .other (by simp) .refl rfl rfl ?_
      simp only [List.forall_mem_append]
      exact ⟨plain_sleep (by simp), by simp [Plain]⟩
  | _ =>
      exact .other (by simp) ⟨fun _ => ⟨_, rfl⟩, rfl, rfl, rfl⟩ rfl rfl
        (by simp [Plain, Xv6.wakeup, ageprocs, scheduler])

end Exec

/-! ## Subsystems that leave the table alone -/

/-- The subsystem changes no table entry and calls neither `fork` nor `exit` nor `wait`. -/
structure SubPlain (sub : Subsystem Sub SubAct SubEntry SubIntr) : Prop where
  entry : ∀ entry, ∀ instr ∈ sub.entry entry, Plain instr
  intr : ∀ intr, ∀ instr ∈ sub.intr intr, Plain instr
  exec : ∀ {ncpu : ℕ} (act : SubAct) (thread : Thread ncpu) (choice : ℕ) (kern : Kern Sub)
    (result : Kern Sub × Code Lock (Act SubAct)), sub.exec act thread choice kern = some result →
    result.1.proc = kern.proc ∧ result.1.initproc = kern.initproc ∧
      result.1.nextpid = kern.nextpid ∧ ∀ instr ∈ result.2, Plain instr

theorem SubPlain.wakesSleepers {sub : Subsystem Sub SubAct SubEntry SubIntr}
    (plain : SubPlain sub) {state : Machine Sub SubAct ncpu} {cpu : Fin ncpu} {choice : ℕ} :
    WakesSleepers sub state cpu choice := by
  intro act rest result _ ran
  exact Kern.quiet_of_proc (plain.exec act _ choice _ result ran).1

/-! ## Code at the end of a life -/

/-- Behind `exit` there is only the panic that is never reached. -/
def EndsInExit (code : Code Lock (Act SubAct)) : Prop :=
  ∀ before rest, code = before ++ .act .exitSched :: rest → rest = [.act .zombieExit]

namespace EndsInExit

variable {code rest : Code Lock (Act SubAct)}

theorem tail {instr : Instr Lock (Act SubAct)} (ends : EndsInExit (instr :: rest)) :
    EndsInExit rest := by
  rintro before after rfl
  exact ends (instr :: before) after rfl

theorem of_notMem (unmarked : .act .exitSched ∉ code) : EndsInExit code := by
  rintro before rest rfl
  simp at unmarked

theorem append {first : Code Lock (Act SubAct)} (unmarked : .act .exitSched ∉ first)
    (ends : EndsInExit rest) : EndsInExit (first ++ rest) := by
  induction first with
  | nil => exact ends
  | cons instr first ih =>
      simp only [List.mem_cons, not_or] at unmarked
      intro before after codeIs
      rcases List.cons_eq_append_iff.mp codeIs with ⟨rfl, headIs⟩ | ⟨middle, rfl, restIs⟩
      · cases headIs
        exact absurd rfl unmarked.1
      · exact ih unmarked.2 middle after restIs

end EndsInExit

/-- The process does not run any more, or not yet. -/
def Proc.Dead (proc : Proc) : Prop :=
  proc.state = .unused ∨ proc.state = .embryo ∨ proc.state = .zombie

/-- The instructions of a dead process: the end of `exit`, or the beginning of `forkret`. -/
def DeadInstr (instr : Instr Lock (Act SubAct)) : Prop :=
  instr = .act .zombieExit ∨ instr = .release .ptable

/-- Lock discipline, process table, and the code of dead processes. -/
structure LifeInv (locking : SubLocking SubAct) (allowed : Lock → Lock → Prop)
    (state : Machine Sub SubAct ncpu) : Prop where
  core : CoreInv locking allowed state
  exits : ∀ thread, EndsInExit (state.code thread)
  dead : ∀ slot, (state.shared.proc slot).Dead →
    ∀ instr ∈ state.code (.proc slot), DeadInstr instr

section Step

variable {sub : Subsystem Sub SubAct SubEntry SubIntr} {locking : SubLocking SubAct}
  {allowed : Lock → Lock → Prop} {state next : Machine Sub SubAct ncpu}
  {label : Label (Fin ncpu) (Entry SubEntry) (Intr SubIntr)} {cpu : Fin ncpu} {choice : ℕ}
  {act : Act SubAct} {rest : Code Lock (Act SubAct)} {outcome : Effect Sub SubAct ncpu}

/-- An act of a plain subsystem changes nothing of the table but scheduling data, except the
free pages. -/
theorem exec_sub_plain {subAct : SubAct} {thread : Thread ncpu} {kern : Kern Sub}
    (plain : SubPlain sub)
    (executed : exec sub (.sub subAct) cpu thread choice kern = some outcome) :
    outcome.shared.proc = kern.proc ∧ outcome.shared.initproc = kern.initproc ∧
      outcome.shared.nextpid = kern.nextpid ∧ outcome.switch = none ∧ outcome.spawn = none ∧
      ∀ instr ∈ outcome.push, Plain instr := by
  simp only [exec, Option.map_eq_some_iff] at executed
  rcases executed with ⟨result, ran, rfl⟩
  rcases plain.exec subAct thread choice kern result ran with ⟨table, init, pid, plainPush⟩
  exact ⟨table, init, pid, rfl, rfl, plainPush⟩

theorem exec_ends {thread : Thread ncpu} {kern : Kern Sub} (plain : SubPlain sub)
    (executed : exec sub act cpu thread choice kern = some outcome) :
    .act .exitSched ∉ outcome.push ∧
      ∀ new code, outcome.spawn = some (new, code) → code = forkret := by
  rcases act.sub_or_not with ⟨subAct, rfl⟩ | notSub
  · rcases exec_sub_plain plain executed with ⟨_, _, _, _, spawn, plainPush⟩
    refine ⟨plainPush _, ?_⟩
    intro new code spawned
    rw [spawn] at spawned
    contradiction
  · refine ⟨?_, ?_⟩
    · cases tableStep_exec executed notSub with
      | other _ _ _ _ plainPush => exact plainPush _
      | _ => simp [sleep, scheduler]
    · intro new code spawned
      exact ((staysOut_exec executed notSub).spawn new code spawned).1

theorem exitSched_entry (plain : SubPlain sub) {entry : Entry SubEntry} :
    EndsInExit (entryCode sub entry) := by
  cases entry with
  | exit =>
      intro before rest codeIs
      simp only [entryCode, exit] at codeIs
      rcases before with _ | ⟨first, _ | ⟨second, _ | ⟨third, before⟩⟩⟩ <;>
        simp_all
  | sub entry => exact .of_notMem (plain.entry entry _)
  | changeQueue pid queue => exact .of_notMem (plain_changeQueue _)
  | _ =>
      apply EndsInExit.of_notMem
      simp [entryCode, fork, wait, kill, sysSleep, setBjfParamsProcess, setBjfParamsSystem,
        setBjfPriority, sleepOther, wakeup]

theorem exitSched_intr (plain : SubPlain sub) {intr : Intr SubIntr} {thread : Thread ncpu}
    {code : Code Lock (Act SubAct)} (handled : (kernel sub ncpu).intr intr cpu thread = some code) :
    .act .exitSched ∉ code := by
  rcases kernel_intr_cases handled with ⟨_, rfl⟩ | rfl | ⟨subIntr, rfl⟩
  · simp [timer]
  · simp [yield]
  · simp only [List.mem_append, List.mem_singleton, not_or]
    exact ⟨plain.intr subIntr _, by simp⟩

theorem Kern.exit_proc_of_ne {kern : Kern Sub} {curproc slot : Slot} (different : slot ≠ curproc) :
    (kern.exit curproc).proc slot =
      (((kern.wakeup1 ((kern.proc curproc).parent.map .proc)).reparent curproc).proc slot) :=
  Kern.setState_proc_of_ne different

theorem TableStep.dead {kern : Kern Sub} {thread : Thread ncpu} {slot : Slot}
    (step : TableStep kern cpu thread act outcome)
    (embryo : ∀ np, forkSite (.act act) = some (some np) → (kern.proc np).state = .embryo)
    (dead : (outcome.shared.proc slot).Dead) :
    (kern.proc slot).Dead ∨ act = .exitSched ∧ thread = .proc slot := by
  have unchanged : ∀ {after : Kern Sub}, kern.QuietAt after slot → (after.proc slot).Dead →
      (kern.proc slot).Dead := by
    intro after quietly deadAfter
    simp only [Kern.QuietAt, Proc.Dead] at quietly deadAfter ⊢
    grind
  cases step with
  | @claim np unused =>
      left
      by_cases same : slot = np
      · rw [same]
        exact Or.inl unused
      · simpa [Kern.modify, same] using dead
  | @noStack np | @stack np | @notCopied np | @copied np =>
      left
      by_cases same : slot = np
      · rw [same]
        exact Or.inr (Or.inl (embryo np rfl))
      · simpa [Kern.setState, Kern.modify, same] using dead
  | @start np =>
      left
      by_cases same : slot = np
      · rw [same] at dead
        simp [Proc.Dead] at dead
      · rwa [Kern.setState_proc_of_ne same] at dead
  | @exit curproc onCpu notInit =>
      by_cases same : slot = curproc
      · right
        rw [same]
        exact ⟨rfl, onCpu⟩
      · left
        rw [Kern.exit_proc_of_ne same] at dead
        exact unchanged (((Kern.quiet_wakeup1 _).trans (Kern.quiet_reparent curproc)) slot) dead
  | @reap curproc child onCpu parent zombie =>
      left
      exact unchanged (Kern.quiet_reap zombie slot) dead
  | wait => exact Or.inl dead
  | @sleep curproc chan onCpu | @yield curproc onCpu =>
      left
      by_cases same : slot = curproc
      · rw [same] at dead
        simp [Proc.Dead, Kern.sleepOn] at dead
      · simpa [Kern.sleepOn, Kern.setState, Kern.modify_proc_of_ne _ same] using dead
  | @clear curproc onCpu =>
      left
      have keeps : kern.Quiet (kern.modify curproc fun proc => { proc with chan := none }) :=
        Kern.quiet_modify rfl
      exact unchanged (keeps slot) dead
  | @pick picked own onScheduler runnable =>
      left
      by_cases same : slot = picked
      · rw [same] at dead
        simp [Proc.Dead] at dead
      · rwa [Kern.modify_proc_of_ne _ same] at dead
  | kill => exact Or.inl (unchanged (Kern.quiet_kill _ slot) dead)
  | wakeup => exact Or.inl (unchanged (Kern.quiet_wakeup1 _ slot) dead)
  | other _ table _ _ _ =>
      left
      rwa [Proc.Dead, table.sameState slot] at dead

namespace Kern

variable {kern after : Kern Sub} {slot : Slot} {chan : Chan}

theorem AsleepOn.of_wakeup1 {woken : Option Chan} (asleep : (kern.wakeup1 woken).AsleepOn slot chan) :
    kern.AsleepOn slot chan := by
  simp only [AsleepOn, wakeup1] at asleep ⊢
  split at asleep
  · simp at asleep
  · exact asleep

theorem AsleepOn.of_exit {curproc : Slot} (asleep : (kern.exit curproc).AsleepOn slot chan) :
    kern.AsleepOn slot chan := by
  by_cases same : slot = curproc
  · subst slot
    simp [AsleepOn, exit] at asleep
  · have before : ((kern.wakeup1 ((kern.proc curproc).parent.map .proc)).reparent
        curproc).AsleepOn slot chan := by
      simpa only [AsleepOn, exit_proc_of_ne same] using asleep
    apply AsleepOn.of_wakeup1
    unfold reparent at before
    split at before
    · exact (sleepSame_adopt curproc slot).mp before.of_wakeup1
    · exact (sleepSame_adopt curproc slot).mp before

theorem AsleepOn.of_kill {pid : ℤ} (asleep : (kern.kill pid).AsleepOn slot chan) :
    kern.AsleepOn slot chan := by
  unfold kill at asleep
  split at asleep
  · exact asleep
  · rename_i found _
    by_cases same : slot = found
    · subst slot
      simp only [AsleepOn, modify_proc_self] at asleep ⊢
      split at asleep
      · simp at asleep
      · exact asleep
    · simpa only [AsleepOn, modify_proc_of_ne _ same] using asleep

theorem AsleepOn.of_update {changed : Slot} {proc : Proc}
    (table : after.proc = update kern.proc changed proc)
    (here : proc.state = .sleeping → proc.chan = some chan → kern.AsleepOn changed chan)
    (asleep : after.AsleepOn slot chan) : kern.AsleepOn slot chan := by
  simp only [AsleepOn, table] at asleep
  by_cases same : slot = changed
  · subst slot
    rw [update_self] at asleep
    exact here asleep.1 asleep.2
  · rw [update_of_ne same] at asleep
    exact asleep

end Kern

theorem TableStep.asleep {kern : Kern Sub} {thread : Thread ncpu} {slot : Slot} {chan : Chan}
    (step : TableStep kern cpu thread act outcome) (asleep : outcome.shared.AsleepOn slot chan) :
    kern.AsleepOn slot chan ∨ act = .sleepSched chan ∧ thread = .proc slot := by
  cases step with
  | @sleep curproc other onCpu =>
      by_cases same : slot = curproc
      · subst slot
        right
        rw [Kern.asleepOn_sleepOn_self] at asleep
        exact ⟨by rw [asleep], onCpu⟩
      · left
        rwa [Kern.asleepOn_sleepOn_of_ne same] at asleep
  | exit => exact Or.inl asleep.of_exit
  | kill => exact Or.inl asleep.of_kill
  | wakeup => exact Or.inl asleep.of_wakeup1
  | wait => exact Or.inl asleep
  | other _ table _ _ _ =>
      left
      rcases table.proc slot with ⟨status, procIs⟩
      simpa only [Kern.AsleepOn, procIs] using asleep
  | claim | noStack | notCopied | start | yield | pick | reap | clear =>
      left
      refine Kern.AsleepOn.of_update rfl ?_ asleep
      simp
  | stack | copied =>
      left
      refine Kern.AsleepOn.of_update rfl ?_ asleep
      exact fun isAsleep onChan => ⟨isAsleep, onChan⟩

theorem CoreInv.not_cur_of_dead {slot : Slot} (core : CoreInv locking allowed state)
    (dead : (state.shared.proc slot).Dead) : Thread.proc slot ≠ state.cur cpu := by
  intro isCur
  have running := core.procs.running cpu slot isCur.symm
  simp [Proc.Dead, running] at dead

theorem CoreInv.embryo_of_head (core : CoreInv locking allowed state)
    (head : state.running cpu = .act act :: rest) {np : Slot}
    (site : forkSite (.act act) = some (some np)) : (state.shared.proc np).state = .embryo := by
  apply core.procs.embryo (state.cur cpu)
  rw [← State.running, head]
  simp [forkSites, site]

theorem apply_cur_of_ne {other : Fin ncpu} (different : other ≠ cpu) :
    (state.apply cpu (state.cur cpu) rest outcome).cur other = state.cur other := by
  cases switched : outcome.switch <;> simp [State.apply, switched, different]

/-- The code of the threads after an act: the thread at hand goes on with what the act has put
in front, and a new process starts in `forkret`. -/
theorem CoreInv.apply_code (core : CoreInv locking allowed state)
    (head : state.running cpu = .act act :: rest)
    (executed : exec sub act cpu (state.cur cpu) choice state.shared = some outcome) :
    (state.apply cpu (state.cur cpu) rest outcome).code (state.cur cpu) = outcome.push ++ rest ∧
      ∀ thread, thread ≠ state.cur cpu →
        (state.apply cpu (state.cur cpu) rest outcome).code thread = state.code thread ∨
        (state.apply cpu (state.cur cpu) rest outcome).code thread = forkret ∧
          ∃ np, thread = .proc np ∧ (state.shared.proc np).state = .embryo := by
  cases spawned : outcome.spawn with
  | none =>
      refine ⟨by simp [State.apply, spawned], ?_⟩
      intro thread different
      left
      simp [State.apply, spawned, update_of_ne different]
  | some new =>
      have notSub : ∀ subAct, act ≠ .sub subAct := by
        rintro subAct rfl
        simp only [exec, Option.map_eq_some_iff] at executed
        rcases executed with ⟨result, _, rfl⟩
        simp at spawned
      rcases new with ⟨spawnedThread, code⟩
      rcases (staysOut_exec executed notSub).spawn _ _ spawned with ⟨rfl, np, rfl, rfl⟩
      have embryo : (state.shared.proc np).state = .embryo := core.embryo_of_head head rfl
      have notSelf : Thread.proc np ≠ state.cur cpu :=
        core.not_cur_of_dead (Or.inr (Or.inl embryo))
      refine ⟨by simp [State.apply, spawned, update_of_ne notSelf.symm], ?_⟩
      intro thread different
      by_cases isNp : thread = .proc np
      · right
        subst isNp
        exact ⟨by simp [State.apply, spawned], np, rfl, embryo⟩
      · left
        simp [State.apply, spawned, update_of_ne isNp, update_of_ne different]

theorem LifeInv.dead_act (plain : SubPlain sub) (inv : LifeInv locking allowed state)
    (head : state.running cpu = .act act :: rest)
    (executed : exec sub act cpu (state.cur cpu) choice state.shared = some outcome) (slot : Slot)
    (dead : (outcome.shared.proc slot).Dead) :
    ∀ instr ∈ (state.apply cpu (state.cur cpu) rest outcome).code (.proc slot),
      DeadInstr instr := by
  have before : (state.shared.proc slot).Dead ∨
      act = .exitSched ∧ state.cur cpu = .proc slot := by
    rcases act.sub_or_not with ⟨subAct, rfl⟩ | notSub
    · rw [(exec_sub_plain plain executed).1] at dead
      exact Or.inl dead
    · exact (tableStep_exec executed notSub).dead
        (fun np site => inv.core.embryo_of_head head site) dead
  rcases inv.core.apply_code head executed with ⟨here, elsewhere⟩
  rcases before with wasDead | ⟨rfl, isCur⟩
  · rcases elsewhere _ (inv.core.not_cur_of_dead wasDead) with same | ⟨isForkret, _⟩
    · rw [same]
      exact inv.dead slot wasDead
    · rw [isForkret]
      simp [forkret, DeadInstr]
  · -- the process has just made its `exit`
    have ends := inv.exits (state.cur cpu)
    rw [← State.running, head] at ends
    have restIs := ends [] rest rfl
    rw [← isCur, here, restIs]
    cases tableStep_exec executed (by simp) with
    | exit onCpu notInit => simp [DeadInstr]
    | other notExit _ _ _ _ => exact absurd rfl notExit

theorem LifeInv.step [DecidableEq SubAct] (laws : SubLaws sub locking) (plain : SubPlain sub)
    (inv : LifeInv locking allowed state)
    (stepped : (kernel sub ncpu).step state label = some next)
    (nests : NestsAllowed sub locking allowed state label) : LifeInv locking allowed next where
  core := inv.core.step laws stepped (fun _ _ _ => plain.wakesSleepers) nests
  exits := by
    apply Program.code_step (fun _ => EndsInExit) inv.exits stepped
    · intro thread instr rest _ ends
      exact ends.tail
    · intro _ entry thread code _ entered
      rcases kernel_entry entered with ⟨slot, rfl, rfl⟩
      exact exitSched_entry plain
    · intro intr cpu code _ handled
      exact .append (exitSched_intr plain handled) (inv.exits _)
    · intro cpu choice act rest outcome _ head executed
      have ends := inv.exits (state.cur cpu)
      rw [← State.running, head] at ends
      rcases exec_ends plain executed with ⟨push, spawn⟩
      refine ⟨.append push ends.tail, ?_⟩
      intro thread code spawned
      rw [spawn thread code spawned]
      exact .of_notMem (by simp [forkret])
  dead := by
    cases Program.step_cases stepped with
    | @act cpu choice act rest outcome head executed =>
        exact fun slot dead => inv.dead_act plain head executed slot dead
    | _ =>
        intro slot dead
        dsimp only at dead ⊢
        rw [update_of_ne (inv.core.not_cur_of_dead dead)]
        exact inv.dead slot dead

theorem lifeInv_boot {freePages : List ℕ} {start : Sub} :
    LifeInv locking allowed (boot ncpu freePages start : Machine Sub SubAct ncpu) where
  core := coreInv_boot
  exits := by
    intro thread
    apply EndsInExit.of_notMem
    cases thread with
    | scheduler own => simp [boot, scheduler]
    | proc slot => by_cases isInit : slot = 0 <;> simp [boot, isInit, forkret]
  dead := by
    intro slot _
    by_cases isInit : slot = 0 <;> simp [boot, isInit, forkret, DeadInstr]

end Step

end Xv6
