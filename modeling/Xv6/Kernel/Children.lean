import Xv6.Kernel.History
import Xv6.Kernel.Stacks

/-!
# Parents that wait

A process sleeps in `wait` only while it has children and none of them is a zombie: `exit`
wakes the parent, and init if it inherits a zombie. Between the scan of the table and the sleep
`ptable.lock` is held, and the acts that run without it make no zombies.
-/

namespace Xv6

open Threads Transition

variable {Sub SubAct SubEntry SubIntr : Type} {ncpu : ℕ}

structure Kern.Expects (kern : Kern Sub) (slot : Slot) : Prop where
  child : ∃ child, (kern.proc child).parent = some slot
  noZombie : ∀ child, (kern.proc child).parent = some slot → (kern.proc child).state ≠ .zombie

/-- Nobody is the parent of init, or of itself. -/
structure Kern.Rooted (kern : Kern Sub) : Prop where
  root : (kern.proc kern.initproc).parent = none
  own : ∀ slot, (kern.proc slot).parent ≠ some slot

section Table

variable {kern after : Kern Sub} {thread : Thread ncpu} {cpu : Fin ncpu} {act : Act SubAct}
  {slot curproc : Slot} {outcome : Effect Sub SubAct ncpu}

theorem Kern.Rooted.step (rooted : kern.Rooted) (init : after.initproc = kern.initproc)
    (family : kern.Family) (slots : ∀ slot, SlotStep kern after thread act slot)
    (running : ∀ curproc, thread = .proc curproc → (kern.proc curproc).state = .running) :
    after.Rooted := by
  refine ⟨?_, ?_⟩
  · rw [init]
    have alive := family.init
    cases slots kern.initproc with
    | made isAct onCpu embryo isNow => exact absurd (Or.inr (Or.inl embryo)) alive.not_dead
    | handed isAct onCpu different child woken isNow => simp [rooted.root] at child
    | kept pid parent killed state => rw [parent, rooted.root]
    | claimed _ _ isNow | dropped _ _ isNow | started _ _ isNow | exited _ _ _ isNow
    | reaped _ _ _ _ isNow | killed _ _ _ isNow => simp [isNow, rooted.root]
  · intro slot
    have own := rooted.own slot
    cases slots slot with
    | @made curproc isAct onCpu embryo isNow =>
        rw [isNow]
        intro same
        cases same
        simp [running slot onCpu] at embryo
    | handed isAct onCpu different child woken isNow =>
        rw [isNow]
        intro same
        cases same
        simp [rooted.root] at child
    | kept pid parent killed state =>
        rw [parent]
        exact own
    | claimed _ _ isNow | dropped _ _ isNow | started _ _ isNow | exited _ _ _ isNow
    | reaped _ _ _ _ isNow | killed _ _ _ isNow => simp [isNow, own]

namespace Kern.Expects

theorem of_proc (expects : kern.Expects slot) (proc : after.proc = kern.proc) :
    after.Expects slot := by
  refine ⟨?_, ?_⟩
  · rw [proc]
    exact expects.child
  · rw [proc]
    exact expects.noZombie

/-- The other processes do not change what a waiting process waits for, apart from `exit`. -/
theorem step (expects : kern.Expects slot) (slots : ∀ slot, SlotStep kern after thread act slot)
    (site : kern.Site (.act act)) (notExit : act ≠ .exitSched)
    (notSelf : thread = .proc slot → ∃ chan, act = .sleepSched chan) : after.Expects slot := by
  have other : ∀ {curproc : Slot}, thread = .proc curproc → (∀ chan, act ≠ .sleepSched chan) →
      curproc ≠ slot := by
    rintro curproc onCpu notSleep rfl
    rcases notSelf onCpu with ⟨chan, isSleep⟩
    exact notSleep chan isSleep
  refine ⟨?_, ?_⟩
  · rcases expects.child with ⟨child, isChild⟩
    refine ⟨child, ?_⟩
    cases slots child with
    | made isAct onCpu embryo isNow =>
        subst isAct
        have noParent : (kern.proc child).parent = none := site.1
        simp [noParent] at isChild
    | reaped isAct onCpu isParent zombie isNow =>
        rw [isChild] at isParent
        cases isParent
        exact absurd rfl (other onCpu (by simp [isAct]))
    | exited isAct | handed isAct => exact absurd isAct notExit
    | kept pid parent killed state => rw [parent, isChild]
    | claimed _ _ isNow | dropped _ _ isNow | started _ _ isNow | killed _ _ _ isNow =>
        rw [isNow, isChild]
  · intro child isChild isZombie
    rcases (slots child).zombie isZombie with ⟨_, wasZombie | ⟨isExit, _⟩⟩
    · apply expects.noZombie child _ wasZombie
      cases slots child with
      | made isAct onCpu embryo isNow => simp [wasZombie] at embryo
      | exited isAct | handed isAct => exact absurd isAct notExit
      | kept pid parent killed state => rw [← parent, isChild]
      | claimed _ _ isNow | dropped _ _ isNow | started _ _ isNow | reaped _ _ _ _ isNow =>
          simp [isNow] at isZombie
      | killed _ _ _ isNow =>
          rw [isNow] at isChild
          exact isChild
    · exact notExit isExit

theorem not_asleepOn_wakeup1 {chan : Chan} : ¬(kern.wakeup1 (some chan)).AsleepOn slot chan := by
  rintro ⟨asleep, onChan⟩
  simp only [Kern.wakeup1] at asleep onChan
  split at asleep
  · simp at asleep
  · rename_i notWoken
    rw [if_neg notWoken] at onChan
    exact notWoken ⟨asleep, onChan⟩

theorem asleep_exit (asleep : (kern.exit curproc).AsleepOn slot (.proc slot)) :
    (kern.proc curproc).parent ≠ some slot ∧
      (slot = kern.initproc → ∀ child, (kern.proc child).parent = some curproc →
        (kern.proc child).state ≠ .zombie) := by
  have different : slot ≠ curproc := by
    rintro rfl
    simp [Kern.AsleepOn, Kern.exit] at asleep
  have reparented : ((kern.wakeup1 ((kern.proc curproc).parent.map .proc)).reparent
      curproc).AsleepOn slot (.proc slot) := by
    simpa only [Kern.AsleepOn, Kern.exit_proc_of_ne different] using asleep
  unfold Kern.reparent at reparented
  refine ⟨?_, ?_⟩
  · intro isParent
    apply @not_asleepOn_wakeup1 _ kern slot (.proc slot)
    rw [isParent] at reparented
    split at reparented
    · exact (Kern.sleepSame_adopt curproc slot).mp reparented.of_wakeup1
    · exact (Kern.sleepSame_adopt curproc slot).mp reparented
  · rintro rfl child isChild isZombie
    have inherits : ∃ heir, ((kern.wakeup1 ((kern.proc curproc).parent.map .proc)).proc
        heir).parent = some curproc ∧ ((kern.wakeup1 ((kern.proc curproc).parent.map .proc)).proc
        heir).state = .zombie := by
      refine ⟨child, ?_⟩
      simp [Kern.wakeup1, isZombie, isChild]
    rw [if_pos inherits] at reparented
    exact not_asleepOn_wakeup1 reparented

theorem exit (expects : kern.Expects slot) (rooted : kern.Rooted)
    (slots : ∀ slot, SlotStep kern (kern.exit curproc) (.proc curproc : Thread ncpu)
      (.exitSched : Act SubAct) slot)
    (asleep : (kern.exit curproc).AsleepOn slot (.proc slot)) : (kern.exit curproc).Expects slot := by
  rcases asleep_exit asleep with ⟨notParent, noHeir⟩
  have different : slot ≠ curproc := by
    rintro rfl
    simp [Kern.AsleepOn, Kern.exit] at asleep
  refine ⟨?_, ?_⟩
  · rcases expects.child with ⟨child, isChild⟩
    refine ⟨child, ?_⟩
    rcases kern.exit_spec curproc child with ⟨state, isNow, _⟩
    simp [isNow, isChild, different]
  · intro child isChild isZombie
    cases slots child with
    | exited isAct onCpu running isNow =>
        cases onCpu
        rw [isNow, if_neg (rooted.own _)] at isChild
        exact notParent isChild
    | @handed parent state isAct onCpu other wasChild woken isNow =>
        cases onCpu
        rw [isNow] at isChild isZombie
        cases isChild
        rcases woken with same | ⟨_, isRunnable⟩
        · exact noHeir rfl child wasChild (same.symm.trans isZombie)
        · simp [isRunnable] at isZombie
    | kept pid parent killed state =>
        rw [parent] at isChild
        rcases state with same | ⟨alive, _⟩
        · exact expects.noZombie child isChild (same.symm.trans isZombie)
        · exact alive.not_dead (Or.inr (Or.inr isZombie))
    | claimed isAct | made isAct | reaped isAct | killed isAct => cases isAct
    | dropped _ _ isNow | started _ _ isNow => simp [isNow] at isZombie

end Kern.Expects

end Table

abbrev fallsInWait (p : Slot) : Instr Lock (Act SubAct) := .act (.sleepSched (.proc p))

/-- The thread has scanned the table in `wait` and has nothing left to do before it sleeps. -/
structure AtWait (state : Machine Sub SubAct ncpu) (thread : Thread ncpu) (p : Slot) : Prop where
  own : thread = .proc p
  onCpu : ∃ cpu, state.cur cpu = thread
  code : ∃ rest, state.code thread = fallsInWait p :: rest ∧ ∀ q, fallsInWait q ∉ rest
  expects : state.shared.Expects p

structure WaitInv (state : Machine Sub SubAct ncpu) : Prop where
  rooted : state.shared.Rooted
  form : ∀ thread p, fallsInWait p ∈ state.code thread → AtWait state thread p
  asleep : ∀ slot, state.shared.AsleepOn slot (.proc slot) → state.shared.Expects slot

section Step

variable {sub : Subsystem Sub SubAct SubEntry SubIntr} {locking : SubLocking SubAct}
  {allowed : Lock → Lock → Prop} {state next : Machine Sub SubAct ncpu} {cpu : Fin ncpu}
  {label : Label (Fin ncpu) (Entry SubEntry) (Intr SubIntr)} {act : Act SubAct} {choice : ℕ}
  {rest code : Code Lock (Act SubAct)} {outcome : Effect Sub SubAct ncpu} {thread : Thread ncpu}
  {p : Slot}

theorem CoreInv.owner_ptable (core : CoreInv locking allowed state)
    (head : state.running cpu = .act act :: rest)
    (needs : ∀ held, act.needs locking.needs held → .ptable ∈ held) :
    state.owner .ptable = some cpu := by
  rcases core.tracked.current cpu with ⟨held, holds, obeys⟩
  rw [head] at obeys
  exact (holds.mem _).mp (needs held obeys.runs.1)

theorem AtWait.owner (atWait : AtWait state (state.cur cpu) p)
    (core : CoreInv locking allowed state) : state.owner .ptable = some cpu := by
  rcases atWait.code with ⟨rest, head, _⟩
  apply core.owner_ptable head
  intro held needs
  have heldIs : held = {.ptable} := needs
  simp [heldIs]

theorem AtWait.locked (atWait : AtWait state (state.cur cpu) p)
    (core : CoreInv locking allowed state) : state.ncli cpu ≠ 0 := by
  intro unlocked
  rcases core.tracked.current cpu with ⟨held, holds, _⟩
  have mem := (holds.mem .ptable).mpr (atWait.owner core)
  simp [holds.eq_empty unlocked] at mem

namespace WaitInv

theorem notMem_rest {instr : Instr Lock (Act SubAct)} (inv : WaitInv state)
    (head : state.running cpu = instr :: rest) : fallsInWait p ∉ rest := by
  intro mem
  rcases (inv.form _ p (State.mem_rest head mem)).code with ⟨after, codeIs, last⟩
  rw [← State.running, head] at codeIs
  cases codeIs
  exact last p mem

theorem of_code (inv : WaitInv state) (shared : next.shared = state.shared)
    (cur : next.cur = state.cur)
    (codeIs : next.code = Function.update state.code (state.cur cpu) code)
    (awake : ∀ p, fallsInWait p ∉ code) : WaitInv next := by
  refine ⟨?_, ?_, ?_⟩
  · rw [shared]
    exact inv.rooted
  · intro thread p mem
    rw [codeIs] at mem
    by_cases same : thread = state.cur cpu
    · rw [same, Function.update_self] at mem
      exact absurd mem (awake p)
    · rw [Function.update_of_ne same] at mem
      have atWait := inv.form thread p mem
      refine ⟨atWait.own, ?_, ?_, ?_⟩
      · rw [cur]
        exact atWait.onCpu
      · rw [codeIs, Function.update_of_ne same]
        exact atWait.code
      · rw [shared]
        exact atWait.expects
  · rw [shared]
    exact inv.asleep

theorem notMem_entry (plain : SubPlain sub) {entry : Entry SubEntry} :
    fallsInWait p ∉ entryCode sub entry := by
  cases entry with
  | sub entry => exact plain.entry entry _
  | changeQueue pid queue => exact plain_changeQueue _
  | _ => simp [entryCode, fork, exit, wait, kill, sysSleep, setBjfParamsProcess, setBjfParamsSystem,
      setBjfPriority, sleepOther, wakeup]

theorem notMem_intr (plain : SubPlain sub) {intr : Intr SubIntr}
    (handled : (kernel sub ncpu).intr intr cpu thread = some code) : fallsInWait p ∉ code := by
  rcases kernel_intr_cases handled with ⟨_, rfl⟩ | rfl | ⟨subIntr, rfl⟩
  · simp [timer]
  · simp [yield]
  · simp only [List.mem_append, List.mem_singleton, not_or]
    exact ⟨plain.intr subIntr _, by simp⟩

section Act

variable (plain : SubPlain sub) (tree : FamilyInv locking allowed state)
  (head : state.running cpu = .act act :: rest)
  (executed : exec sub act cpu (state.cur cpu) choice state.shared = some outcome)

include plain executed

theorem push_falls (mem : fallsInWait p ∈ outcome.push) :
    state.cur cpu = .proc p ∧ state.shared.Expects p ∧ outcome.shared = state.shared ∧
      outcome.switch = none ∧
      outcome.push = fallsInWait p :: [.act .clearChan, .act .waitScan] := by
  rcases act.sub_or_not with ⟨subAct, rfl⟩ | notSub
  · rcases exec_sub_plain plain executed with ⟨_, _, _, _, _, plainPush⟩
    exact (plainPush _ mem).elim
  · cases tableStep_exec executed notSub with
    | @wait curproc child onCpu isChild noZombie =>
        have same : p = curproc := by simpa [sleep] using mem
        subst same
        exact ⟨onCpu, ⟨⟨child, isChild⟩, noZombie⟩, rfl, rfl, rfl⟩
    | other _ _ _ _ plainPush => exact (plainPush _ mem).elim
    | _ => simp [scheduler] at mem

include tree head

theorem expects_act {slot : Slot} (expects : state.shared.Expects slot)
    (notExit : act ≠ .exitSched)
    (notSelf : state.cur cpu = .proc slot → ∃ chan, act = .sleepSched chan) :
    outcome.shared.Expects slot := by
  rcases act.sub_or_not with ⟨subAct, rfl⟩ | notSub
  · exact expects.of_proc (exec_sub_plain plain executed).1
  · apply expects.step (tree.life.core.slotStep head executed notSub) _
      notExit notSelf
    exact tree.sites _ _ (State.mem_head head)

theorem rooted_act (inv : WaitInv state) : outcome.shared.Rooted := by
  rcases act.sub_or_not with ⟨subAct, rfl⟩ | notSub
  · rcases exec_sub_plain plain executed with ⟨proc, init, _⟩
    refine ⟨?_, ?_⟩
    · rw [proc, init]
      exact inv.rooted.root
    · rw [proc]
      exact inv.rooted.own
  · apply inv.rooted.step (tableStep_exec executed notSub).initproc tree.family
      (tree.life.core.slotStep head executed notSub)
    exact fun curproc onCpu => tree.life.core.procs.running cpu curproc onCpu

theorem atWait_elsewhere (atWait : AtWait state thread p) (elsewhere : thread ≠ state.cur cpu) :
    AtWait (state.apply cpu (state.cur cpu) rest outcome) thread p := by
  have core := tree.life.core
  rcases atWait.onCpu with ⟨other, onOther⟩
  have different : other ≠ cpu := by
    rintro rfl
    exact elsewhere onOther.symm
  have owned : state.owner .ptable = some other := by
    subst onOther
    exact atWait.owner core
  refine ⟨atWait.own, ⟨other, ?_⟩, ?_, ?_⟩
  · rw [apply_cur_of_ne different, onOther]
  · rcases (core.apply_code head executed).2 thread elsewhere with same | ⟨_, np, isNp, embryo⟩
    · rw [same]
      exact atWait.code
    · rw [isNp] at onOther
      simp [core.procs.running other np onOther] at embryo
  · apply expects_act plain tree head executed atWait.expects
    · -- `exit` needs the lock that the other processor holds
      rintro rfl
      have mine : state.owner .ptable = some cpu := by
        apply core.owner_ptable head
        intro held needs
        have heldIs : held = {.ptable} := needs
        simp [heldIs]
      rw [owned] at mine
      exact different (Option.some.inj mine)
    · intro onCpu
      exact absurd (atWait.own.trans onCpu.symm) elsewhere

theorem form_act (inv : WaitInv state)
    (mem : fallsInWait p ∈ (state.apply cpu (state.cur cpu) rest outcome).code thread) :
    AtWait (state.apply cpu (state.cur cpu) rest outcome) thread p := by
  rcases tree.life.core.apply_code head executed with ⟨here, elsewhere⟩
  by_cases same : thread = state.cur cpu
  · subst same
    rw [here] at mem
    have inPush := (List.mem_append.mp mem).resolve_right (inv.notMem_rest head)
    rcases push_falls plain executed inPush with ⟨isP, expects, shared, switch, pushIs⟩
    refine ⟨isP, ⟨cpu, ?_⟩, ?_, ?_⟩
    · simp [State.apply, switch]
    · rw [here, pushIs]
      refine ⟨_, rfl, fun q => ?_⟩
      simp [inv.notMem_rest head]
    · simpa only [State.apply, shared] using expects
  · rcases elsewhere thread same with unchanged | ⟨isForkret, _⟩
    · rw [unchanged] at mem
      exact atWait_elsewhere plain tree head executed (inv.form thread p mem) same
    · simp [isForkret, forkret] at mem

theorem asleep_act {slot : Slot} (inv : WaitInv state)
    (asleep : outcome.shared.AsleepOn slot (.proc slot)) : outcome.shared.Expects slot := by
  rcases act.sub_or_not with ⟨subAct, rfl⟩ | notSub
  · have proc := (exec_sub_plain plain executed).1
    rw [Kern.AsleepOn, proc] at asleep
    exact (inv.asleep slot asleep).of_proc proc
  · have table := tableStep_exec executed notSub
    rcases table.asleep asleep with before | ⟨rfl, onCpu⟩
    · by_cases isExit : act = .exitSched
      · subst isExit
        have slots := tree.life.core.slotStep head executed notSub
        cases table with
        | @exit curproc onCpu notInit =>
            rw [onCpu] at slots
            exact (inv.asleep slot before).exit inv.rooted slots asleep
        | other notExit _ _ _ _ => exact absurd rfl notExit
      · apply expects_act plain tree head executed (inv.asleep slot before) isExit
        intro onCpu
        have running := tree.life.core.procs.running cpu slot onCpu
        simp [Kern.AsleepOn, running] at before
    · -- the process is just falling asleep
      have atWait := inv.form _ slot (State.mem_head head)
      exact expects_act plain tree head executed atWait.expects (by simp) fun _ => ⟨_, rfl⟩

end Act

theorem step [DecidableEq SubAct] (plain : SubPlain sub) (tree : FamilyInv locking allowed state)
    (inv : WaitInv state) (stepped : (kernel sub ncpu).step state label = some next) :
    WaitInv next := by
  cases Program.step_cases stepped with
  | act head executed =>
      refine ⟨rooted_act plain tree head executed inv, ?_, ?_⟩
      · exact fun thread p mem => form_act plain tree head executed inv mem
      · exact fun slot asleep => asleep_act plain tree head executed inv asleep
  | acquire head | release head => exact inv.of_code rfl rfl rfl fun p => inv.notMem_rest head
  | @call cpu entry code idle entered =>
      refine inv.of_code rfl rfl rfl ?_
      intro p
      rcases kernel_entry entered with ⟨slot, onCpu, rfl⟩
      exact notMem_entry plain
  | intr unlocked unmasked handled =>
      refine inv.of_code rfl rfl rfl ?_
      intro p mem
      rcases List.mem_append.mp mem with new | old
      · exact notMem_intr plain handled new
      · exact (inv.form _ p old).locked tree.life.core unlocked

theorem waitInv_boot {freePages : List ℕ} {start : Sub} :
    WaitInv (boot ncpu freePages start : Machine Sub SubAct ncpu) := by
  refine ⟨⟨by simp [boot, bootProc, Proc.empty], ?_⟩, ?_, ?_⟩
  · intro slot
    by_cases isInit : slot = 0 <;> simp [boot, bootProc, isInit, Proc.empty]
  · intro thread p mem
    cases thread with
    | scheduler own => simp [boot, scheduler] at mem
    | proc slot => by_cases isInit : slot = 0 <;> simp [boot, isInit, forkret] at mem
  · intro slot asleep
    by_cases isInit : slot = 0 <;>
      simp [Kern.AsleepOn, boot, bootProc, isInit, Proc.empty] at asleep

end WaitInv

end Step

/-! ## Runs of the kernel -/

section Run

variable {freePages : List ℕ} {trace : Trace (VmMachine ncpu) (VmLabel ncpu)}
  {state : VmMachine ncpu}

theorem history_of_run (run : Run vmStep (boot ncpu freePages []) trace state) :
    HistoryInv vmLocking (fun _ _ => True) trace state ∧ WaitInv state := by
  refine run.invariant (fun trace state =>
    HistoryInv vmLocking (fun _ _ => True) trace state ∧ WaitInv state)
    ⟨HistoryInv.historyInv_boot, WaitInv.waitInv_boot⟩ ?_ (Trace.all_true _)
  rintro trace state label next ⟨history, waiting⟩ _ _ stepped
  exact ⟨history.step vmLaws vmPlain stepped nestsAllowed_of_all,
    waiting.step vmPlain history.tree stepped⟩

/-- A process that sleeps in `wait` has a child and no zombie child. A pid is returned by one
`wait` at most, to the parent of the child at that time, which made the child or is init, and
after the child has exited. -/
theorem exit_never_missed (run : Run vmStep (boot ncpu freePages []) trace state) :
    (∀ slot, state.shared.AsleepOn slot (.proc slot) →
      (∃ child, (state.shared.proc child).parent = some slot ∧
        (state.shared.proc child).state ≠ .unused) ∧
      ∀ child, (state.shared.proc child).parent = some slot →
        (state.shared.proc child).state ≠ .zombie) ∧
    ∀ before label earlier, (before, label) :: earlier <:+ trace →
      ∀ pid parent, procEvent before label = some (.reaped pid parent) →
        (∀ other, .reaped pid other ∉ procEvents earlier) ∧ .exited pid ∈ procEvents earlier ∧
        ∃ waiter child, (before.shared.proc child).parent = some waiter ∧
          (before.shared.proc child).pid = pid ∧ (before.shared.proc waiter).pid = parent ∧
          (waiter = before.shared.initproc ∨ .made pid parent ∈ procEvents earlier) := by
  rcases history_of_run run with ⟨history, waiting⟩
  refine ⟨?_, ?_⟩
  · intro slot asleep
    have expects := waiting.asleep slot asleep
    rcases expects.child with ⟨child, isChild⟩
    refine ⟨⟨child, isChild, ?_⟩, expects.noZombie⟩
    intro isUnused
    simp [(history.tree.family.unused child isUnused).1] at isChild
  · intro before label earlier suffix pid parent event
    rcases run.of_suffix suffix with ⟨shorter, next, stepped⟩
    rcases procEvent_reaped stepped event with ⟨waiter, child, rfl, rfl, isChild, isZombie⟩
    have history := (history_of_run shorter).1.history
    refine ⟨?_, history.exited child isZombie, waiter, child, isChild, rfl, rfl, ?_⟩
    · intro other mem
      exact (history.reaped _ _ mem).2 child (by simp [isZombie]) rfl
    · exact history.made child waiter isChild

-- Init forks and waits until the child exits; then it forks again and goes to sleep in `wait`.
theorem second_child_awaited : ∃ trace state, Run vmStep (boot 1 [7] []) trace state ∧
    state.shared.AsleepOn 0 (.proc 0) ∧
    (∃ child, (state.shared.proc child).parent = some 0 ∧
      (state.shared.proc child).state ≠ .unused) ∧
    ∃ before label earlier, (before, label) :: earlier <:+ trace ∧
      procEvent before label = some (.reaped 2 1) ∧ .exited 2 ∈ procEvents earlier := by
  obtain ⟨trace, state, run, ⟨⟨before, label⟩, mem, event⟩, asleep⟩ :
      ∃ trace state, Run vmStep (boot 1 [7] []) trace state ∧
      (∃ entry ∈ trace, procEvent entry.1 entry.2 = some (.reaped 2 1)) ∧
      state.shared.AsleepOn 0 (.proc 0) :=
    exists_run [dispatch 0 0, go 0 1, call 0 .fork 15, call 0 .wait 4, dispatch 0 1, go 0 1,
      call 0 .exit 3, dispatch 0 0, go 0 3, call 0 .fork 15, call 0 .wait 3].flatten
      (by decide +kernel)
  rcases exit_never_missed run with ⟨waiting, returned⟩
  rcases run.entry mem with ⟨earlier, _, _, suffix⟩
  refine ⟨trace, state, run, asleep, (waiting 0 asleep).1, before, label, earlier, suffix, event, ?_⟩
  exact (returned before label earlier suffix 2 1 event).2.1

end Run

end Xv6
