import Xv6.Kernel.Code

/-!
# What the acts do

The branches of the acts of `proc.c` and of the clock as a relation, with what the tests of the
source say in each of them. Facts about acts are proved by cases on it.
-/

namespace Xv6

open Threads

variable {Sub SubAct SubEntry SubIntr : Type} {ncpu : ℕ}

theorem Kern.find_some {kern : Kern Sub} {slot : Slot} {test : Slot → Proc → Bool}
    (found : kern.find test = some slot) : test slot (kern.proc slot) := by
  have satisfied := List.find?_some found
  simpa using satisfied

/-- The first process with the pid gets a new status, if there is one. -/
inductive Kern.Sets (kern : Kern Sub) (pid : ℤ) (change : SchedStat → SchedStat) : Kern Sub → Prop
  | missing (notFound : (kern.find fun _ proc => proc.pid = pid) = none) : Sets kern pid change kern
  | found {slot : Slot} (isFirst : (kern.find fun _ proc => proc.pid = pid) = some slot) :
      Sets kern pid change
        (kern.modify slot fun proc => { proc with scheduleStatus := change proc.scheduleStatus })

inductive Does (kern : Kern Sub) (cpu : Fin ncpu) (choice : ℕ) :
    Act SubAct → Thread ncpu → Effect Sub SubAct ncpu → Prop
  | noSlot {curproc : Slot} :
      Does kern cpu choice .allocproc (.proc curproc) { shared := kern, push := [.release .ptable] }
  | claim {curproc np : Slot} (unused : (kern.proc np).state = .unused) :
      Does kern cpu choice .allocproc (.proc curproc)
        { shared := { kern.modify np fun proc =>
            { proc with state := .embryo, pid := kern.nextpid } with
            nextpid := kern.nextpid + 1 }
          push := [.release .ptable, .act (.kstack np)] }
  | noStack {curproc np : Slot} (empty : kern.freePages = []) :
      Does kern cpu choice (.kstack np) (.proc curproc) { shared := kern.setState np .unused }
  | stack {curproc np : Slot} {page : ℕ} {pages : List ℕ} (free : kern.freePages = page :: pages) :
      Does kern cpu choice (.kstack np) (.proc curproc)
        { shared := { kern.modify np fun proc =>
            { proc with kstack := some page, scheduleStatus := .fresh } with
            freePages := pages }
          push := [.act (.copyuvm np)]
          spawn := some (.proc np, forkret) }
  | copied {curproc np : Slot} (isCopied : choice = 0) :
      Does kern cpu choice (.copyuvm np) (.proc curproc)
        { shared := kern.modify np fun proc => { proc with parent := some curproc }
          push := [.acquire .ptable, .act (.forkRunnable np), .acquire .tickslock,
            .act (.forkTicks np), .release .tickslock, .release .ptable, .act (.forkQueue np)] }
  | notCopied {curproc np : Slot} (failed : choice ≠ 0) :
      Does kern cpu choice (.copyuvm np) (.proc curproc)
        { shared := { kern.modify np fun proc => { proc with kstack := none, state := .unused } with
            freePages := (kern.proc np).kstack.toList ++ kern.freePages } }
  | start {curproc np : Slot} :
      Does kern cpu choice (.forkRunnable np) (.proc curproc) { shared := kern.setState np .runnable }
  | stamp {curproc np : Slot} :
      Does kern cpu choice (.forkTicks np) (.proc curproc)
        { shared := kern.modify np fun proc =>
            { proc with scheduleStatus :=
              { proc.scheduleStatus with
                lastRun := toInt kern.ticks, arrivalTime := toInt kern.ticks } } }
  | queue {curproc np : Slot} :
      Does kern cpu choice (.forkQueue np) (.proc curproc)
        { shared := kern, push := changeQueue (kern.proc np).pid UNSET }
  | exit {curproc : Slot} (notInit : curproc ≠ kern.initproc) :
      Does kern cpu choice .exitSched (.proc curproc)
        { shared := kern.exit curproc, switch := some (.scheduler cpu) }
  | reap {curproc child : Slot} (isChild : (kern.proc child).parent = some curproc)
      (zombie : (kern.proc child).state = .zombie) :
      Does kern cpu choice .waitScan (.proc curproc)
        { shared := kern.reap child, push := [.release .ptable] }
  | noChild {curproc : Slot} :
      Does kern cpu choice .waitScan (.proc curproc) { shared := kern, push := [.release .ptable] }
  | wait {curproc child : Slot} (isChild : (kern.proc child).parent = some curproc)
      (noZombie : ∀ other, (kern.proc other).parent = some curproc →
        (kern.proc other).state ≠ .zombie) :
      Does kern cpu choice .waitScan (.proc curproc)
        { shared := kern, push := sleep (.proc curproc) .ptable ++ [.act .waitScan] }
  | sleep {curproc : Slot} {chan : Chan} :
      Does kern cpu choice (.sleepSched chan) (.proc curproc)
        { shared := kern.sleepOn curproc chan, switch := some (.scheduler cpu) }
  | clear {curproc : Slot} :
      Does kern cpu choice .clearChan (.proc curproc)
        { shared := kern.modify curproc fun proc => { proc with chan := none } }
  | yield {curproc : Slot} :
      Does kern cpu choice .yieldSched (.proc curproc)
        { shared := kern.setState curproc .runnable, switch := some (.scheduler cpu) }
  | wakesUp {curproc : Slot} {ticks0 n : ℕ} :
      Does kern cpu choice (.sysSleepLoop ticks0 n) (.proc curproc)
        { shared := kern, push := [.release .tickslock] }
  | sleepsOn {curproc : Slot} {ticks0 n : ℕ} (early : (kern.ticks + 2 ^ 32 - ticks0) % 2 ^ 32 < n)
      (alive : (kern.proc curproc).killed = false) :
      Does kern cpu choice (.sysSleepLoop ticks0 n) (.proc curproc)
        { shared := kern, push := Xv6.sleep .ticks .tickslock ++ [.act (.sysSleepLoop ticks0 n)] }
  | setQueue {thread : Thread ncpu} {pid queue : ℤ} {shared : Kern Sub}
      (sets : kern.Sets pid (fun status => { status with queueId := queue }) shared) :
      Does kern cpu choice (.setQueue pid queue) thread { shared }
  | setParams {thread : Thread ncpu} {pid : ℤ} {ratios : BjfRatios} {shared : Kern Sub}
      (sets : kern.Sets pid (·.setRatios ratios) shared) :
      Does kern cpu choice (.setBjfParamsProcess pid ratios) thread { shared }
  | setPriority {thread : Thread ncpu} {pid priority : ℤ} {shared : Kern Sub}
      (sets : kern.Sets pid (fun status => { status with priority }) shared) :
      Does kern cpu choice (.setBjfPriority pid priority) thread { shared }
  | setSystem {thread : Thread ncpu} {ratios : BjfRatios} :
      Does kern cpu choice (.setBjfParamsSystem ratios) thread
        { shared :=
            { kern with
              proc := fun slot =>
                { kern.proc slot with
                  scheduleStatus := (kern.proc slot).scheduleStatus.setRatios ratios } } }
  | kill {thread : Thread ncpu} {pid : ℤ} :
      Does kern cpu choice (.kill pid) thread { shared := kern.kill pid }
  | wakeup {thread : Thread ncpu} {chan : Chan} :
      Does kern cpu choice (.wakeup1 chan) thread { shared := kern.wakeup1 (some chan) }
  | sysSleep {thread : Thread ncpu} {n : ℕ} :
      Does kern cpu choice (.sysSleep n) thread
        { shared := kern, push := [.act (.sysSleepLoop kern.ticks n)] }
  | tick {thread : Thread ncpu} :
      Does kern cpu choice .tick thread
        { shared := { kern with ticks := (kern.ticks + 1) % 2 ^ 32 }
          push := Xv6.wakeup .ticks ++ [.release .tickslock] ++
            ageprocs (toInt ((kern.ticks + 1) % 2 ^ 32)) }
  | ages {thread : Thread ncpu} {osTicks : ℤ} {slot : Slot}
      (runnable : (kern.proc slot).state = .runnable)
      (notFirst : (kern.proc slot).scheduleStatus.queueId ≠ ROUND_ROBIN)
      (old : Int.bmod (osTicks - (kern.proc slot).scheduleStatus.lastRun) (2 ^ 32) > AGING_THRESHOLD) :
      Does kern cpu choice (.ageScan osTicks slot.val) thread
        { shared := kern
          push := [.release .ptable, .act (.ageQueue slot), .acquire .ptable,
            .act (.ageScan osTicks (slot.val + 1))] }
  | passes {thread : Thread ncpu} {osTicks : ℤ} {index : ℕ} :
      Does kern cpu choice (.ageScan osTicks index) thread
        { shared := kern, push := [.act (.ageScan osTicks (index + 1))] }
  | aged {thread : Thread ncpu} {osTicks : ℤ} {index : ℕ} (isEnd : NPROC ≤ index) :
      Does kern cpu choice (.ageScan osTicks index) thread
        { shared := kern, push := [.release .ptable] }
  | ageQueue {thread : Thread ncpu} {slot : Slot} :
      Does kern cpu choice (.ageQueue slot) thread
        { shared := kern, push := changeQueue (kern.proc slot).pid ROUND_ROBIN }
  | otherDone {thread : Thread ncpu} {object : ℕ} :
      Does kern cpu choice (.otherLoop object) thread
        { shared := kern, push := [.release (.other object)] }
  | otherSleeps {thread : Thread ncpu} {object : ℕ} :
      Does kern cpu choice (.otherLoop object) thread
        { shared := kern
          push := Xv6.sleep (.other object) (.other object) ++ [.act (.otherLoop object)] }
  | iret {thread : Thread ncpu} : Does kern cpu choice .iret thread { shared := kern }
  | pick {own : Fin ncpu} {slot : Slot} (isChoice : choice = slot.val)
      (runnable : (kern.proc slot).state = .runnable) :
      Does kern cpu choice .pick (.scheduler own)
        { shared := kern.modify slot fun proc => proc.dispatch (toInt kern.ticks)
          push := .release .ptable :: scheduler
          switch := some (.proc slot) }
  | noPick {own : Fin ncpu} (isEnd : NPROC ≤ choice) :
      Does kern cpu choice .pick (.scheduler own)
        { shared := kern, push := .release .ptable :: scheduler }

section Exec

variable {sub : Subsystem Sub SubAct SubEntry SubIntr} {act : Act SubAct} {cpu : Fin ncpu}
  {thread : Thread ncpu} {curproc : Slot} {choice : ℕ} {kern : Kern Sub}
  {outcome : Effect Sub SubAct ncpu}

theorem does_waitScan (executed : execProc .waitScan cpu curproc choice kern = some outcome) :
    Does kern cpu choice .waitScan (.proc curproc) outcome := by
  simp only [execProc] at executed
  split at executed
  · rename_i child found
    cases executed
    have matching := Kern.find_some found
    simp only [decide_eq_true_eq] at matching
    exact .reap matching.1 matching.2
  · rename_i noZombie
    split at executed
    · cases executed
      exact .noChild
    · rename_i stays
      cases executed
      simp only [not_or] at stays
      rcases Option.ne_none_iff_exists'.mp stays.1 with ⟨child, found⟩
      refine .wait (by simpa using Kern.find_some found) ?_
      intro other isChild isZombie
      simp only [Kern.find, List.find?_eq_none, List.mem_finRange, forall_const,
        decide_eq_true_eq] at noZombie
      exact noZombie other ⟨isChild, isZombie⟩

theorem does_execProc (executed : execProc act cpu curproc choice kern = some outcome) :
    Does kern cpu choice act (.proc curproc) outcome := by
  cases act with
  | waitScan => exact does_waitScan executed
  | allocproc =>
      simp only [execProc] at executed
      split at executed <;> cases executed
      · exact .noSlot
      · rename_i np found
        exact .claim (by simpa using Kern.find_some found)
  | kstack np =>
      simp only [execProc] at executed
      split at executed <;> cases executed
      · rename_i empty
        exact .noStack empty
      · rename_i page pages free
        exact .stack free
  | copyuvm np =>
      simp only [execProc] at executed
      split at executed <;> cases executed
      · rename_i isCopied
        exact .copied isCopied
      · rename_i failed
        exact .notCopied failed
  | exitSched =>
      simp only [execProc] at executed
      split at executed
      · contradiction
      · rename_i notInit
        cases executed
        exact .exit notInit
  | sysSleepLoop ticks0 n =>
      simp only [execProc] at executed
      repeat' split at executed
      all_goals cases executed
      · exact .wakesUp
      · rename_i early alive
        exact .sleepsOn early (by simpa using alive)
      · exact .wakesUp
  | forkRunnable np | forkTicks np | forkQueue np | sleepSched chan | clearChan | yieldSched =>
      cases executed
      constructor
  | _ => simp [execProc] at executed

theorem does_execAny (executed : execAny act choice kern = some outcome) :
    Does kern cpu choice act thread outcome := by
  cases act with
  | setQueue pid value | setBjfParamsProcess pid value | setBjfPriority pid value =>
      simp only [execAny] at executed
      split at executed <;> cases executed
      · rename_i notFound
        constructor
        exact .missing notFound
      · rename_i slot found
        constructor
        exact .found found
  | ageScan osTicks index =>
      simp only [execAny] at executed
      repeat' split at executed
      all_goals cases executed
      · rename_i bound old
        exact @Does.ages _ _ _ _ _ _ _ _ ⟨index, bound⟩ old.1 old.2.1 old.2.2
      · exact .passes
      · rename_i isEnd
        exact .aged (Nat.not_lt.1 isEnd)
  | otherLoop object =>
      simp only [execAny] at executed
      split at executed <;> cases executed
      · exact .otherDone
      · exact .otherSleeps
  | kill pid | wakeup1 chan | setBjfParamsSystem ratios | sysSleep n | tick | ageQueue slot | iret =>
      cases executed
      constructor
  | _ => simp [execAny] at executed

theorem does_execPick {own : Fin ncpu} (executed : execPick choice kern = some outcome) :
    Does kern cpu choice (.pick : Act SubAct) (.scheduler own) outcome := by
  simp only [execPick] at executed
  repeat' split at executed
  · rename_i bound runnable
    cases executed
    exact @Does.pick _ _ _ _ _ _ _ ⟨choice, bound⟩ rfl runnable
  · contradiction
  · rename_i isEnd
    cases executed
    exact .noPick (Nat.not_lt.1 isEnd)

theorem does_exec (executed : exec sub act cpu thread choice kern = some outcome)
    (notSub : ∀ subAct, act ≠ .sub subAct) : Does kern cpu choice act thread outcome := by
  cases act with
  | sub subAct => exact absurd rfl (notSub subAct)
  | pick =>
      cases thread with
      | proc slot => simp [exec] at executed
      | scheduler own => exact does_execPick executed
  | _ =>
      cases thread with
      | proc slot =>
          simp only [exec, Option.or_eq_some_iff] at executed
          rcases executed with byProc | ⟨_, byAny⟩
          · exact does_execProc byProc
          · exact does_execAny byAny
      | scheduler own =>
          simp only [exec] at executed
          exact does_execAny executed

theorem kernel_entry {entry : Entry SubEntry} {code : Code Lock (Act SubAct)}
    (entered : (kernel sub ncpu).entry entry thread = some code) :
    ∃ slot, thread = .proc slot ∧ code = entryCode sub entry := by
  cases thread with
  | proc slot => exact ⟨slot, rfl, (Option.some.inj entered).symm⟩
  | scheduler own => simp [kernel] at entered

theorem kernel_intr_cases {intr : Intr SubIntr} {code : Code Lock (Act SubAct)}
    (handled : (kernel sub ncpu).intr intr cpu thread = some code) :
    cpu.val = 0 ∧ code = timer ∨ code = yield ++ [.act .iret] ∨
      ∃ subIntr, code = sub.intr subIntr ++ [.act .iret] := by
  cases intr with
  | timer =>
      left
      simp only [kernel] at handled
      split at handled
      · rename_i isFirst
        exact ⟨isFirst, (Option.some.inj handled).symm⟩
      · contradiction
  | yield =>
      right
      left
      cases thread with
      | proc slot => exact (Option.some.inj handled).symm
      | scheduler own => simp [kernel] at handled
  | sub intr =>
      right
      right
      exact ⟨intr, (Option.some.inj handled).symm⟩

end Exec

end Xv6
