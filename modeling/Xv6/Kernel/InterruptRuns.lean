import Xv6.Kernel.InterruptState

/-!
# The interrupt flag at the end of a section

When the last push of a thread is popped, interrupts are as they were before the outermost push of
this thread. That push need not be the `acquire` of the lock that is released last: in `sleep` it
is the `acquire` of the other lock.
-/

namespace Xv6.Interrupts

open Transition Function

namespace Watch

variable {watch next : Watch} {c : CpuId}

/-! ## The outermost push -/

def Pushes : Op → Prop
  | .pushcli | .acquire _ => True
  | _ => False

/-- A thread goes on with a push open: no new process has got its slot and, if it is a scheduler, no
process has come back to it. -/
structure Stays (t : Thread) (trace : Trace Watch (CpuId × Op)) : Prop where
  isOpen : ∀ entry ∈ trace, 0 < entry.1.opened t
  noFork : ∀ entry ∈ trace, ∀ c p, t = .process p → entry.2 ≠ (c, .fork p)
  noSched : ∀ entry ∈ trace, ∀ c, t = .scheduler c → entry.2 ≠ (c, .sched)

theorem outer_note {t : Thread} {op : Op} (isOpen : 0 < watch.opened t)
    (noFork : ∀ p, t = .process p → op ≠ .fork p) (noSched : t = .scheduler c → op ≠ .sched) :
    (watch.note c op).outer t = watch.outer t := by
  have pushed : (watch.push c).outer t = watch.outer t := by
    rw [outer_push]
    by_cases isHere : t = watch.machine.thread c
    · rw [isHere, update_self, outerPushed, if_neg]
      rw [← isHere]
      exact Nat.ne_of_gt isOpen
    · rw [update_of_ne isHere]
  cases op with
  | pushcli | acquire => exact pushed
  | xchg =>
      simp only [note]
      split
      · rfl
      · split <;> rfl
  | sched =>
      apply update_of_ne
      intro isScheduler
      exact noSched isScheduler rfl
  | fork p =>
      apply update_of_ne
      intro isProcess
      exact noFork p isProcess rfl
  | popcli => rfl
  | release l => rfl
  | setIf flag => rfl
  | leave => rfl
  | resume p => rfl
  | reap p => rfl

theorem note_of_step {op : Op} (stepped : watch.step (c, op) = some next) :
    (next.opened = watch.opened ∧ next.outer = watch.outer) ∨
      (next.opened = (watch.note c op).opened ∧ next.outer = (watch.note c op).outer) := by
  simp only [Watch.step] at stepped
  split at stepped
  · split at stepped
    · cases stepped
      exact Or.inl ⟨rfl, rfl⟩
    · cases stepped
      exact Or.inr ⟨rfl, rfl⟩
  · contradiction

theorem outer_run {t : Thread} {start : Watch} {trace : Trace Watch (CpuId × Op)}
    (run : Run step start trace watch) (stays : Stays t trace) : watch.outer t = start.outer t := by
  induction run with
  | refl => rfl
  | @tail trace state next label run stepped ih =>
      have before := ih ⟨fun entry isIn => stays.isOpen entry (List.mem_cons_of_mem _ isIn),
        fun entry isIn => stays.noFork entry (List.mem_cons_of_mem _ isIn),
        fun entry isIn => stays.noSched entry (List.mem_cons_of_mem _ isIn)⟩
      rw [← before]
      rcases label with ⟨c, op⟩
      have isIn : ((state, (c, op)) : Watch × (CpuId × Op)) ∈ (state, (c, op)) :: trace := List.mem_cons_self
      rcases note_of_step stepped with ⟨_, same⟩ | ⟨_, noted⟩
      · rw [same]
      · rw [noted]
        apply outer_note (stays.isOpen _ isIn)
        · intro p isProcess isFork
          exact stays.noFork _ isIn c p isProcess (by rw [isFork])
        · intro isScheduler isSched
          exact stays.noSched _ isIn c isScheduler (by rw [isSched])

theorem Inv.flagIf_of_closed (inv : watch.Inv) {op : Op} {flag : Bool} (proper : watch.Proper (c, op))
    (stepped : watch.step (c, op) = some next) (isOpen : 0 < watch.opened (watch.machine.thread c))
    (isClosed : next.opened (watch.machine.thread c) = 0)
    (isOuter : watch.outer (watch.machine.thread c) = some flag) :
    (next.machine.cpu c).flagIf = flag := by
  have tracks := inv.tracks c
  have isCount := tracks.ncli
  -- the two operations that pop
  have popped : watch.opened (watch.machine.thread c) - 1 = 0 →
      (decide ((watch.machine.cpu c).ncli = 1) && (watch.machine.cpu c).intena) = flag := by
    intro wasLast
    rw [decide_eq_true (by omega), Bool.true_and]
    exact tracks.intena flag isOpen isOuter
  have keeps : (watch.note c op).opened (watch.machine.thread c) ≠ 0 → (next.machine.cpu c).flagIf = flag := by
    intro stillOpen
    rcases note_of_step stepped with ⟨same, _⟩ | ⟨noted, _⟩
    · rw [same] at isClosed
      omega
    · rw [noted] at isClosed
      exact absurd isClosed stillOpen
  cases op with
  | popcli =>
      rw [step_of_ok inv.calm (enabled_of_step stepped) (inv.exec_popcli proper)] at stepped
      cases stepped
      simp only [note, pop, update_self] at isClosed
      simp only [Machine.setCpu, update_self, Cpu.popped]
      exact popped isClosed
  | release l =>
      rw [step_of_ok inv.calm (enabled_of_step stepped) (inv.exec_release proper)] at stepped
      cases stepped
      simp only [note, drop, pop, update_self] at isClosed
      simp only [Machine.setCpu, update_self, Cpu.popped]
      exact popped isClosed
  | pushcli | acquire =>
      apply keeps
      simp only [note, push, update_self]
      exact Nat.succ_ne_zero _
  | fork p =>
      apply keeps
      simp only [note]
      by_cases isHere : watch.machine.thread c = .process p
      · rw [isHere, update_self]
        exact Nat.one_ne_zero
      · rw [update_of_ne isHere]
        exact Nat.ne_of_gt isOpen
  | xchg =>
      apply keeps
      simp only [note]
      split
      · exact Nat.ne_of_gt isOpen
      · split <;> exact Nat.ne_of_gt isOpen
  | setIf | leave | sched | resume | reap => exact keeps (Nat.ne_of_gt isOpen)

theorem outer_of_first_push {op : Op} (pushes : Pushes op)
    (first : watch.opened (watch.machine.thread c) = 0) (calm : next.machine.panicked = none)
    (stepped : watch.step (c, op) = some next) :
    next.outer (watch.machine.thread c) = some (watch.machine.cpu c).flagIf := by
  have noted : (watch.note c op).outer (watch.machine.thread c) = some (watch.machine.cpu c).flagIf := by
    have pushed : (watch.push c).outer (watch.machine.thread c) = some (watch.machine.cpu c).flagIf := by
      rw [outer_push, update_self, outerPushed, if_pos first]
    cases op with
    | pushcli => exact pushed
    | acquire l => exact pushed
    | _ => contradiction
  simp only [Watch.step] at stepped
  split at stepped
  · split at stepped
    · cases stepped
      contradiction
    · cases stepped
      exact noted
  · contradiction

end Watch

open Watch

/-- In every run in which threads use the functions properly: the processor of a thread counts its open
pushes and has interrupts disabled while there are any, nothing panics, and when the last push of a
thread is popped, on whatever processor, interrupts are enabled if and only if they were before the
outermost push. -/
theorem interrupts_kept_for_thread {start watch : Watch} {trace : Trace Watch (CpuId × Op)}
    (initial : start.Initial) (run : Run Watch.step start trace watch)
    (proper : Trace.All Watch.Proper trace) :
    watch.machine.panicked = none ∧
    (∀ c, (watch.machine.cpu c).ncli = watch.opened (watch.machine.thread c) ∧
      (0 < (watch.machine.cpu c).ncli → (watch.machine.cpu c).flagIf = false)) ∧
    ∀ c op next, watch.Proper (c, op) → watch.step (c, op) = some next →
      next.machine.panicked = none ∧
      ∀ later before first push earlier, trace = later ++ (before, (first, push)) :: earlier →
        Pushes push → before.machine.thread first = watch.machine.thread c →
        before.opened (watch.machine.thread c) = 0 → Stays (watch.machine.thread c) later →
        0 < watch.opened (watch.machine.thread c) → next.opened (watch.machine.thread c) = 0 →
        (next.machine.cpu c).flagIf = (before.machine.cpu first).flagIf := by
  have inv := initial.run run proper
  refine ⟨inv.calm, ?_, ?_⟩
  · intro c
    refine ⟨(inv.tracks c).ncli, ?_⟩
    intro counts
    apply (inv.tracks c).off
    have isCount := (inv.tracks c).ncli
    omega
  · intro c op next isProper stepped
    refine ⟨(inv.step isProper stepped).calm, ?_⟩
    intro later before first push earlier isTrace pushes sameThread wasClosed stays isOpen isClosed
    subst isTrace
    rcases run.split with ⟨runBefore, middle, pushed, runAfter⟩
    have properBefore : Trace.All Watch.Proper ((before, (first, push)) :: earlier) :=
      fun entry isIn => proper entry (List.mem_append_right later isIn)
    have invMiddle := initial.run (runBefore.tail pushed) properBefore
    rw [← sameThread] at wasClosed
    have isOuter := outer_of_first_push pushes wasClosed invMiddle.calm pushed
    rw [sameThread, ← outer_run runAfter stays] at isOuter
    exact inv.flagIf_of_closed isProper stepped isOpen isClosed isOuter

/-! ## A process that sleeps -/

def boot : Watch where
  machine :=
    { cpu := fun _ => { ncli := 0, intena := false, flagIf := false }
      lock := fun _ => { locked := false, cpu := none }
      proc := fun _ => none
      spinning := fun _ => none
      context := fun _ => .unused
      panicked := none }
  opened := fun _ => 0
  outer := fun _ => none
  held := fun _ => ∅

theorem boot_initial : boot.Initial where
  calm := rfl
  ncli _ := rfl
  proc _ := rfl
  spinning _ := rfl
  lock _ := rfl
  context _ := rfl
  opened _ := rfl
  held _ := rfl

/-- A process acquires a lock and calls `sleep` with it. Another processor goes on with it. -/
def sleeping : List (CpuId × Op) :=
  [(0, .fork 0), (0, .setIf true), (0, .acquire ptableLock), (0, .xchg), (0, .resume 0),
    (0, .release ptableLock),
    (0, .acquire 1), (0, .xchg),
    (0, .acquire ptableLock), (0, .xchg), (0, .release 1), (0, .leave), (0, .sched),
    (0, .release ptableLock),
    (1, .setIf true), (1, .acquire ptableLock), (1, .xchg), (1, .resume 0)]

/-- The process had interrupts disabled before its `acquire` of `ptable.lock`, and has them enabled after
the `release`. -/
theorem release_after_sleep_enables : ∃ trace watch, Run Watch.step boot trace watch ∧
    Trace.All Watch.Proper trace ∧
    (∃ entry ∈ trace, entry.2 = (0, .acquire ptableLock) ∧ entry.1.machine.thread 0 = .process 0 ∧
      (entry.1.machine.cpu 0).flagIf = false) ∧
    (∃ entry ∈ trace, entry.2 = (0, .sched) ∧ entry.1.machine.thread 0 = .process 0) ∧
    watch.machine.thread 1 = .process 0 ∧ watch.Proper (1, .release ptableLock) ∧
    ∃ next, watch.step (1, .release ptableLock) = some next ∧ (next.machine.cpu 1).flagIf = true := by
  simp only [← Option.any_eq_true]
  exact exists_run sleeping (by decide +kernel)

/-- The process before it acquires the lock, and after it has begun to. -/
def beforeLock : Watch := arrive Watch.step boot (sleeping.take 6)

def inAcquire : Watch := arrive Watch.step beforeLock [(0, .acquire 1)]

/-- The process has interrupts enabled when it acquires the lock, and again, on the other processor, when it
has released `ptable.lock`. -/
theorem interrupts_restored_after_sleep : ∃ trace watch next, Run Watch.step boot trace watch ∧
    watch.machine.panicked = none ∧ (watch.machine.cpu 1).ncli = 1 ∧ (watch.machine.cpu 1).flagIf = false ∧
    watch.step (1, .release ptableLock) = some next ∧ (next.machine.cpu 1).flagIf = true := by
  have begins : Run Watch.step boot [] boot := .refl
  rcases begins.arrive (sleeping.take 6) (fun trace => Trace.All Watch.Proper trace) (by decide +kernel) with
    ⟨earlier, run, isProper⟩
  rw [List.append_nil] at run
  have pushed : Watch.step beforeLock (0, .acquire 1) = some inAcquire := step_arrive (by decide +kernel)
  have checked : ((follow Watch.step [] inAcquire (sleeping.drop 7)).any fun result =>
      (Trace.All (fun before label => before.Proper label ∧ 0 < before.opened (.process 0) ∧
          label.2 ≠ .fork 0) result.1 ∧
        result.2.machine.thread 1 = .process 0 ∧ result.2.opened (.process 0) = 1 ∧
        result.2.Proper (1, .release ptableLock) ∧
        (result.2.step (1, .release ptableLock)).any fun next => next.opened (.process 0) = 0 : Bool)) = true := by
    decide +kernel
  rcases (run.tail pushed).exists_later checked with ⟨later, watch, whole, holds⟩
  rcases of_decide_eq_true holds with ⟨all, isHere, isOpen, isRelease, enabled⟩
  rcases (Option.any_eq_true _ _).mp enabled with ⟨next, released, isClosed⟩
  have proper : Trace.All Watch.Proper (later ++ (beforeLock, (0, .acquire 1)) :: earlier) := by
    intro entry isIn
    rcases List.mem_append.1 isIn with isLater | isEarlier
    · exact (all entry isLater).1
    · rcases List.mem_cons.1 isEarlier with rfl | isEarlier
      · decide +kernel
      · exact of_decide_eq_true isProper entry isEarlier
  rcases interrupts_kept_for_thread boot_initial whole proper with ⟨calm, counts, restores⟩
  have isCount := (counts 1).1
  rw [isHere, isOpen] at isCount
  have pending : 0 < watch.opened (.process 0) := by
    rw [isOpen]
    exact Nat.one_pos
  have stays : Stays (.process 0) later := by
    refine ⟨fun entry isIn => (all entry isIn).2.1, ?_, ?_⟩
    · intro entry isIn c p isProcess isFork
      cases isProcess
      exact (all entry isIn).2.2 (congrArg Prod.snd isFork)
    · intro entry isIn c isScheduler
      contradiction
  have restored := (restores 1 _ next isRelease released).2 later beforeLock 0 _ earlier rfl trivial
  rw [isHere] at restored
  refine ⟨_, watch, next, whole, calm, isCount, (counts 1).2 ?_, released, ?_⟩
  · rw [isCount]
    exact Int.one_pos
  · rw [restored (by decide +kernel) (by decide +kernel) stays pending (of_decide_eq_true isClosed)]
    decide +kernel

end Xv6.Interrupts
