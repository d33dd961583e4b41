import Xv6.Kernel.Interrupts

/-!
# The interrupt flag is kept for each thread

While a thread has a push open its processor has interrupts disabled, and counts the open pushes of
this thread. `intena` of the processor is the flag of the thread before the outermost of them:
`sched` takes it along to the processor where the thread goes on.
-/

namespace Xv6.Interrupts

open Transition Function

namespace Cpu

variable {cpu : Cpu}

def pushed (cpu : Cpu) : Cpu where
  ncli := cpu.ncli + 1
  intena := if cpu.ncli = 0 then cpu.flagIf else cpu.intena
  flagIf := false

def popped (cpu : Cpu) : Cpu where
  ncli := cpu.ncli - 1
  intena := cpu.intena
  flagIf := decide (cpu.ncli = 1) && cpu.intena

theorem pushcli_eq : cpu.pushcli = .ok cpu.pushed := by
  by_cases isFirst : cpu.ncli = 0 <;> simp [pushcli, mycpu, pushed, isFirst]

theorem mycpu_of_off (off : cpu.flagIf = false) : cpu.mycpu = .ok cpu := by
  simp [mycpu, off]

theorem popcli_of_off (off : cpu.flagIf = false) (positive : 0 < cpu.ncli) :
    cpu.popcli = .ok cpu.popped := by
  have counts : ¬cpu.ncli - 1 < 0 := by omega
  by_cases isLast : cpu.ncli = 1
  · cases isOn : cpu.intena with
    | false | true => simp [popcli, popped, off, isLast, isOn]
  · have isOpen : ¬cpu.ncli - 1 = 0 := by omega
    simp [popcli, popped, off, counts, isLast, isOpen]

theorem popcli_pushed (off : cpu.flagIf = false) (positive : 0 < cpu.ncli) :
    cpu.pushed.popcli = .ok cpu := by
  have isOpen : ¬cpu.ncli = 0 := by omega
  have isInner : ¬cpu.ncli + 1 = 1 := by omega
  have isPositive : 0 < cpu.pushed.ncli := by
    change 0 < cpu.ncli + 1
    omega
  rw [popcli_of_off rfl isPositive]
  simp only [popped, pushed, isOpen, if_false, isInner, decide_false, Bool.false_and, Int.add_sub_cancel]
  rw [← off]

theorem mycpu_pushed : cpu.pushed.mycpu = .ok cpu.pushed := mycpu_of_off rfl

theorem holding_of_off {me : CpuId} {lock : Spinlock} (off : cpu.flagIf = false)
    (positive : 0 < cpu.ncli) :
    cpu.holding me lock = .ok (lock.locked && lock.cpu == some me, cpu) := by
  simp only [holding, pushcli_eq, bind, Except.bind, mycpu_pushed, popcli_pushed off positive]
  rfl

end Cpu

namespace Watch

variable {watch next : Watch} {c other : CpuId} {p : Slot} {l : LockId}

/-- What a processor has in common with the thread that it runs. -/
structure Tracks (watch : Watch) (c : CpuId) : Prop where
  ncli : (watch.machine.cpu c).ncli = watch.opened (watch.machine.thread c)
  off : 0 < watch.opened (watch.machine.thread c) → (watch.machine.cpu c).flagIf = false
  intena : ∀ before, 0 < watch.opened (watch.machine.thread c) →
    watch.outer (watch.machine.thread c) = some before → (watch.machine.cpu c).intena = before
  locks : ∀ l, ((watch.machine.lock l).locked = true ∧ (watch.machine.lock l).cpu = some c) ↔
    l ∈ watch.held (watch.machine.thread c)
  spins : ∀ l, watch.machine.spinning c = some l →
    l ∉ watch.held (watch.machine.thread c) ∧ 0 < watch.opened (watch.machine.thread c)

/-- A thread that waits to go on in a switch. -/
structure Switched (watch : Watch) (t : Thread) : Prop where
  opened : watch.opened t = 1
  only : watch.held t = {ptableLock}

structure Inv (watch : Watch) : Prop where
  calm : watch.machine.panicked = none
  tracks : ∀ c, watch.Tracks c
  placed : ∀ c p, watch.machine.proc c = some p → ∃ left, watch.machine.context p = .running left
  alone : ∀ c other p, watch.machine.proc c = some p → watch.machine.proc other = some p → c = other
  idle : ∀ c p, watch.machine.proc c = some p → watch.Switched (.scheduler c)
  ready : ∀ p, (watch.machine.context p).isReady = true → watch.Switched (.process p)
  parked : ∀ p intena before, watch.machine.context p = .parked intena →
    watch.outer (.process p) = some before → intena = before
  fresh : ∀ p, watch.machine.context p = .fresh → watch.outer (.process p) = none

theorem thread_none (isNone : watch.machine.proc c = none) :
    watch.machine.thread c = .scheduler c := by
  simp [Machine.thread, isNone]

theorem thread_some (isSome : watch.machine.proc c = some p) :
    watch.machine.thread c = .process p := by
  simp [Machine.thread, isSome]

theorem proc_of_thread (isThread : watch.machine.thread c = .process p) :
    watch.machine.proc c = some p := by
  cases isProc : watch.machine.proc c with
  | none =>
      rw [thread_none isProc] at isThread
      contradiction
  | some q =>
      rw [thread_some isProc] at isThread
      cases isThread
      rfl

theorem proc_of_scheduler (isThread : watch.machine.thread c = .scheduler other) :
    watch.machine.proc c = none ∧ c = other := by
  cases isProc : watch.machine.proc c with
  | none =>
      rw [thread_none isProc] at isThread
      cases isThread
      exact ⟨rfl, rfl⟩
  | some q =>
      rw [thread_some isProc] at isThread
      contradiction

theorem Inv.thread_ne (inv : watch.Inv) (differ : other ≠ c) :
    watch.machine.thread other ≠ watch.machine.thread c := by
  intro same
  cases isProc : watch.machine.proc c with
  | none =>
      rw [thread_none isProc] at same
      exact differ (proc_of_scheduler same).2
  | some p =>
      rw [thread_some isProc] at same
      exact differ (inv.alone other c p (proc_of_thread same) isProc)

/-! ## What the operations do -/

theorem setCpu_self : watch.machine.setCpu c (watch.machine.cpu c) = watch.machine := by
  simp only [Machine.setCpu, update_eq_self]

section Exec

variable (inv : watch.Inv)

include inv

theorem Inv.ncli_pos (isOpen : 0 < watch.opened (watch.machine.thread c)) :
    0 < (watch.machine.cpu c).ncli := by
  rw [(inv.tracks c).ncli]
  omega

theorem Inv.exec_popcli (proper : watch.Proper (c, .popcli)) : watch.machine.exec c .popcli = .ok
    (watch.machine.setCpu c (watch.machine.cpu c).popped) := by
  have isOpen : 0 < watch.opened (watch.machine.thread c) := proper
  simp only [Machine.exec, Cpu.popcli_of_off ((inv.tracks c).off isOpen) (inv.ncli_pos isOpen), bind,
    Except.bind]
  rfl

theorem Inv.holds : ((watch.machine.lock l).locked && (watch.machine.lock l).cpu == some c) =
    decide (l ∈ watch.held (watch.machine.thread c)) := by
  rw [Bool.eq_iff_iff, Bool.and_eq_true, beq_iff_eq, decide_eq_true_eq]
  exact (inv.tracks c).locks l

theorem Inv.exec_acquire (proper : watch.Proper (c, .acquire l)) :
    watch.machine.exec c (.acquire l) = .ok
      { watch.machine.setCpu c (watch.machine.cpu c).pushed with
        spinning := update watch.machine.spinning c (some l) } := by
  have unheld : l ∉ watch.held (watch.machine.thread c) := proper
  have counts : 0 < (watch.machine.cpu c).pushed.ncli := by
    change 0 < (watch.machine.cpu c).ncli + 1
    rw [(inv.tracks c).ncli]
    omega
  simp only [Machine.exec, Machine.acquire, Cpu.pushcli_eq, bind, Except.bind]
  rw [Cpu.holding_of_off rfl counts, inv.holds, decide_eq_false unheld]
  rfl

theorem Inv.exec_release (proper : watch.Proper (c, .release l)) :
    watch.machine.exec c (.release l) = .ok
      { watch.machine.setCpu c (watch.machine.cpu c).popped with
        lock := update watch.machine.lock l { locked := false, cpu := none } } := by
  rcases proper with ⟨isHeld, isOpen⟩
  have isOff := (inv.tracks c).off isOpen
  have isPositive := inv.ncli_pos isOpen
  simp only [Machine.exec, Machine.release, Cpu.holding_of_off isOff isPositive, bind, Except.bind,
    inv.holds, decide_eq_true isHeld, if_true, Cpu.popcli_of_off isOff isPositive]
  rfl

theorem Inv.exec_xchg (isSpinning : watch.machine.spinning c = some l) :
    watch.machine.exec c .xchg = .ok (if (watch.machine.lock l).locked then watch.machine
      else { watch.machine with
        lock := update watch.machine.lock l { locked := true, cpu := some c }
        spinning := update watch.machine.spinning c none }) := by
  have isOff := (inv.tracks c).off ((inv.tracks c).spins l isSpinning).2
  simp only [Machine.exec, isSpinning, Machine.xchg, Cpu.mycpu_of_off isOff]
  split <;> rfl

theorem Inv.exec_sched (isProc : watch.machine.proc c = some p) (proper : watch.Proper (c, .sched)) :
    watch.machine.exec c .sched = .ok
      { watch.machine with
        proc := update watch.machine.proc c none
        context := update watch.machine.context p (.parked (watch.machine.cpu c).intena) } := by
  rcases proper with ⟨isOpen, only, hasLeft⟩
  have isOff := (inv.tracks c).off (by rw [isOpen]; exact Nat.one_pos)
  have isCount : (watch.machine.cpu c).ncli = 1 := by
    rw [(inv.tracks c).ncli, isOpen]
    rfl
  have isPositive : 0 < (watch.machine.cpu c).ncli := by omega
  have isHeld : ptableLock ∈ watch.held (watch.machine.thread c) := by
    rw [only]
    exact Finset.mem_singleton_self ptableLock
  simp only [Machine.exec, isProc, Machine.sched, Cpu.pushcli_eq, bind, Except.bind,
    Cpu.mycpu_pushed, Cpu.popcli_pushed isOff isPositive, Cpu.holding_of_off isOff isPositive, inv.holds,
    decide_eq_true isHeld, Bool.not_true, Cpu.mycpu_of_off isOff, setCpu_self]
  simp only [isCount, hasLeft p isProc, isOff]
  rfl

theorem Inv.exec_resume (proper : watch.Proper (c, .resume p)) :
    ∃ intena, watch.machine.exec c (.resume p) = .ok
      { watch.machine.setCpu c { watch.machine.cpu c with intena := intena } with
        proc := update watch.machine.proc c (some p)
        context := update watch.machine.context p (.running false) } ∧
      ∀ saved, watch.machine.context p = .parked saved → intena = saved := by
  have isOff := (inv.tracks c).off (by rw [proper.1]; exact Nat.one_pos)
  cases isContext : watch.machine.context p with
  | parked saved =>
      refine ⟨saved, ?_, ?_⟩
      · simp only [Machine.exec, Machine.resume, isContext, Cpu.mycpu_of_off isOff]
        rfl
      · intro other same
        cases same
        rfl
  | _ =>
      refine ⟨(watch.machine.cpu c).intena, ?_, nofun⟩
      rw [setCpu_self]
      simp only [Machine.exec, Machine.resume, isContext]

end Exec

/-! ## The invariant -/

/-- What is noted of a thread stays as it is. -/
structure Noted (watch : Watch) (t : Thread) (next : Watch) : Prop where
  opened : next.opened t = watch.opened t
  outer : next.outer t = watch.outer t
  held : next.held t = watch.held t

theorem Switched.congr {t : Thread} (switched : watch.Switched t) (noted : watch.Noted t next) :
    next.Switched t :=
  ⟨noted.opened.trans switched.opened, noted.held.trans switched.only⟩

/-- What a processor has, and its thread, stays as it is. -/
structure Same (watch : Watch) (c : CpuId) (next : Watch) : Prop where
  cpu : next.machine.cpu c = watch.machine.cpu c
  proc : next.machine.proc c = watch.machine.proc c
  spinning : next.machine.spinning c = watch.machine.spinning c
  lock : ∀ l, ((next.machine.lock l).locked = true ∧ (next.machine.lock l).cpu = some c) ↔
    ((watch.machine.lock l).locked = true ∧ (watch.machine.lock l).cpu = some c)
  noted : watch.Noted (watch.machine.thread c) next

theorem Tracks.congr (tracks : watch.Tracks c) (same : watch.Same c next) : next.Tracks c := by
  have sameThread : next.machine.thread c = watch.machine.thread c := by
    simp only [Machine.thread, same.proc]
  constructor
  · rw [same.cpu, sameThread, same.noted.opened]
    exact tracks.ncli
  · rw [same.cpu, sameThread, same.noted.opened]
    exact tracks.off
  · rw [same.cpu, sameThread, same.noted.opened, same.noted.outer]
    exact tracks.intena
  · intro l
    rw [same.lock, sameThread, same.noted.held]
    exact tracks.locks l
  · rw [same.spinning, sameThread, same.noted.opened, same.noted.held]
    exact tracks.spins

/-- The part of the invariant about a process that does not run. -/
structure Waits (watch : Watch) (p : Slot) : Prop where
  ready : (watch.machine.context p).isReady = true → watch.Switched (.process p)
  parked : ∀ intena before, watch.machine.context p = .parked intena →
    watch.outer (.process p) = some before → intena = before
  fresh : watch.machine.context p = .fresh → watch.outer (.process p) = none

theorem waits_of_running (isRunning : ∃ left, watch.machine.context p = .running left) :
    watch.Waits p := by
  rcases isRunning with ⟨left, isRunning⟩
  constructor
  · rw [isRunning]
    exact nofun
  · rw [isRunning]
    exact nofun
  · rw [isRunning]
    exact nofun

/-- What a step of a processor does to the processes `P`, and to no others. -/
structure Touches (watch : Watch) (c : CpuId) (P : Slot → Prop) (next : Watch) : Prop where
  panicked : next.machine.panicked = watch.machine.panicked
  cpus : ∀ other ≠ c, watch.Same other next
  schedulers : ∀ other ≠ c, watch.Noted (.scheduler other) next
  slots : ∀ p, ¬P p → watch.Noted (.process p) next ∧ next.machine.context p = watch.machine.context p
  away : ∀ other ≠ c, ∀ p, P p → watch.machine.proc other ≠ some p
  tracks : next.Tracks c
  runs : ∀ p, next.machine.proc c = some p → (∃ left, next.machine.context p = .running left) ∧
    next.Switched (.scheduler c) ∧ ∀ other ≠ c, watch.machine.proc other ≠ some p
  waits : ∀ p, P p → next.Waits p

theorem Touches.inv {P : Slot → Prop} (touches : watch.Touches c P next) (inv : watch.Inv) : next.Inv := by
  have waits : ∀ p, next.Waits p := by
    intro p
    by_cases isTouched : P p
    · exact touches.waits p isTouched
    · rcases touches.slots p isTouched with ⟨noted, context⟩
      constructor
      · rw [context]
        exact fun isReady => (inv.ready p isReady).congr noted
      · rw [context, noted.outer]
        exact inv.parked p
      · rw [context, noted.outer]
        exact inv.fresh p
  have procs : ∀ other ≠ c, ∀ p, next.machine.proc other = some p → watch.machine.proc other = some p :=
    fun other differ p isProc => (touches.cpus other differ).proc ▸ isProc
  constructor
  · rw [touches.panicked]
    exact inv.calm
  · intro other
    by_cases isHere : other = c
    · rw [isHere]
      exact touches.tracks
    · exact (inv.tracks other).congr (touches.cpus other isHere)
  · intro other p isProc
    by_cases isHere : other = c
    · rw [isHere] at isProc
      exact (touches.runs p isProc).1
    · have wasProc := procs other isHere p isProc
      rw [(touches.slots p fun isTouched => touches.away other isHere p isTouched wasProc).2]
      exact inv.placed other p wasProc
  · intro i j p iProc jProc
    by_cases iHere : i = c
    · by_contra differ
      rw [iHere] at iProc differ
      exact (touches.runs p iProc).2.2 j (Ne.symm differ) (procs j (Ne.symm differ) p jProc)
    · by_cases jHere : j = c
      · rw [jHere] at jProc
        exact absurd (procs i iHere p iProc) ((touches.runs p jProc).2.2 i iHere)
      · exact inv.alone i j p (procs i iHere p iProc) (procs j jHere p jProc)
  · intro other p isProc
    by_cases isHere : other = c
    · rw [isHere] at isProc ⊢
      exact (touches.runs p isProc).2.1
    · exact (inv.idle other p (procs other isHere p isProc)).congr (touches.schedulers other isHere)
  · exact fun p => (waits p).ready
  · exact fun p => (waits p).parked
  · exact fun p => (waits p).fresh

theorem Inv.stays (inv : watch.Inv) (proc : next.machine.proc c = watch.machine.proc c)
    (isProc : next.machine.proc c = some p) (noted : watch.Noted (.scheduler c) next) :
    next.Switched (.scheduler c) ∧ ∀ other ≠ c, watch.machine.proc other ≠ some p := by
  rw [proc] at isProc
  exact ⟨(inv.idle c p isProc).congr noted, fun other differ isThere =>
    differ (inv.alone other c p isThere isProc)⟩

/-- New values for what belongs to a processor and its thread. -/
def change (watch : Watch) (c : CpuId) (cpu : Cpu) (spin : Option LockId) (lock : LockId → Spinlock)
    (count : ℕ) (before : Option Bool) (has : Finset LockId) : Watch :=
  let t := watch.machine.thread c
  { machine :=
      { watch.machine with
        cpu := Function.update watch.machine.cpu c cpu
        spinning := Function.update watch.machine.spinning c spin
        lock := lock }
    opened := Function.update watch.opened t count
    outer := Function.update watch.outer t before
    held := Function.update watch.held t has }

section Change

variable {cpu : Cpu} {spin : Option LockId} {lock : LockId → Spinlock} {count : ℕ} {before : Option Bool}
  {has : Finset LockId}

theorem noted_change {t : Thread} (differ : t ≠ watch.machine.thread c) :
    watch.Noted t (watch.change c cpu spin lock count before has) :=
  ⟨update_of_ne differ .., update_of_ne differ .., update_of_ne differ ..⟩

theorem Inv.change (inv : watch.Inv) (ncli : cpu.ncli = count) (off : 0 < count → cpu.flagIf = false)
    (intena : ∀ flag, 0 < count → before = some flag → cpu.intena = flag)
    (locks : ∀ l, ((lock l).locked = true ∧ (lock l).cpu = some c) ↔ l ∈ has)
    (foreign : ∀ other ≠ c, ∀ l, ((lock l).locked = true ∧ (lock l).cpu = some other) ↔
      ((watch.machine.lock l).locked = true ∧ (watch.machine.lock l).cpu = some other))
    (spins : ∀ l, spin = some l → l ∉ has ∧ 0 < count) :
    (watch.change c cpu spin lock count before has).Inv := by
  have sameThread : (watch.change c cpu spin lock count before has).machine.thread c =
      watch.machine.thread c := rfl
  apply Touches.inv (c := c) (P := fun p => watch.machine.proc c = some p) _ inv
  constructor
  · rfl
  · intro other differ
    exact ⟨update_of_ne differ .., rfl, update_of_ne differ .., foreign other differ,
      noted_change (inv.thread_ne differ)⟩
  · intro other differ
    apply noted_change
    intro same
    exact differ (proc_of_scheduler same.symm).2.symm
  · intro p notProc
    exact ⟨noted_change fun same => notProc (proc_of_thread same.symm), rfl⟩
  · exact fun other differ p isProc isThere => differ (inv.alone other c p isThere isProc)
  · constructor <;> rw [sameThread] <;> simp only [Watch.change, update_self]
    · exact ncli
    · exact off
    · exact intena
    · exact locks
    · exact spins
  · intro p isProc
    refine ⟨inv.placed c p isProc, inv.stays rfl isProc (noted_change ?_)⟩
    rw [← sameThread, thread_some isProc]
    exact nofun
  · exact fun p isProc => waits_of_running (inv.placed c p isProc)

end Change

theorem step_of_ok {op : Op} {machine : Machine} (calm : watch.machine.panicked = none)
    (isEnabled : watch.machine.enabled c op = true) (executed : watch.machine.exec c op = .ok machine) :
    watch.step (c, op) = some { watch.note c op with machine := machine } := by
  simp only [step, calm, isEnabled, and_self, if_true, executed]

theorem enabled_of_step {op : Op} (stepped : watch.step (c, op) = some next) :
    watch.machine.enabled c op = true := by
  by_contra disabled
  rw [step, if_neg (fun both => disabled both.2)] at stepped
  contradiction

theorem Inv.next_eq {op : Op} {machine : Machine} (inv : watch.Inv)
    (stepped : watch.step (c, op) = some next) (executed : watch.machine.exec c op = .ok machine) :
    next = { watch.note c op with machine := machine } := by
  rw [step_of_ok inv.calm (enabled_of_step stepped) executed] at stepped
  exact (Option.some.inj stepped).symm

/-- The flag before the outermost push, after one more push. -/
def outerPushed (watch : Watch) (c : CpuId) : Option Bool :=
  if watch.opened (watch.machine.thread c) = 0 then some (watch.machine.cpu c).flagIf
  else watch.outer (watch.machine.thread c)

theorem outer_push : (watch.push c).outer =
    update watch.outer (watch.machine.thread c) (watch.outerPushed c) := by
  by_cases isFirst : watch.opened (watch.machine.thread c) = 0
  · simp only [push, outerPushed, if_pos isFirst]
  · simp only [push, outerPushed, if_neg isFirst, update_eq_self]

section Steps

variable (inv : watch.Inv)

include inv

theorem Inv.of_push {spin : Option LockId} (spins : ∀ l, spin = some l → l ∉ watch.held (watch.machine.thread c)) :
    (watch.change c (watch.machine.cpu c).pushed spin watch.machine.lock
      (watch.opened (watch.machine.thread c) + 1) (watch.outerPushed c)
      (watch.held (watch.machine.thread c))).Inv := by
  have isCount := (inv.tracks c).ncli
  apply inv.change
  · rw [Cpu.pushed, isCount]
    rfl
  · exact fun _ => rfl
  · intro flag _ isOuter
    by_cases isFirst : watch.opened (watch.machine.thread c) = 0
    · rw [outerPushed, if_pos isFirst] at isOuter
      rw [Cpu.pushed, if_pos (by omega)]
      exact Option.some.inj isOuter
    · rw [outerPushed, if_neg isFirst] at isOuter
      rw [Cpu.pushed, if_neg (by omega)]
      exact (inv.tracks c).intena flag (Nat.pos_of_ne_zero isFirst) isOuter
  · exact (inv.tracks c).locks
  · exact fun _ _ _ => Iff.rfl
  · exact fun l isSpinning => ⟨spins l isSpinning, Nat.succ_pos _⟩

theorem Inv.step_pushcli (stepped : watch.step (c, .pushcli) = some next) : next.Inv := by
  have executed : watch.machine.exec c .pushcli =
      .ok (watch.machine.setCpu c (watch.machine.cpu c).pushed) := by
    simp only [Machine.exec, Cpu.pushcli_eq]
    rfl
  have pushed := inv.of_push fun l isSpinning => ((inv.tracks c).spins l isSpinning).1
  rw [inv.next_eq stepped executed]
  simp only [Watch.change, update_eq_self] at pushed
  simp only [note, outer_push]
  exact pushed

theorem Inv.step_acquire (proper : watch.Proper (c, .acquire l))
    (stepped : watch.step (c, .acquire l) = some next) : next.Inv := by
  have pushed : (watch.change c _ (some l) _ _ _ _).Inv := inv.of_push fun k isSame =>
    Option.some.inj isSame ▸ proper
  rw [inv.next_eq stepped (inv.exec_acquire proper)]
  simp only [Watch.change, update_eq_self] at pushed
  simp only [note, outer_push]
  exact pushed

theorem Inv.of_pop (lock : LockId → Spinlock) (has : Finset LockId)
    (isOpen : 0 < watch.opened (watch.machine.thread c)) (notSpinning : watch.machine.spinning c = none)
    (locks : ∀ l, ((lock l).locked = true ∧ (lock l).cpu = some c) ↔ l ∈ has)
    (foreign : ∀ other ≠ c, ∀ l, ((lock l).locked = true ∧ (lock l).cpu = some other) ↔
      ((watch.machine.lock l).locked = true ∧ (watch.machine.lock l).cpu = some other)) :
    (watch.change c (watch.machine.cpu c).popped (watch.machine.spinning c) lock
      (watch.opened (watch.machine.thread c) - 1) (watch.outer (watch.machine.thread c)) has).Inv := by
  have isCount := (inv.tracks c).ncli
  apply inv.change
  · change (watch.machine.cpu c).ncli - 1 = _
    omega
  · intro stillOpen
    have isInner : ¬(watch.machine.cpu c).ncli = 1 := by omega
    rw [Cpu.popped, decide_eq_false isInner, Bool.false_and]
  · exact fun flag _ isOuter => (inv.tracks c).intena flag isOpen isOuter
  · exact locks
  · exact foreign
  · rw [notSpinning]
    exact nofun

theorem Inv.step_popcli (proper : watch.Proper (c, .popcli))
    (stepped : watch.step (c, .popcli) = some next) : next.Inv := by
  have popped := inv.of_pop _ _ proper (Option.isNone_iff_eq_none.1 (enabled_of_step stepped))
    (inv.tracks c).locks fun _ _ _ => Iff.rfl
  rw [inv.next_eq stepped (inv.exec_popcli proper)]
  simp only [Watch.change, update_eq_self] at popped
  exact popped

theorem Inv.step_release (proper : watch.Proper (c, .release l))
    (stepped : watch.step (c, .release l) = some next) : next.Inv := by
  have taken := ((inv.tracks c).locks l).2 proper.1
  have popped := inv.of_pop (update watch.machine.lock l { locked := false, cpu := none })
    ((watch.held (watch.machine.thread c)).erase l) proper.2 (Option.isNone_iff_eq_none.1 (enabled_of_step stepped)) ?_ ?_
  · rw [inv.next_eq stepped (inv.exec_release proper)]
    simp only [Watch.change, update_eq_self] at popped
    exact popped
  · intro k
    by_cases isSame : k = l
    · rw [isSame, update_self]
      simp
    · rw [update_of_ne isSame, Finset.mem_erase, and_iff_right isSame]
      exact (inv.tracks c).locks k
  · intro other differ k
    by_cases isSame : k = l
    · rw [isSame, update_self, taken.2]
      simp [Ne.symm differ]
    · rw [update_of_ne isSame]

theorem Inv.step_setIf {flag : Bool} (proper : watch.Proper (c, .setIf flag))
    (stepped : watch.step (c, .setIf flag) = some next) : next.Inv := by
  have isClosed : watch.opened (watch.machine.thread c) = 0 := proper
  have set : (watch.change c { watch.machine.cpu c with flagIf := flag } _ _ _
      (watch.outer (watch.machine.thread c)) _).Inv :=
    inv.change (inv.tracks c).ncli (fun isOpen => by omega) (fun _ isOpen => by omega) (inv.tracks c).locks (fun _ _ _ => Iff.rfl)
    (inv.tracks c).spins
  rw [inv.next_eq stepped rfl]
  simp only [Watch.change, update_eq_self] at set
  exact set

theorem Inv.step_xchg (stepped : watch.step (c, .xchg) = some next) : next.Inv := by
  rcases Option.isSome_iff_exists.1 (enabled_of_step stepped) with ⟨l, isSpinning⟩
  have isNext := inv.next_eq stepped (inv.exec_xchg isSpinning)
  by_cases isLocked : (watch.machine.lock l).locked = true
  · simp only [note, isSpinning, if_pos isLocked] at isNext
    rw [isNext]
    exact inv
  · have taken : (watch.change c (watch.machine.cpu c) none
        (update watch.machine.lock l { locked := true, cpu := some c })
        (watch.opened (watch.machine.thread c)) (watch.outer (watch.machine.thread c))
        (insert l (watch.held (watch.machine.thread c)))).Inv := by
      apply inv.change (inv.tracks c).ncli (inv.tracks c).off (inv.tracks c).intena
      · intro k
        by_cases isSame : k = l
        · rw [isSame, update_self]
          simp
        · rw [update_of_ne isSame, Finset.mem_insert, or_iff_right isSame]
          exact (inv.tracks c).locks k
      · intro other differ k
        by_cases isSame : k = l
        · rw [isSame, update_self]
          simp [Ne.symm differ, isLocked]
        · rw [update_of_ne isSame]
      · exact nofun
    simp only [Watch.change, update_eq_self] at taken
    simp only [note, isSpinning, if_neg isLocked] at isNext
    rw [isNext]
    exact taken

end Steps

/-! ## Processes that change their place -/

theorem Inv.place {place : Context} (inv : watch.Inv)
    (isNext : next.machine =
      { watch.machine with context := update watch.machine.context p place })
    (noted : ∀ t ≠ .process p, watch.Noted t next)
    (away : ∀ other ≠ c, watch.machine.proc other ≠ some p)
    (here : watch.machine.proc c = some p →
      watch.Noted (.process p) next ∧ ∃ left, place = .running left)
    (waits : next.Waits p) : next.Inv := by
  have same : ∀ other, watch.Same other next := by
    intro other
    constructor
    · rw [isNext]
    · rw [isNext]
    · rw [isNext]
    · rw [isNext]
      exact fun _ => Iff.rfl
    · by_cases isProcess : watch.machine.thread other = .process p
      · have isProc := proc_of_thread isProcess
        by_cases isHere : other = c
        · rw [isProcess]
          exact (here (isHere ▸ isProc)).1
        · exact absurd isProc (away other isHere)
      · exact noted _ isProcess
  apply Touches.inv (c := c) (P := fun q => q = p) _ inv
  constructor
  · rw [isNext]
  · exact fun other _ => same other
  · exact fun other _ => noted _ nofun
  · intro q differ
    refine ⟨noted _ fun isSame => differ (Thread.process.inj isSame), ?_⟩
    rw [isNext]
    exact update_of_ne differ ..
  · rintro other differ q rfl
    exact away other differ
  · exact (inv.tracks c).congr (same c)
  · intro q isProc
    refine ⟨?_, inv.stays (same c).proc isProc (noted _ nofun)⟩
    rw [(same c).proc] at isProc
    rw [isNext]
    by_cases isSame : q = p
    · rw [isSame] at isProc ⊢
      simp only [update_self]
      exact (here isProc).2
    · simp only [update_of_ne isSame]
      exact inv.placed c q isProc
  · rintro q rfl
    exact waits

theorem Inv.step_leave (inv : watch.Inv) (stepped : watch.step (c, .leave) = some next) : next.Inv := by
  have isEnabled := enabled_of_step stepped
  simp only [Machine.enabled, Bool.and_eq_true] at isEnabled
  rcases Option.isSome_iff_exists.1 isEnabled.2 with ⟨p, isProc⟩
  have executed : watch.machine.exec c .leave = .ok
      { watch.machine with context := update watch.machine.context p (.running true) } := by
    simp only [Machine.exec, isProc]
  rw [inv.next_eq stepped executed]
  apply inv.place (c := c) rfl
  · exact fun _ _ => ⟨rfl, rfl, rfl⟩
  · exact fun other differ isThere => differ (inv.alone other c p isThere isProc)
  · exact fun _ => ⟨⟨rfl, rfl, rfl⟩, true, rfl⟩
  · exact waits_of_running ⟨true, update_self ..⟩

theorem Inv.away (inv : watch.Inv) (notRunning : ∀ left, watch.machine.context p ≠ .running left)
    (c : CpuId) : watch.machine.proc c ≠ some p := by
  intro isProc
  rcases inv.placed c p isProc with ⟨left, isRunning⟩
  exact notRunning left isRunning

theorem Inv.step_fork (inv : watch.Inv) (stepped : watch.step (c, .fork p) = some next) : next.Inv := by
  have isEnabled := enabled_of_step stepped
  simp only [Machine.enabled, Bool.and_eq_true, beq_iff_eq] at isEnabled
  have away := inv.away (p := p) (by rw [isEnabled.2]; exact nofun)
  have isNext := inv.next_eq stepped rfl
  rw [isNext]
  apply inv.place (c := c) rfl
  · intro t differ
    exact ⟨update_of_ne differ .., update_of_ne differ .., update_of_ne differ ..⟩
  · exact fun other _ => away other
  · exact fun isProc => absurd isProc (away c)
  · constructor
    · exact fun _ => ⟨update_self .., update_self ..⟩
    · simp only [update_self]
      exact nofun
    · exact fun _ => update_self ..

theorem Inv.step_reap (inv : watch.Inv) (stepped : watch.step (c, .reap p) = some next) : next.Inv := by
  have isEnabled := enabled_of_step stepped
  simp only [Machine.enabled, Bool.and_eq_true] at isEnabled
  have away := inv.away (p := p) fun left isRunning => by
    rw [isRunning] at isEnabled
    exact absurd isEnabled.2 nofun
  rw [inv.next_eq stepped rfl]
  apply inv.place (c := c) rfl
  · exact fun _ _ => ⟨rfl, rfl, rfl⟩
  · exact fun other _ => away other
  · exact fun isProc => absurd isProc (away c)
  · constructor
    · simp only [update_self]
      exact nofun
    · simp only [update_self]
      exact nofun
    · simp only [update_self]
      exact nofun

/-! ## Switches -/

/-- A switch at a processor, to or from a process: both threads have `ptable.lock` only, and nothing
changes but who runs. -/
theorem Inv.switch (inv : watch.Inv) (cpu : Cpu) (proc : Option Slot) (place : Context)
    (isNext : next.machine =
      { watch.machine with
        cpu := update watch.machine.cpu c cpu
        proc := update watch.machine.proc c proc
        context := update watch.machine.context p place })
    (opened : next.opened = watch.opened) (held : next.held = watch.held)
    (outer : ∀ t ≠ .scheduler c, next.outer t = watch.outer t)
    (ncli : cpu.ncli = (watch.machine.cpu c).ncli) (flagIf : cpu.flagIf = (watch.machine.cpu c).flagIf)
    (notSpinning : watch.machine.spinning c = none)
    (before : watch.Switched (watch.machine.thread c)) (after : watch.Switched (next.machine.thread c))
    (intena : ∀ flag, next.outer (next.machine.thread c) = some flag → cpu.intena = flag)
    (away : ∀ other ≠ c, watch.machine.proc other ≠ some p)
    (runs : ∀ q, proc = some q → q = p ∧ (∃ left, place = .running left) ∧ watch.Switched (.scheduler c))
    (waits : next.Waits p) : next.Inv := by
  have noted : ∀ t ≠ .scheduler c, watch.Noted t next :=
    fun t differ => ⟨congrFun opened t, outer t differ, congrFun held t⟩
  have isCpu : next.machine.cpu c = cpu := by
    rw [isNext]
    exact update_self ..
  apply Touches.inv (c := c) (P := fun q => q = p) _ inv
  constructor
  · rw [isNext]
  · intro other differ
    constructor
    · rw [isNext]
      exact update_of_ne differ ..
    · rw [isNext]
      exact update_of_ne differ ..
    · rw [isNext]
    · rw [isNext]
      exact fun _ => Iff.rfl
    · exact noted _ fun isScheduler => differ (proc_of_scheduler isScheduler).2
  · intro other differ
    apply noted
    intro isSame
    exact differ (Thread.scheduler.inj isSame)
  · intro q differ
    refine ⟨noted _ nofun, ?_⟩
    rw [isNext]
    exact update_of_ne differ ..
  · rintro other differ q rfl
    exact away other differ
  · have tracks := inv.tracks c
    constructor
    · rw [isCpu, ncli, opened, tracks.ncli, before.opened, after.opened]
    · intro _
      rw [isCpu, flagIf]
      apply tracks.off
      rw [before.opened]
      exact Nat.one_pos
    · rw [isCpu]
      exact fun flag _ => intena flag
    · intro l
      have sameLock : next.machine.lock = watch.machine.lock := by rw [isNext]
      rw [sameLock, held, tracks.locks l, before.only, after.only]
    · have sameSpinning : next.machine.spinning = watch.machine.spinning := by rw [isNext]
      rw [sameSpinning, notSpinning]
      exact nofun
  · intro q isProc
    rw [isNext] at isProc ⊢
    simp only [update_self] at isProc
    rcases runs q isProc with ⟨rfl, isRunning, idle⟩
    simp only [update_self]
    refine ⟨isRunning, ⟨?_, ?_⟩, away⟩
    · rw [opened]
      exact idle.opened
    · rw [held]
      exact idle.only
  · rintro q rfl
    exact waits

theorem Inv.step_sched (inv : watch.Inv) (proper : watch.Proper (c, .sched))
    (stepped : watch.step (c, .sched) = some next) : next.Inv := by
  have isEnabled := enabled_of_step stepped
  simp only [Machine.enabled, Bool.and_eq_true, Option.isNone_iff_eq_none] at isEnabled
  rcases Option.isSome_iff_exists.1 isEnabled.2 with ⟨p, isProc⟩
  have isNext := inv.next_eq stepped (inv.exec_sched isProc proper)
  have isScheduler : next.machine.thread c = .scheduler c := by
    rw [isNext]
    exact thread_none (update_self ..)
  have isPlace : next.machine.context p = .parked (watch.machine.cpu c).intena := by
    rw [isNext]
    exact update_self ..
  have before : watch.Switched (.process p) := by
    rw [← thread_some isProc]
    exact ⟨proper.1, proper.2.1⟩
  have isOuter : ∀ t ≠ .scheduler c, next.outer t = watch.outer t := by
    rw [isNext]
    exact fun t differ => update_of_ne differ ..
  apply inv.switch (c := c) (p := p) (watch.machine.cpu c) none (.parked (watch.machine.cpu c).intena)
  · rw [isNext, update_eq_self]
  · rw [isNext]
    rfl
  · rw [isNext]
    rfl
  · exact isOuter
  · rfl
  · rfl
  · exact isEnabled.1
  · rw [thread_some isProc]
    exact before
  · rw [isScheduler]
    exact inv.idle c p isProc
  · intro flag noted
    rw [isScheduler, isNext] at noted
    simp only [note, update_self] at noted
    contradiction
  · exact fun other differ isThere => differ (inv.alone other c p isThere isProc)
  · exact nofun
  · constructor
    · intro _
      rw [isNext]
      exact ⟨before.opened, before.only⟩
    · intro intena flag isParked noted
      rw [isPlace] at isParked
      cases isParked
      rw [isOuter (.process p) nofun, ← thread_some isProc] at noted
      apply (inv.tracks c).intena flag _ noted
      rw [thread_some isProc, before.opened]
      exact Nat.one_pos
    · rw [isPlace]
      exact nofun

theorem Inv.step_resume (inv : watch.Inv) (proper : watch.Proper (c, .resume p))
    (stepped : watch.step (c, .resume p) = some next) : next.Inv := by
  have isEnabled := enabled_of_step stepped
  simp only [Machine.enabled, Bool.and_eq_true, Option.isNone_iff_eq_none] at isEnabled
  rcases isEnabled with ⟨⟨notSpinning, isScheduler⟩, isReady⟩
  rcases inv.exec_resume proper with ⟨intena, executed, isSaved⟩
  have isNext := inv.next_eq stepped executed
  have isProcess : next.machine.thread c = .process p := by
    rw [isNext]
    exact thread_some (update_self ..)
  have notRunning : ∀ left, watch.machine.context p ≠ .running left := by
    intro left isRunning
    rw [isRunning] at isReady
    contradiction
  apply inv.switch (c := c) (p := p) { watch.machine.cpu c with intena := intena } (some p) (.running false)
  · rw [isNext]
    rfl
  · rw [isNext]
    rfl
  · rw [isNext]
    rfl
  · rw [isNext]
    exact fun _ _ => rfl
  · rfl
  · rfl
  · exact notSpinning
  · exact ⟨proper.1, proper.2⟩
  · rw [isProcess]
    exact inv.ready p isReady
  · intro flag isOuter
    rw [isProcess, isNext] at isOuter
    cases isContext : watch.machine.context p with
    | parked saved =>
        exact (isSaved saved isContext).trans (inv.parked p saved flag isContext isOuter)
    | fresh => exact absurd ((inv.fresh p isContext).symm.trans isOuter) nofun
    | unused =>
        rw [isContext] at isReady
        contradiction
    | running left => exact absurd isContext (notRunning left)
  · exact fun other _ => inv.away notRunning other
  · intro q isSame
    cases isSame
    refine ⟨rfl, ⟨false, rfl⟩, ?_⟩
    rw [← thread_none isScheduler]
    exact ⟨proper.1, proper.2⟩
  · rw [isNext]
    exact waits_of_running ⟨false, update_self ..⟩

/-! ## Runs -/

theorem Inv.step (inv : watch.Inv) {label : CpuId × Op} (proper : watch.Proper label)
    (stepped : watch.step label = some next) : next.Inv := by
  rcases label with ⟨c, op⟩
  cases op with
  | pushcli => exact inv.step_pushcli stepped
  | popcli => exact inv.step_popcli proper stepped
  | acquire l => exact inv.step_acquire proper stepped
  | xchg => exact inv.step_xchg stepped
  | release l => exact inv.step_release proper stepped
  | setIf flag => exact inv.step_setIf proper stepped
  | leave => exact inv.step_leave stepped
  | sched => exact inv.step_sched proper stepped
  | resume p => exact inv.step_resume proper stepped
  | fork p => exact inv.step_fork stepped
  | reap p => exact inv.step_reap stepped

theorem Initial.inv (initial : watch.Initial) : watch.Inv := by
  have notProc : ∀ c p, watch.machine.proc c ≠ some p := by
    intro c p isProc
    rw [initial.proc c] at isProc
    contradiction
  constructor
  · exact initial.calm
  · intro c
    constructor
    · rw [initial.ncli, initial.opened]
      rfl
    · rw [initial.opened]
      exact fun isOpen => absurd isOpen (Nat.lt_irrefl 0)
    · rw [initial.opened]
      exact fun _ isOpen => absurd isOpen (Nat.lt_irrefl 0)
    · intro l
      rw [initial.lock, initial.held]
      simp
    · intro l isSpinning
      rw [initial.spinning] at isSpinning
      contradiction
  · exact fun c p isProc => absurd isProc (notProc c p)
  · exact fun c _ p isProc => absurd isProc (notProc c p)
  · exact fun c p isProc => absurd isProc (notProc c p)
  · intro p isReady
    rw [initial.context] at isReady
    contradiction
  · intro p _ _ isParked
    rw [initial.context] at isParked
    contradiction
  · intro p isFresh
    rw [initial.context] at isFresh
    contradiction

theorem Initial.run {start : Watch} {trace : Trace Watch (CpuId × Op)} (initial : start.Initial)
    (run : Run step start trace watch) (proper : Trace.All Proper trace) : watch.Inv :=
  run.stateInvariant Inv initial.inv (fun inv proper stepped => inv.step proper stepped) proper

end Watch

end Xv6.Interrupts
