import Xv6.Kernel.History
import Xv6.Kernel.Waiting

/-!
# Sleep locks

`sleeplock.c`, one lock and any number of processes. A process is inside from the store to
`locked` in its `acquiresleep` to the next time its own `releasesleep` has looked at the owner;
processes are told apart by their pids, which are never given out twice.
-/

namespace Xv6

open Threads Transition Discipline

/-- `struct sleeplock`. The spin lock `lk->lk` and the channel `lk` are `Lock.sleeplock` and
`Chan.sleeplock`. -/
structure Sleeplock where
  locked : Bool
  pid : ℤ
  deriving DecidableEq, Repr

def initsleeplock : Sleeplock where
  locked := false
  pid := 0

/-- What `holdingsleep` returns to a process. -/
def Sleeplock.holdingsleep (lock : Sleeplock) (pid : ℤ) : Bool := lock.locked && lock.pid = pid

/-- The parts of the three functions under `lk->lk`. -/
inductive SleepAct where
  | acquiresleep
  | releasesleep
  | holdingsleep
  deriving DecidableEq

def sleeplockExec (act : SleepAct) (curproc : Slot) (kern : Kern Sleeplock) :
    Kern Sleeplock × Code Lock (Act SleepAct) :=
  let pid := (kern.proc curproc).pid
  match act with
  | .acquiresleep =>
      if kern.sub.locked then
        (kern, sleep .sleeplock .sleeplock ++ [.act (.sub .acquiresleep)])
      else ({ kern with sub := { locked := true, pid } }, [.release .sleeplock])
  | .releasesleep =>
      if kern.sub.pid ≠ pid then (kern, [.release .sleeplock])
      else
        ({ kern with sub := { locked := false, pid := 0 } },
          wakeup .sleeplock ++ [.release .sleeplock])
  | .holdingsleep => (kern, [.release .sleeplock])

def sleeplocks : Subsystem Sleeplock SleepAct SleepAct Empty where
  exec := fun act thread _ kern =>
    match thread with
    | .proc curproc => some (sleeplockExec act curproc kern)
    | .scheduler _ => none
  entry := fun act => [.acquire .sleeplock, .act (.sub act)]
  intr := fun intr => intr.elim

variable {ncpu : ℕ}

abbrev SleepMachine (ncpu : ℕ) := Machine Sleeplock SleepAct ncpu

abbrev SleepLabel (ncpu : ℕ) := Label (Fin ncpu) (Entry SleepAct) (Intr Empty)

def sleepStep : SleepMachine ncpu → SleepLabel ncpu → Option (SleepMachine ncpu) :=
  (kernel sleeplocks ncpu).step

/-- The process with this pid has got the lock and has not called `releasesleep` since. -/
def Inside : Trace (SleepMachine ncpu) (SleepLabel ncpu) → ℤ → Prop
  | [], _ => False
  | (before, label) :: trace, pid =>
      match label with
      | .run cpu _ =>
          match before.cur cpu, before.running cpu with
          | .proc slot, .act (.sub .acquiresleep) :: _ =>
              (before.shared.sub.locked = false ∧ (before.shared.proc slot).pid = pid) ∨
                Inside trace pid
          | .proc slot, .act (.sub .releasesleep) :: _ =>
              (before.shared.proc slot).pid ≠ pid ∧ Inside trace pid
          | _, _ => Inside trace pid
      | _ => Inside trace pid

/-! ## Lock discipline -/

def sleepLocking : SubLocking SleepAct where
  needs := fun _ held => held = {.sleeplock}
  leaves := fun _ _ => ∅
  leaves_subset := by simp

inductive SleepExecs (kern : Kern Sleeplock) (curproc : Slot) :
    SleepAct → Sleeplock → Code Lock (Act SleepAct) → Prop
  | wait (locked : kern.sub.locked = true) :
      SleepExecs kern curproc .acquiresleep kern.sub
        (sleep .sleeplock .sleeplock ++ [.act (.sub .acquiresleep)])
  | take (free : kern.sub.locked = false) :
      SleepExecs kern curproc .acquiresleep ⟨true, (kern.proc curproc).pid⟩ [.release .sleeplock]
  | foreign (other : kern.sub.pid ≠ (kern.proc curproc).pid) :
      SleepExecs kern curproc .releasesleep kern.sub [.release .sleeplock]
  | give (own : kern.sub.pid = (kern.proc curproc).pid) :
      SleepExecs kern curproc .releasesleep ⟨false, 0⟩ (wakeup .sleeplock ++ [.release .sleeplock])
  | ask : SleepExecs kern curproc .holdingsleep kern.sub [.release .sleeplock]

theorem sleeplocks_exec {act : SleepAct} {thread : Thread ncpu} {choice : ℕ}
    {kern : Kern Sleeplock} {result : Kern Sleeplock × Code Lock (Act SleepAct)}
    (ran : sleeplocks.exec act thread choice kern = some result) :
    ∃ curproc lock code, thread = .proc curproc ∧ result = ({ kern with sub := lock }, code) ∧
      SleepExecs kern curproc act lock code := by
  cases thread with
  | scheduler own => simp [sleeplocks] at ran
  | proc curproc =>
      simp only [sleeplocks, Option.some.injEq] at ran
      subst ran
      cases act with
      | acquiresleep =>
          simp only [sleeplockExec]
          split
          · rename_i locked
            exact ⟨curproc, _, _, rfl, rfl, .wait locked⟩
          · rename_i free
            exact ⟨curproc, _, _, rfl, rfl, .take (by simpa using free)⟩
      | releasesleep =>
          simp only [sleeplockExec]
          split
          · rename_i other
            exact ⟨curproc, _, _, rfl, rfl, .foreign other⟩
          · rename_i own
            exact ⟨curproc, _, _, rfl, rfl, .give (not_not.mp own)⟩
      | holdingsleep => exact ⟨curproc, _, _, rfl, rfl, .ask⟩

theorem sleepLaws : SubLaws sleeplocks sleepLocking where
  entry_runs := by
    intro entry
    simp [sleeplocks, Runs, discipline, Act.needs, Act.leaves, sleepLocking]
  intr_runs := fun intr => intr.elim
  exec_runs := by
    intro ncpu act thread choice kern result held needs ran
    obtain rfl : held = {.sleeplock} := needs
    rcases sleeplocks_exec ran with ⟨curproc, lock, code, _, rfl, execs⟩
    have released : (discipline sleepLocking).Runs {.sleeplock} [.release .sleeplock] ∅ := by
      simp [Runs]
    cases execs with
    | wait locked =>
        apply runs_sleep.append
        simp [Runs, discipline, Act.needs, Act.leaves, sleepLocking]
    | give own => exact (runs_wakeup (by simp)).append released
    | take | foreign | ask => exact released
  entry_forks := by simp [sleeplocks, forkSites, forkSite]
  intr_forks := fun intr => intr.elim
  exec_forks := by
    intro ncpu act thread choice kern result ran
    rcases sleeplocks_exec ran with ⟨curproc, lock, code, _, rfl, execs⟩
    cases execs <;> simp [forkSites, forkSite, wakeup]

theorem sleepPlain : SubPlain sleeplocks where
  entry := by simp [sleeplocks, Plain]
  intr := fun intr => intr.elim
  exec := by
    intro ncpu act thread choice kern result ran
    rcases sleeplocks_exec ran with ⟨curproc, lock, code, _, rfl, execs⟩
    refine ⟨rfl, rfl, rfl, ?_⟩
    cases execs with
    | wait locked =>
        simp only [List.forall_mem_append]
        exact ⟨plain_sleep (by simp), by simp [Plain]⟩
    | _ => simp [Plain, wakeup]

/-! ## No wakeup is lost -/

/-- Processes wait while the lock is taken. -/
def sleepRule : WaitRule Sleeplock where
  chan := .sleeplock
  lk := .sleeplock
  blocked := fun lock => lock.locked = true

theorem sleepKeeps : sleepRule.Keeps sleeplocks where
  notCore := not_false
  entry := by simp [sleeplocks]
  intr := fun intr => intr.elim

theorem sleepWakes : sleepRule.WakesUnderLock sleeplocks where
  different := by simp [sleepRule]
  notCore := not_false
  entry := by simp [sleeplocks]
  intr := fun intr => intr.elim
  exec := by
    intro ncpu act thread choice kern result ran mem
    rcases sleeplocks_exec ran with ⟨curproc, lock, code, _, rfl, execs⟩
    cases execs with
    | give own => exact WaitRule.atWakeup_release
    | wait locked => simp [sleep, sleepRule] at mem
    | _ => simp at mem

section Step

variable {state next : SleepMachine ncpu} {cpu : Fin ncpu} {label : SleepLabel ncpu}
  {rest : Code Lock (Act SleepAct)} {act : SleepAct} {choice : ℕ}
  {trace : Trace (SleepMachine ncpu) (SleepLabel ncpu)}

theorem sleepRule_step {allowed : Lock → Lock → Prop}
    {result : Kern Sleeplock × Code Lock (Act SleepAct)}
    (core : CoreInv sleepLocking allowed state)
    (head : state.running cpu = .act (.sub act) :: rest)
    (ran : sleeplocks.exec act (state.cur cpu) choice state.shared = some result) :
    sleepRule.Step state cpu rest result := by
  rcases sleeplocks_exec ran with ⟨curproc, lock, code, _, rfl, execs⟩
  refine ⟨?_, ?_⟩
  · intro mem
    cases execs with
    | wait locked => exact ⟨WaitRule.atSleep_sleep (by simp), locked⟩
    | _ => simp [sleepRule, wakeup] at mem
  · intro blocked
    cases execs with
    | take free => exact Or.inl rfl
    | wait | foreign | ask => exact Or.inl blocked
    | give own =>
        right
        refine ⟨?_, by simp [wakeup, sleepRule]⟩
        rcases core.tracked.current cpu with ⟨held, holds, obeys⟩
        rw [head] at obeys
        have heldIs : held = {.sleeplock} := obeys.runs.1
        apply (holds.mem _).mp
        simp [heldIs, sleepRule]

/-! ## Who is inside -/

structure OwnerInv (trace : Trace (SleepMachine ncpu) (SleepLabel ncpu))
    (lock : Sleeplock) : Prop where
  inside : ∀ pid, Inside trace pid ↔ lock.locked = true ∧ lock.pid = pid
  nobody : lock.locked = false → lock.pid = 0

theorem inside_cons_of_ne {pid : ℤ}
    (notSub : ∀ cpu choice rest, label = .run cpu choice →
      state.running cpu ≠ .act (.sub .acquiresleep) :: rest ∧
        state.running cpu ≠ .act (.sub .releasesleep) :: rest) :
    Inside ((state, label) :: trace) pid ↔ Inside trace pid := by
  cases label with
  | run cpu choice =>
      simp only [Inside]
      split
      · rename_i head
        exact absurd head (notSub cpu choice _ rfl).1
      · rename_i head
        exact absurd head (notSub cpu choice _ rfl).2
      · rfl
  | call | intr => rfl

theorem OwnerInv.exec {curproc : Slot} {lock : Sleeplock} {code : Code Lock (Act SleepAct)}
    (inv : OwnerInv trace state.shared.sub) (onCpu : state.cur cpu = .proc curproc)
    (head : state.running cpu = .act (.sub act) :: rest)
    (execs : SleepExecs state.shared curproc act lock code) :
    OwnerInv ((state, .run cpu choice) :: trace) lock := by
  cases execs with
  | wait locked =>
      refine ⟨?_, inv.nobody⟩
      intro pid
      simp only [Inside, onCpu, head, locked, Bool.true_eq_false, false_and, false_or]
      simp [inv.inside pid, locked]
  | take free =>
      refine ⟨?_, by simp⟩
      intro pid
      simp only [Inside, onCpu, head, free, true_and]
      refine or_iff_left ?_
      intro inside
      simp [(inv.inside pid).mp inside] at free
  | foreign other =>
      refine ⟨?_, inv.nobody⟩
      intro pid
      simp only [Inside, onCpu, head]
      rw [inv.inside pid]
      refine and_iff_right_of_imp ?_
      rintro ⟨_, rfl⟩
      exact Ne.symm other
  | give own =>
      refine ⟨?_, by simp⟩
      intro pid
      simp only [Inside, onCpu, head, Bool.false_eq_true, false_and, iff_false, not_and]
      intro different inside
      exact different (own.symm.trans ((inv.inside pid).mp inside).2)
  | ask =>
      refine ⟨?_, inv.nobody⟩
      intro pid
      rw [inside_cons_of_ne, inv.inside pid]
      rintro other choice after ⟨⟩
      simp [head]

structure SleepInv (trace : Trace (SleepMachine ncpu) (SleepLabel ncpu))
    (state : SleepMachine ncpu) : Prop where
  life : LifeInv sleepLocking (fun _ _ => True) state
  pids : state.shared.Pids
  lost : sleepRule.NoneLost state
  under : sleepRule.UnderLock state
  owner : OwnerInv trace state.shared.sub

theorem SleepInv.owner_step (inv : SleepInv trace state)
    (stepped : sleepStep state label = some next) :
    OwnerInv ((state, label) :: trace) next.shared.sub := by
  cases Program.step_cases stepped with
  | @act cpu choice act rest outcome head executed =>
      have executed : exec sleeplocks act cpu (state.cur cpu) choice state.shared = some outcome :=
        executed
      rcases act.sub_or_not with ⟨subAct, rfl⟩ | notSub
      · simp only [exec, Option.map_eq_some_iff] at executed
        rcases executed with ⟨result, ran, rfl⟩
        rcases sleeplocks_exec ran with ⟨curproc, lock, code, onCpu, rfl, execs⟩
        exact inv.owner.exec onCpu head execs
      · have stays := staysOut_exec executed notSub
        have sameSub : (state.apply cpu (state.cur cpu) rest outcome).shared.sub =
            state.shared.sub := stays.sub
        rw [sameSub]
        refine ⟨?_, inv.owner.nobody⟩
        intro pid
        rw [inside_cons_of_ne, inv.owner.inside pid]
        rintro other choice after ⟨⟩
        rw [head]
        refine ⟨?_, ?_⟩ <;>
        · rintro ⟨⟩
          exact notSub _ rfl
  | acquire head free | release head owned =>
      refine ⟨?_, inv.owner.nobody⟩
      intro pid
      rw [inside_cons_of_ne]
      · exact inv.owner.inside pid
      · rintro other choice after ⟨⟩
        simp [head]
  | call | intr => exact ⟨inv.owner.inside, inv.owner.nobody⟩

theorem SleepInv.step (inv : SleepInv trace state) (stepped : sleepStep state label = some next) :
    SleepInv ((state, label) :: trace) next where
  life := inv.life.step sleepLaws sleepPlain stepped nestsAllowed_of_all
  pids := inv.life.core.pids sleepPlain inv.pids stepped
  lost := by
    apply inv.lost.step sleepKeeps sleepPlain inv.life stepped
    intro cpu choice act rest result _ head ran
    exact sleepRule_step inv.life.core head ran
  under := inv.under.step sleepWakes sleepPlain inv.life.core stepped
  owner := inv.owner_step stepped

theorem sleepInv_of_run {freePages : List ℕ}
    (run : Run sleepStep (boot ncpu freePages initsleeplock) trace state) :
    SleepInv trace state := by
  refine Run.invariant SleepInv ⟨lifeInv_boot, pids_boot, WaitRule.NoneLost.noneLost_boot,
    WaitRule.underLock_boot, ?_⟩ ?_ run (Trace.all_true trace)
  · refine ⟨?_, fun _ => rfl⟩
    simp [Inside, boot, initsleeplock]
  · intro trace state label next inv _ _ stepped
    exact inv.step stepped

theorem SleepInv.foreign_release {slot : Slot} (inv : SleepInv trace state)
    (onCpu : state.cur cpu = .proc slot)
    (head : state.running cpu = .act (.sub .releasesleep) :: rest)
    (outside : ¬Inside trace (state.shared.proc slot).pid)
    (stepped : sleepStep state (.run cpu choice) = some next) :
    next.shared = state.shared ∧ next.running cpu = .release .sleeplock :: rest := by
  have running := inv.life.core.procs.running cpu slot onCpu
  have positive := inv.pids.used slot (by simp [running])
  have foreign : state.shared.sub.pid ≠ (state.shared.proc slot).pid := by
    intro own
    apply outside
    refine (inv.owner.inside _).mpr ⟨?_, own⟩
    by_contra unlocked
    have nobody := inv.owner.nobody (by simpa using unlocked)
    omega
  cases Program.step_cases stepped with
  | @act _ _ act after outcome isHead executed =>
      have executed : exec sleeplocks act cpu (state.cur cpu) choice state.shared = some outcome :=
        executed
      rw [head] at isHead
      cases isHead
      simp only [exec, sleeplocks, onCpu, sleeplockExec, if_pos foreign, Option.map_some,
        Option.some.injEq] at executed
      subst executed
      simp [State.apply, State.running]
  | acquire isHead _ | release isHead _ =>
      rw [head] at isHead
      cases isHead

end Step

/-- At most one process is inside, the lock says which, nobody else can give it up, and nobody
sleeps for a free lock. -/
theorem sleeplock_safe {freePages : List ℕ} {trace : Trace (SleepMachine ncpu) (SleepLabel ncpu)}
    {state : SleepMachine ncpu}
    (run : Run sleepStep (boot ncpu freePages initsleeplock) trace state) :
    (∀ slot other, (state.shared.proc slot).state ≠ .unused →
      (state.shared.proc other).state ≠ .unused → Inside trace (state.shared.proc slot).pid →
      Inside trace (state.shared.proc other).pid → slot = other) ∧
    (∀ pid other, Inside trace pid → Inside trace other → pid = other) ∧
    (state.owner .sleeplock = none →
      (state.shared.sub.locked = true ↔ ∃ pid, Inside trace pid) ∧
      (∀ pid, Inside trace pid → state.shared.sub.pid = pid) ∧
      (state.shared.sub.locked = false → state.shared.sub.pid = 0) ∧
      (state.shared.sub.locked = false → ∀ slot, ¬state.shared.AsleepOn slot .sleeplock)) ∧
    (∀ pid, state.shared.sub.holdingsleep pid = true ↔ Inside trace pid) ∧
    ∀ cpu slot choice rest next, state.cur cpu = .proc slot →
      state.running cpu = .act (.sub .releasesleep) :: rest →
      ¬Inside trace (state.shared.proc slot).pid →
      sleepStep state (.run cpu choice) = some next →
      next.shared = state.shared ∧ next.running cpu = .release .sleeplock :: rest := by
  have inv := sleepInv_of_run run
  have single : ∀ pid other, Inside trace pid → Inside trace other → pid = other := by
    intro pid other inside otherInside
    have named := (inv.owner.inside pid).mp inside
    have otherNamed := (inv.owner.inside other).mp otherInside
    exact named.2.symm.trans otherNamed.2
  refine ⟨?_, single, ?_, ?_, ?_⟩
  · intro slot other used _ inside otherInside
    exact inv.pids.distinct slot other (inv.pids.used slot used) (single _ _ inside otherInside)
  · intro free
    refine ⟨?_, ?_, inv.owner.nobody, ?_⟩
    · refine ⟨fun locked => ⟨_, (inv.owner.inside _).mpr ⟨locked, rfl⟩⟩, ?_⟩
      rintro ⟨pid, inside⟩
      exact ((inv.owner.inside pid).mp inside).1
    · exact fun pid inside => ((inv.owner.inside pid).mp inside).2
    · intro unlocked slot asleep
      rcases inv.lost.late slot (Or.inl asleep) with blocked | pending
      · have locked : state.shared.sub.locked = true := blocked
        simp [unlocked] at locked
      · exact inv.under.not_pending inv.life.core sleepWakes.different free pending
  · intro pid
    rw [inv.owner.inside pid]
    simp [Sleeplock.holdingsleep]
  · exact fun cpu slot choice rest next onCpu head outside stepped =>
      inv.foreign_release onCpu head outside stepped

/-- Init gets the lock and its child waits for it, is killed, and waits again. -/
def killedSleeper : List (SleepLabel 1) :=
  [dispatch 0 0, go 0 1, call 0 .fork 15, call 0 (.sub .acquiresleep) 3, preempt 0,
    dispatch 0 1, go 0 1, call 0 (.sub .acquiresleep) 5, go 0 1, dispatch 0 0, go 0 2,
    call 0 (.kill 2) 3, preempt 0, dispatch 0 1, go 0 8].flatten

theorem waiter_sleeps_while_init_inside : ∃ trace state,
    Run sleepStep (boot 1 [1] initsleeplock) trace state ∧
      state.shared.AsleepOn 1 .sleeplock ∧ Inside trace 1 ∧ ∀ pid, Inside trace pid → pid = 1 := by
  obtain ⟨trace, state, run, lock, asleep⟩ :
      ∃ trace state, Run sleepStep (boot 1 [1] initsleeplock) trace state ∧
      state.shared.sub = ⟨true, 1⟩ ∧ state.shared.AsleepOn 1 .sleeplock :=
    exists_run killedSleeper (by decide +kernel)
  rcases sleeplock_safe run with ⟨_, single, named, holding, _⟩
  have inside : Inside trace 1 := (holding 1).mp (by simp [lock, Sleeplock.holdingsleep])
  exact ⟨trace, state, run, asleep, inside, fun pid other => single pid 1 other inside⟩

end Xv6
