import Xv6.Kernel.Family
import Xv6.Lib.Run

/-!
# Events in the life of a process

What one act can do to one table entry (`SlotStep`), and what the run so far says about the
table: which pids were given out, whose zombies and children its entries are, and which pids
`wait` has returned.
-/

namespace Xv6

open Threads Transition

variable {Sub SubAct SubEntry SubIntr : Type} {ncpu : ℕ}

def Kern.killReturns (kern : Kern Sub) (pid : ℤ) : ℤ :=
  match kern.find fun _ proc => proc.pid = pid with
  | none => -1
  | some _ => 0

/-- What an act can do to the table entry of a process. -/
inductive SlotStep (kern after : Kern Sub) (thread : Thread ncpu) (act : Act SubAct) (slot : Slot) :
    Prop
  | claimed (isAct : act = .allocproc) (unused : (kern.proc slot).state = .unused)
      (isNow : after.proc slot = { kern.proc slot with state := .embryo, pid := kern.nextpid })
  | dropped (isFork : forkSite (.act act) = some (some slot))
      (embryo : (kern.proc slot).state = .embryo) {kstack : Option ℕ}
      (isNow : after.proc slot = { kern.proc slot with state := .unused, kstack })
  | made {curproc : Slot} (isAct : act = .copyuvm slot) (onCpu : thread = .proc curproc)
      (embryo : (kern.proc slot).state = .embryo)
      (isNow : after.proc slot = { kern.proc slot with parent := some curproc })
  | started (isAct : act = .forkRunnable slot) (embryo : (kern.proc slot).state = .embryo)
      (isNow : after.proc slot = { kern.proc slot with state := .runnable })
  | exited (isAct : act = .exitSched) (onCpu : thread = .proc slot)
      (running : (kern.proc slot).state = .running)
      (isNow : after.proc slot =
        { kern.proc slot with
          state := .zombie
          parent := if (kern.proc slot).parent = some slot then some kern.initproc
            else (kern.proc slot).parent })
  | handed {curproc : Slot} {state : ProcState} (isAct : act = .exitSched)
      (onCpu : thread = .proc curproc) (different : slot ≠ curproc)
      (child : (kern.proc slot).parent = some curproc) (woken : kern.Woken slot state)
      (isNow : after.proc slot = { kern.proc slot with state, parent := some kern.initproc })
  | reaped {curproc : Slot} (isAct : act = .waitScan) (onCpu : thread = .proc curproc)
      (child : (kern.proc slot).parent = some curproc)
      (zombie : (kern.proc slot).state = .zombie)
      (isNow : after.proc slot =
        { kern.proc slot with
          kstack := none, pid := 0, parent := none, killed := false, state := .unused })
  | killed (isAct : act = .kill (kern.proc slot).pid)
      (returns : kern.killReturns (kern.proc slot).pid = 0) {state : ProcState}
      (woken : kern.Woken slot state)
      (isNow : after.proc slot = { kern.proc slot with killed := true, state })
  | kept (pid : (after.proc slot).pid = (kern.proc slot).pid)
      (parent : (after.proc slot).parent = (kern.proc slot).parent)
      (killed : (after.proc slot).killed = (kern.proc slot).killed)
      (state : (after.proc slot).state = (kern.proc slot).state ∨
        (after.proc slot).Alive ∧ (kern.proc slot).Alive)

section Slots

variable {kern after : Kern Sub} {thread : Thread ncpu} {cpu : Fin ncpu} {act : Act SubAct}
  {slot np : Slot} {outcome : Effect Sub SubAct ncpu}

theorem SlotStep.unchanged (same : after.proc slot = kern.proc slot) :
    SlotStep kern after thread act slot :=
  .kept (by rw [same]) (by rw [same]) (by rw [same]) (Or.inl (by rw [same]))

theorem SlotStep.of_update {new : Proc} (table : after.proc = Function.update kern.proc np new)
    (here : after.proc np = new → SlotStep kern after thread act np) :
    SlotStep kern after thread act slot := by
  by_cases same : slot = np
  · rw [same]
    apply here
    rw [table, Function.update_self]
  · apply SlotStep.unchanged
    rw [table, Function.update_of_ne same]

theorem slotStep_kill {pid : ℤ} :
    SlotStep kern (kern.kill pid) thread (.kill pid : Act SubAct) slot := by
  cases found : kern.find fun _ proc => proc.pid = pid with
  | none =>
      apply SlotStep.unchanged
      simp [Kern.kill, found]
  | some hit =>
      have isPid : (kern.proc hit).pid = pid := by simpa using Kern.find_some found
      have table : (kern.kill pid).proc = Function.update kern.proc hit
          { kern.proc hit with
            killed := true
            state := if (kern.proc hit).state = .sleeping then .runnable
              else (kern.proc hit).state } := by
        simp only [Kern.kill, found, Kern.modify]
      refine SlotStep.of_update table fun isNow => ?_
      refine .killed (by rw [isPid]) (by simp [Kern.killReturns, isPid, found]) ?_ isNow
      split
      · rename_i asleep
        exact Or.inr ⟨asleep, rfl⟩
      · exact Or.inl rfl

section

variable (table : TableStep kern cpu thread act outcome)

include table

theorem TableStep.slotStep (slot : Slot)
    (running : ∀ curproc, thread = .proc curproc → (kern.proc curproc).state = .running)
    (embryo : ∀ np, forkSite (.act act) = some (some np) → (kern.proc np).state = .embryo) :
    SlotStep kern outcome.shared thread act slot := by
  have alive : ∀ {curproc : Slot}, thread = .proc curproc → (kern.proc curproc).Alive :=
    fun onCpu => Or.inr (Or.inr (running _ onCpu))
  cases table with
  | claim unused => exact .of_update rfl fun isNow => .claimed rfl unused isNow
  | noStack | notCopied => exact .of_update rfl fun isNow => .dropped rfl (embryo _ rfl) isNow
  | stack | clear =>
      refine .of_update rfl fun isNow => ?_
      exact .kept (by rw [isNow]) (by rw [isNow]) (by rw [isNow]) (Or.inl (by rw [isNow]))
  | copied onCpu => exact .of_update rfl fun isNow => .made rfl onCpu (embryo _ rfl) isNow
  | start => exact .of_update rfl fun isNow => .started rfl (embryo _ rfl) isNow
  | @exit curproc onCpu notInit =>
      rcases kern.exit_spec curproc slot with ⟨state, isNow, ⟨rfl, rfl⟩ | ⟨different, woken⟩⟩
      · exact .exited rfl onCpu (running _ onCpu) isNow
      · by_cases child : (kern.proc slot).parent = some curproc
        · rw [if_pos child] at isNow
          exact .handed rfl onCpu different child woken isNow
        · rw [if_neg child] at isNow
          refine .kept (by rw [isNow]) (by rw [isNow]) (by rw [isNow]) ?_
          dsimp only
          rw [isNow]
          exact woken.same_or_alive
  | reap onCpu child zombie => exact .of_update rfl fun isNow => .reaped rfl onCpu child zombie isNow
  | wait => exact .unchanged rfl
  | sleep onCpu | yield onCpu =>
      refine .of_update rfl fun isNow => ?_
      refine .kept (by rw [isNow]) (by rw [isNow]) (by rw [isNow]) (Or.inr ⟨?_, alive onCpu⟩)
      rw [isNow]
      simp [Proc.Alive]
  | pick onScheduler runnable =>
      refine .of_update rfl fun isNow => ?_
      refine .kept (by simp) (by simp) (by simp)
        (Or.inr ⟨?_, Or.inr (Or.inl runnable)⟩)
      rw [isNow]
      exact Or.inr (Or.inr rfl)
  | kill => exact slotStep_kill
  | @wakeup chan =>
      rcases kern.wakeup1_spec (some chan) slot with ⟨state, isNow, woken⟩
      refine .kept (by rw [isNow]) (by rw [isNow]) (by rw [isNow]) ?_
      dsimp only
      rw [isNow]
      exact woken.same_or_alive
  | other _ only _ _ _ =>
      rcases only.proc slot with ⟨status, isNow⟩
      exact .kept (by rw [isNow]) (by rw [isNow]) (by rw [isNow]) (Or.inl (by rw [isNow]))

theorem TableStep.nextpid : (∃ np, outcome.shared.nextpid = kern.nextpid + 1 ∧
        ∀ slot, slot ≠ np → outcome.shared.proc slot = kern.proc slot) ∨
      outcome.shared.nextpid = kern.nextpid ∧
        ∀ slot, act = .allocproc → (outcome.shared.proc slot).state = (kern.proc slot).state := by
  cases table with
  | @claim np unused =>
      left
      exact ⟨np, rfl, fun slot different => Function.update_of_ne different _ _⟩
  | exit =>
      right
      refine ⟨?_, by simp⟩
      simp only [Kern.exit, Kern.setState, Kern.modify, Kern.reparent]
      split <;> rfl
  | kill =>
      right
      refine ⟨?_, by simp⟩
      unfold Kern.kill
      split <;> rfl
  | other _ only _ _ _ =>
      right
      exact ⟨only.nextpid, fun slot _ => only.sameState slot⟩
  | _ =>
      right
      exact ⟨rfl, by simp⟩

theorem TableStep.nextpid_le : kern.nextpid ≤ outcome.shared.nextpid := by
  rcases table.nextpid with ⟨_, next, _⟩ | ⟨same, _⟩ <;> omega

theorem TableStep.initproc : outcome.shared.initproc = kern.initproc := by
  cases table with
  | exit => exact kern.exit_initproc _
  | kill => exact kern.kill_initproc
  | other _ only _ _ _ => exact only.initproc
  | _ => rfl

end

end Slots

/-! ## The record of a run -/

/-- Forks that succeeded, exits, waits that returned a pid, and kills that returned zero. -/
inductive ProcEvent where
  | made (child parent : ℤ)
  | exited (pid : ℤ)
  | reaped (pid parent : ℤ)
  | killed (pid : ℤ)
  deriving DecidableEq

def actEvent (kern : Kern Sub) (thread : Thread ncpu) (choice : ℕ) :
    Act SubAct → Option ProcEvent
  | .kill pid => if kern.killReturns pid = 0 then some (.killed pid) else none
  | act =>
      match thread, act with
      | .proc curproc, .copyuvm np =>
          if choice = 0 then some (.made (kern.proc np).pid (kern.proc curproc).pid) else none
      | .proc curproc, .exitSched => some (.exited (kern.proc curproc).pid)
      | .proc curproc, .waitScan =>
          (kern.find fun _ proc => proc.parent = some curproc ∧ proc.state = .zombie).map
            fun child => .reaped (kern.proc child).pid (kern.proc curproc).pid
      | _, _ => none

def procEvent (state : Machine Sub SubAct ncpu)
    (label : Label (Fin ncpu) (Entry SubEntry) (Intr SubIntr)) : Option ProcEvent :=
  match label with
  | .run cpu choice =>
      match state.running cpu with
      | .act act :: _ => actEvent state.shared (state.cur cpu) choice act
      | _ => none
  | _ => none

/-- The events of a run, the most recent one first. -/
def procEvents (trace : Trace (Machine Sub SubAct ncpu)
    (Label (Fin ncpu) (Entry SubEntry) (Intr SubIntr))) : List ProcEvent :=
  trace.filterMap fun entry => procEvent entry.1 entry.2

/-- What the record says about the table. -/
structure Kern.History (kern : Kern Sub) (events : List ProcEvent) : Prop where
  fresh : ∀ slot, (kern.proc slot).state ≠ .unused → (kern.proc slot).pid < kern.nextpid
  distinct : ∀ slot other, (kern.proc slot).state ≠ .unused → (kern.proc other).state ≠ .unused →
    (kern.proc slot).pid = (kern.proc other).pid → slot = other
  reaped : ∀ pid parent, .reaped pid parent ∈ events → pid < kern.nextpid ∧
    ∀ slot, (kern.proc slot).state ≠ .unused → (kern.proc slot).pid ≠ pid
  exited : ∀ slot, (kern.proc slot).state = .zombie → .exited (kern.proc slot).pid ∈ events
  made : ∀ slot p, (kern.proc slot).parent = some p →
    p = kern.initproc ∨ .made (kern.proc slot).pid (kern.proc p).pid ∈ events

section Act

variable {sub : Subsystem Sub SubAct SubEntry SubIntr} {kern after : Kern Sub}
  {thread : Thread ncpu} {cpu : Fin ncpu} {act : Act SubAct} {slot : Slot} {choice : ℕ}
  {outcome : Effect Sub SubAct ncpu} {events : List ProcEvent}

section

variable (step : SlotStep kern after thread act slot)

include step

theorem SlotStep.pid (used : (after.proc slot).state ≠ .unused) :
    (kern.proc slot).state ≠ .unused ∧ (after.proc slot).pid = (kern.proc slot).pid ∨
      act = .allocproc ∧ (kern.proc slot).state = .unused ∧
        (after.proc slot).pid = kern.nextpid := by
  cases step with
  | claimed isAct unused isNow => exact Or.inr ⟨isAct, unused, by rw [isNow]⟩
  | dropped _ _ isNow | reaped _ _ _ _ isNow => simp [isNow] at used
  | made _ _ embryo isNow | started _ embryo isNow | exited _ _ embryo isNow =>
      exact Or.inl ⟨by simp [embryo], by rw [isNow]⟩
  | handed isAct onCpu different child woken isNow | killed isAct returns woken isNow =>
      refine Or.inl ⟨?_, by rw [isNow]⟩
      rw [isNow] at used
      rcases woken with same | ⟨asleep, _⟩
      · rw [← same]
        exact used
      · simp [asleep]
  | kept pid parent killed state =>
      refine Or.inl ⟨?_, pid⟩
      rcases state with same | ⟨_, alive⟩
      · rw [← same]
        exact used
      · exact fun isUnused => alive.not_dead (Or.inl isUnused)

theorem SlotStep.pid_of_alive (alive : (kern.proc slot).Alive) :
    (after.proc slot).pid = (kern.proc slot).pid := by
  cases step with
  | claimed isAct unused isNow => exact absurd (Or.inl unused) alive.not_dead
  | reaped isAct onCpu child zombie isNow =>
      exact absurd (Or.inr (Or.inr zombie)) alive.not_dead
  | kept pid parent killed state => exact pid
  | dropped _ _ isNow | made _ _ _ isNow | started _ _ isNow | exited _ _ _ isNow
  | handed _ _ _ _ _ isNow | killed _ _ _ isNow => rw [isNow]

theorem SlotStep.zombie (zombie : (after.proc slot).state = .zombie) :
    (after.proc slot).pid = (kern.proc slot).pid ∧
      ((kern.proc slot).state = .zombie ∨ act = .exitSched ∧ thread = .proc slot) := by
  have notWoken : ∀ {state : ProcState}, kern.Woken slot state → state = .zombie →
      (kern.proc slot).state = .zombie := by
    rintro state (same | ⟨_, isRunnable⟩) isZombie
    · exact same.symm.trans isZombie
    · simp [isRunnable] at isZombie
  cases step with
  | claimed _ _ isNow | dropped _ _ isNow | started _ _ isNow | reaped _ _ _ _ isNow =>
      simp [isNow] at zombie
  | made isAct onCpu embryo isNow => simp [isNow, embryo] at zombie
  | exited isAct onCpu running isNow => exact ⟨by rw [isNow], Or.inr ⟨isAct, onCpu⟩⟩
  | handed _ _ _ _ woken isNow | killed _ _ woken isNow =>
      refine ⟨by rw [isNow], Or.inl (notWoken woken ?_)⟩
      rw [isNow] at zombie
      exact zombie
  | kept pid parent killed state =>
      refine ⟨pid, Or.inl ?_⟩
      rcases state with same | ⟨alive, _⟩
      · rw [← same]
        exact zombie
      · exact absurd (Or.inr (Or.inr zombie)) alive.not_dead

/-- Whose child a process is: init's, or that of its parent before, or that of the process
which has just made it. -/
theorem SlotStep.parent {p : Slot}
    (unused : (kern.proc slot).state = .unused → (kern.proc slot).parent = none)
    (isParent : (after.proc slot).parent = some p) :
    p = kern.initproc ∨ (after.proc slot).pid = (kern.proc slot).pid ∧
      ((kern.proc slot).parent = some p ∨ act = .copyuvm slot ∧ thread = .proc p) := by
  cases step with
  | claimed isAct isUnused isNow => simp [isNow, unused isUnused] at isParent
  | made isAct onCpu embryo isNow =>
      rw [isNow] at isParent ⊢
      cases isParent
      exact Or.inr ⟨rfl, Or.inr ⟨isAct, onCpu⟩⟩
  | exited isAct onCpu running isNow =>
      rw [isNow] at isParent ⊢
      dsimp only at isParent
      split at isParent
      · left
        exact (Option.some.inj isParent).symm
      · exact Or.inr ⟨rfl, Or.inl isParent⟩
  | handed _ _ _ _ _ isNow =>
      rw [isNow] at isParent
      exact Or.inl (Option.some.inj isParent).symm
  | reaped _ _ _ _ isNow => simp [isNow] at isParent
  | dropped _ _ isNow | started _ _ isNow | killed _ _ _ isNow =>
      rw [isNow] at isParent ⊢
      exact Or.inr ⟨rfl, Or.inl isParent⟩
  | kept pid parent killed state =>
      rw [parent] at isParent
      exact Or.inr ⟨pid, Or.inl isParent⟩

end

theorem actEvent_made {np curproc : Slot}
    (executed : exec sub (.copyuvm np) cpu (.proc curproc) choice kern = some outcome)
    (parent : (outcome.shared.proc np).parent ≠ (kern.proc np).parent) :
    actEvent kern (.proc curproc : Thread ncpu) choice (.copyuvm np : Act SubAct) =
      some (.made (kern.proc np).pid (kern.proc curproc).pid) := by
  by_cases copied : choice = 0
  · simp [actEvent, copied]
  · simp only [exec, execProc, if_neg copied, Option.some_or, Option.some.injEq] at executed
    subst executed
    simp [Kern.modify] at parent

theorem actEvent_reaped {pid parent : ℤ}
    (executed : exec sub act cpu thread choice kern = some outcome)
    (event : actEvent kern thread choice act = some (.reaped pid parent)) :
    ∃ curproc child, act = .waitScan ∧ thread = .proc curproc ∧
      pid = (kern.proc child).pid ∧ parent = (kern.proc curproc).pid ∧
      (kern.proc child).parent = some curproc ∧ (kern.proc child).state = .zombie ∧
      outcome.shared = kern.reap child := by
  cases act with
  | waitScan =>
      cases thread with
      | scheduler own => simp [actEvent] at event
      | proc curproc =>
          simp only [actEvent, Option.map_eq_some_iff] at event
          rcases event with ⟨child, found, isEvent⟩
          cases isEvent
          have matching := Kern.find_some found
          simp only [decide_eq_true_eq] at matching
          simp only [exec, execProc, found, Option.some_or, Option.some.injEq] at executed
          subst executed
          exact ⟨curproc, child, rfl, rfl, rfl, rfl, matching.1, matching.2, rfl⟩
  | kill pid => simp [actEvent] at event
  | _ => cases thread <;> simp [actEvent] at event

theorem SlotStep.pid_cases (step : SlotStep kern after thread act slot) :
    (after.proc slot).pid = (kern.proc slot).pid ∨ (after.proc slot).pid = 0 ∨
      act = .allocproc ∧ (kern.proc slot).state = .unused ∧
        (after.proc slot).state = .embryo ∧ (after.proc slot).pid = kern.nextpid := by
  cases step with
  | claimed isAct unused isNow => exact Or.inr (Or.inr ⟨isAct, unused, by rw [isNow], by rw [isNow]⟩)
  | reaped _ _ _ _ isNow => exact Or.inr (Or.inl (by rw [isNow]))
  | kept pid _ _ _ => exact Or.inl pid
  | dropped _ _ isNow | made _ _ _ isNow | started _ _ isNow | exited _ _ _ isNow
  | handed _ _ _ _ _ isNow | killed _ _ _ isNow => exact Or.inl (by rw [isNow])

/-- The pids in the table, those that free slots still have included. -/
structure Kern.Pids (kern : Kern Sub) : Prop where
  next : 1 ≤ kern.nextpid
  nonneg : ∀ slot, 0 ≤ (kern.proc slot).pid
  below : ∀ slot, (kern.proc slot).pid < kern.nextpid
  used : ∀ slot, (kern.proc slot).state ≠ .unused → 1 ≤ (kern.proc slot).pid
  distinct : ∀ slot other, 1 ≤ (kern.proc slot).pid →
    (kern.proc slot).pid = (kern.proc other).pid → slot = other

namespace Kern.Pids

theorem congr (pids : kern.Pids) (proc : after.proc = kern.proc)
    (nextpid : after.nextpid = kern.nextpid) : after.Pids := by
  refine ⟨?_, ?_, ?_, ?_, ?_⟩
  · rw [nextpid]
    exact pids.next
  · rw [proc]
    exact pids.nonneg
  · rw [proc, nextpid]
    exact pids.below
  · rw [proc]
    exact pids.used
  · rw [proc]
    exact pids.distinct

section Step

variable (pids : kern.Pids) (table : TableStep kern cpu thread act outcome)
  (slots : ∀ slot, SlotStep kern outcome.shared thread act slot)

include table slots

/-- The pid of an entry after an act: an old one, or none, or the next one, and then nothing
else has changed. -/
theorem slot_cases (slot : Slot) :
    ((outcome.shared.proc slot).pid = (kern.proc slot).pid ∨ (outcome.shared.proc slot).pid = 0) ∨
      (outcome.shared.proc slot).pid = kern.nextpid ∧
        outcome.shared.nextpid = kern.nextpid + 1 ∧
        ∀ other, other ≠ slot → outcome.shared.proc other = kern.proc other := by
  rcases (slots slot).pid_cases with same | none | ⟨isAlloc, unused, embryo, isNext⟩
  · exact Or.inl (Or.inl same)
  · exact Or.inl (Or.inr none)
  · right
    rcases table.nextpid with ⟨np, next, others⟩ | ⟨_, states⟩
    · have isNp : slot = np := by
        by_contra different
        rw [others slot different, unused] at embryo
        contradiction
      exact ⟨isNext, next, isNp ▸ others⟩
    · rw [states slot isAlloc, unused] at embryo
      contradiction

include pids

theorem step : outcome.shared.Pids := by
  have grows := table.nextpid_le
  have next := pids.next
  refine ⟨by omega, ?_, ?_, ?_, ?_⟩
  · intro slot
    have nonneg := pids.nonneg slot
    rcases slot_cases table slots slot with (same | none) | ⟨isNext, _⟩ <;> omega
  · intro slot
    have below := pids.below slot
    rcases slot_cases table slots slot with (same | none) | ⟨isNext, later, _⟩ <;> omega
  · intro slot isUsed
    rcases (slots slot).pid isUsed with ⟨wasUsed, same⟩ | ⟨_, _, isNext⟩
    · rw [same]
      exact pids.used slot wasUsed
    · omega
  · intro slot other positive equal
    by_contra different
    have below := pids.below slot
    have otherBelow := pids.below other
    rcases slot_cases table slots slot with old | ⟨isNext, _, others⟩
    · rcases slot_cases table slots other with otherOld | ⟨otherNext, _, _⟩
      · apply different
        apply pids.distinct slot other <;> omega
      · omega
    · rw [others other (Ne.symm different)] at equal
      omega

end Step

end Kern.Pids

namespace Kern.History

theorem mono (history : kern.History events) {more : List ProcEvent} (grows : events ⊆ more)
    (noReap : ∀ pid parent, .reaped pid parent ∈ more → .reaped pid parent ∈ events)
    (proc : after.proc = kern.proc) (nextpid : after.nextpid = kern.nextpid)
    (init : after.initproc = kern.initproc) : after.History more := by
  refine ⟨?_, ?_, ?_, ?_, ?_⟩
  · rw [proc, nextpid]
    exact history.fresh
  · rw [proc]
    exact history.distinct
  · rw [proc, nextpid]
    exact fun pid parent mem => history.reaped pid parent (noReap pid parent mem)
  · rw [proc]
    exact fun slot zombie => grows (history.exited slot zombie)
  · rw [proc, init]
    exact fun slot p isParent => (history.made slot p isParent).imp_right (grows ·)

section Step

variable (history : kern.History events) (table : TableStep kern cpu thread act outcome)
  (slots : ∀ slot, SlotStep kern outcome.shared thread act slot)

include history table slots

section

variable (isUsed : (outcome.shared.proc slot).state ≠ .unused)

include isUsed

/-- Slots that are in use after the act: the pid is an old one, or the next one, and then
nothing else comes into use. -/
theorem used : (kern.proc slot).state ≠ .unused ∧
        (outcome.shared.proc slot).pid = (kern.proc slot).pid ∧
        (kern.proc slot).pid < kern.nextpid ∨
      (outcome.shared.proc slot).pid = kern.nextpid ∧
        outcome.shared.nextpid = kern.nextpid + 1 ∧
        ∀ other, other ≠ slot → outcome.shared.proc other = kern.proc other := by
  rcases (slots slot).pid isUsed with ⟨wasUsed, same⟩ | ⟨isAlloc, unused, isNext⟩
  · exact Or.inl ⟨wasUsed, same, history.fresh slot wasUsed⟩
  · right
    rcases table.nextpid with ⟨np, next, others⟩ | ⟨_, states⟩
    · have isNp : slot = np := by
        by_contra different
        rw [others slot different] at isUsed
        exact isUsed unused
      exact ⟨isNext, next, isNp ▸ others⟩
    · rw [states slot isAlloc] at isUsed
      exact absurd unused isUsed

theorem fresh_step : (outcome.shared.proc slot).pid < outcome.shared.nextpid := by
  have grows := table.nextpid_le
  rcases history.used table slots isUsed with ⟨_, same, below⟩ | ⟨isNext, next, _⟩ <;> omega

theorem distinct_step {other : Slot} (otherUsed : (outcome.shared.proc other).state ≠ .unused)
    (equal : (outcome.shared.proc slot).pid = (outcome.shared.proc other).pid) : slot = other := by
  by_contra different
  rcases history.used table slots isUsed with ⟨wasUsed, same, below⟩ | ⟨isNext, _, others⟩
  · rcases history.used table slots otherUsed with ⟨otherWas, otherSame, _⟩ | ⟨otherNext, _, _⟩
    · rw [same, otherSame] at equal
      exact different (history.distinct slot other wasUsed otherWas equal)
    · omega
  · rw [others other (Ne.symm different)] at otherUsed equal
    have below := history.fresh other otherUsed
    omega

end

theorem reaped_step {pid parent : ℤ}
    (executed : exec sub act cpu thread choice kern = some outcome)
    (mem : .reaped pid parent ∈ (actEvent kern thread choice act).toList ++ events) :
    pid < outcome.shared.nextpid ∧ ∀ slot, (outcome.shared.proc slot).state ≠ .unused →
      (outcome.shared.proc slot).pid ≠ pid := by
  have grows := table.nextpid_le
  rw [List.mem_append, Option.mem_toList] at mem
  rcases mem with isNew | isOld
  · rcases actEvent_reaped executed isNew with
      ⟨curproc, child, rfl, _, rfl, _, _, zombie, sharedIs⟩
    have childUsed : (kern.proc child).state ≠ .unused := by simp [zombie]
    have below := history.fresh child childUsed
    refine ⟨by omega, ?_⟩
    intro slot isUsed equal
    rcases history.used table slots isUsed with ⟨wasUsed, same, _⟩ | ⟨isNext, _, _⟩
    · rw [same] at equal
      rw [history.distinct slot child wasUsed childUsed equal, sharedIs] at isUsed
      simp [Kern.reap] at isUsed
    · omega
  · rcases history.reaped pid parent isOld with ⟨below, unlike⟩
    refine ⟨by omega, ?_⟩
    intro slot isUsed equal
    rcases history.used table slots isUsed with ⟨wasUsed, same, _⟩ | ⟨isNext, _, _⟩
    · exact unlike slot wasUsed (same.symm.trans equal)
    · omega

end Step

theorem step (history : kern.History events) (family : kern.Family)
    (table : TableStep kern cpu thread act outcome)
    (executed : exec sub act cpu thread choice kern = some outcome)
    (slots : ∀ slot, SlotStep kern outcome.shared thread act slot)
    (running : ∀ curproc, thread = .proc curproc → (kern.proc curproc).state = .running)
    (site : kern.Site (.act act)) :
    outcome.shared.History ((actEvent kern thread choice act).toList ++ events) := by
  refine ⟨?_, ?_, ?_, ?_, ?_⟩
  · exact fun slot isUsed => history.fresh_step table slots isUsed
  · exact fun slot other isUsed otherUsed equal =>
      history.distinct_step table slots isUsed otherUsed equal
  · exact fun pid parent mem => history.reaped_step table slots executed mem
  · intro slot zombie
    rcases (slots slot).zombie zombie with ⟨samePid, wasZombie | ⟨rfl, rfl⟩⟩
    · rw [samePid]
      exact List.mem_append_right _ (history.exited slot wasZombie)
    · rw [samePid]
      simp [actEvent]
  · intro slot p isParent
    rw [table.initproc]
    rcases (slots slot).parent (fun unused => (family.unused slot unused).1) isParent with
      isInit | ⟨samePid, was | ⟨rfl, rfl⟩⟩
    · exact Or.inl isInit
    · rw [samePid, (slots p).pid_of_alive (family.parent slot p was)]
      exact (history.made slot p was).imp_right (List.mem_append_right _)
    · -- `fork` has found memory, and its process has no parent yet
      right
      have noParent : (kern.proc slot).parent = none := site.1
      rw [samePid, (slots p).pid_of_alive (Or.inr (Or.inr (running p rfl))),
        actEvent_made executed (by simp [noParent, isParent])]
      exact List.mem_cons_self

end Kern.History

end Act

section Step

variable {sub : Subsystem Sub SubAct SubEntry SubIntr} {locking : SubLocking SubAct}
  {allowed : Lock → Lock → Prop} {state next : Machine Sub SubAct ncpu} {cpu : Fin ncpu}
  {label : Label (Fin ncpu) (Entry SubEntry) (Intr SubIntr)} {act : Act SubAct} {choice : ℕ}
  {rest : Code Lock (Act SubAct)} {outcome : Effect Sub SubAct ncpu}
  {trace : Trace (Machine Sub SubAct ncpu) (Label (Fin ncpu) (Entry SubEntry) (Intr SubIntr))}

@[simp]
theorem procEvents_nil : procEvents ([] : Trace (Machine Sub SubAct ncpu)
    (Label (Fin ncpu) (Entry SubEntry) (Intr SubIntr))) = [] := rfl

theorem procEvents_cons : procEvents ((state, label) :: trace) =
    (procEvent state label).toList ++ procEvents trace := by
  cases event : procEvent state label <;> simp [procEvents, event]

theorem procEvent_act (head : state.running cpu = .act act :: rest) :
    procEvent state (.run cpu choice : Label (Fin ncpu) (Entry SubEntry) (Intr SubIntr)) =
      actEvent state.shared (state.cur cpu) choice act := by
  simp [procEvent, head]

theorem actEvent_sub {thread : Thread ncpu} {kern : Kern Sub} {subAct : SubAct} :
    actEvent kern thread choice (.sub subAct) = none := by
  cases thread <;> rfl

theorem CoreInv.slotStep (core : CoreInv locking allowed state)
    (head : state.running cpu = .act act :: rest)
    (executed : exec sub act cpu (state.cur cpu) choice state.shared = some outcome)
    (notSub : ∀ subAct, act ≠ .sub subAct) (slot : Slot) :
    SlotStep state.shared outcome.shared (state.cur cpu) act slot :=
  (tableStep_exec executed notSub).slotStep slot
    (fun curproc onCpu => core.procs.running cpu curproc onCpu)
    (fun _ => core.embryo_of_head head)

theorem CoreInv.pids [DecidableEq SubAct] (core : CoreInv locking allowed state)
    (plain : SubPlain sub) (pids : state.shared.Pids)
    (stepped : (kernel sub ncpu).step state label = some next) : next.shared.Pids := by
  cases Program.step_cases stepped with
  | @act cpu choice act rest outcome head executed =>
      have executed : exec sub act cpu (state.cur cpu) choice state.shared = some outcome := executed
      rcases act.sub_or_not with ⟨subAct, rfl⟩ | notSub
      · rcases exec_sub_plain plain executed with ⟨proc, _, nextpid, _⟩
        exact pids.congr proc nextpid
      · exact pids.step (tableStep_exec executed notSub) (core.slotStep head executed notSub)
  | acquire head free | release head owned => exact pids
  | call | intr => exact pids

theorem pids_boot {freePages : List ℕ} {start : Sub} :
    (boot ncpu freePages start : Machine Sub SubAct ncpu).shared.Pids := by
  have isInit : ∀ slot, (bootProc slot).pid = if slot = 0 then 1 else 0 := by
    intro slot
    unfold bootProc
    split <;> rfl
  refine ⟨by simp [boot], ?_, ?_, ?_, ?_⟩
  · intro slot
    simp only [boot, isInit]
    split <;> simp
  · intro slot
    simp only [boot, isInit]
    split <;> simp
  · intro slot used
    by_cases first : slot = 0
    · simp [boot, isInit, first]
    · simp [boot, bootProc, first, Proc.empty] at used
  · intro slot other positive equal
    simp only [boot, isInit] at positive equal
    by_cases first : slot = 0 <;> by_cases second : other = 0 <;> simp_all

/-- The family tree, and what the record of the run says about it. -/
structure HistoryInv (locking : SubLocking SubAct) (allowed : Lock → Lock → Prop)
    (trace : Trace (Machine Sub SubAct ncpu) (Label (Fin ncpu) (Entry SubEntry) (Intr SubIntr)))
    (state : Machine Sub SubAct ncpu) : Prop where
  tree : FamilyInv locking allowed state
  history : state.shared.History (procEvents trace)

theorem procEvent_reaped [DecidableEq SubAct] {pid parent : ℤ}
    (stepped : (kernel sub ncpu).step state label = some next)
    (event : procEvent state label = some (.reaped pid parent)) :
    ∃ waiter child, pid = (state.shared.proc child).pid ∧
      parent = (state.shared.proc waiter).pid ∧
      (state.shared.proc child).parent = some waiter ∧
      (state.shared.proc child).state = .zombie := by
  cases Program.step_cases stepped with
  | @act cpu choice act rest outcome head executed =>
      rw [procEvent_act head] at event
      rcases actEvent_reaped executed event with
        ⟨waiter, child, _, _, isPid, isParent, isChild, isZombie, _⟩
      exact ⟨waiter, child, isPid, isParent, isChild, isZombie⟩
  | acquire head free | release head owned => simp [procEvent, head] at event
  | call | intr => simp [procEvent] at event

namespace HistoryInv

theorem step [DecidableEq SubAct] (laws : SubLaws sub locking) (plain : SubPlain sub)
    (inv : HistoryInv locking allowed trace state)
    (stepped : (kernel sub ncpu).step state label = some next)
    (nests : NestsAllowed sub locking allowed state label) :
    HistoryInv locking allowed ((state, label) :: trace) next := by
  refine ⟨inv.tree.step laws plain stepped nests, ?_⟩
  rw [procEvents_cons]
  cases Program.step_cases stepped with
  | @act cpu choice act rest outcome head executed =>
      rw [procEvent_act head]
      have executed : exec sub act cpu (state.cur cpu) choice state.shared = some outcome := executed
      rcases act.sub_or_not with ⟨subAct, rfl⟩ | notSub
      · rcases exec_sub_plain plain executed with ⟨proc, init, nextpid, _⟩
        rw [actEvent_sub]
        exact inv.history.mono (by simp) (by simp) proc nextpid init
      · apply inv.history.step inv.tree.family (tableStep_exec executed notSub) executed
          (inv.tree.life.core.slotStep head executed notSub)
        · exact fun curproc onCpu => inv.tree.life.core.procs.running cpu curproc onCpu
        · exact inv.tree.sites _ _ (State.mem_head head)
  | acquire head free | release head owned =>
      simpa [procEvent, head] using inv.history
  | call | intr => simpa [procEvent] using inv.history

theorem historyInv_boot {freePages : List ℕ} {start : Sub} :
    HistoryInv locking allowed ([] : Trace (Machine Sub SubAct ncpu)
      (Label (Fin ncpu) (Entry SubEntry) (Intr SubIntr))) (boot ncpu freePages start) := by
  have isInit : ∀ {slot : Slot}, (bootProc slot).state ≠ .unused → slot = 0 := by
    intro slot used
    by_contra different
    simp [bootProc, different, Proc.empty] at used
  refine ⟨FamilyInv.familyInv_boot, ⟨?_, ?_, ?_, ?_, ?_⟩⟩
  · intro slot used
    rw [isInit used]
    simp [boot, bootProc]
  · intro slot other used otherUsed _
    rw [isInit used, isInit otherUsed]
  · simp
  · intro slot zombie
    have isZombie : (bootProc slot).state = .zombie := zombie
    have first : slot = 0 := isInit (by simp [isZombie])
    simp [bootProc, first] at isZombie
  · intro slot p isParent
    by_cases first : slot = 0 <;> simp [boot, bootProc, first, Proc.empty] at isParent

end HistoryInv

end Step

end Xv6
