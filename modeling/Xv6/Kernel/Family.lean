import Xv6.Kernel.Lifecycle

/-!
# Parents and kernel stacks

Every process but init has a parent, and the parent is neither free nor a zombie: a child is
made by a running process, `exit` gives the children to init, and init never exits. A process
has a kernel stack from `fork` until it is reaped, and a free slot has none.
-/

namespace Xv6

open Threads Function

variable {Sub SubAct SubEntry SubIntr : Type} {ncpu : ℕ}

def Proc.Alive (proc : Proc) : Prop :=
  proc.state = .sleeping ∨ proc.state = .runnable ∨ proc.state = .running

/-- The process has been started by `fork`, and not been reaped. -/
def Proc.Born (proc : Proc) : Prop := proc.Alive ∨ proc.state = .zombie

structure Kern.Family (kern : Kern Sub) : Prop where
  init : (kern.proc kern.initproc).Alive
  parent : ∀ slot p, (kern.proc slot).parent = some p → (kern.proc p).Alive
  born : ∀ slot, slot ≠ kern.initproc → (kern.proc slot).Born → (kern.proc slot).parent ≠ none
  stack : ∀ slot, (kern.proc slot).Born → (kern.proc slot).kstack ≠ none
  unused : ∀ slot, (kern.proc slot).state = .unused →
    (kern.proc slot).parent = none ∧ (kern.proc slot).kstack = none

/-- What `fork` has done for the process it is building. -/
def Kern.Site (kern : Kern Sub) : Instr Lock (Act SubAct) → Prop
  | .act (.kstack np) => (kern.proc np).parent = none ∧ (kern.proc np).kstack = none
  | .act (.copyuvm np) => (kern.proc np).parent = none ∧ (kern.proc np).kstack ≠ none
  | .act (.forkRunnable np) => (kern.proc np).parent ≠ none ∧ (kern.proc np).kstack ≠ none
  | _ => True

section Table

variable {kern after : Kern Sub} {slot np curproc : Slot} {new : Proc}

theorem Proc.Alive.not_dead {proc : Proc} (alive : proc.Alive) : ¬proc.Dead := by
  rintro (isUnused | isEmbryo | isZombie) <;> simp_all [Proc.Alive]

/-- The process at this slot has been woken, or nothing has happened to its state. -/
def Kern.Woken (kern : Kern Sub) (slot : Slot) (state : ProcState) : Prop :=
  state = (kern.proc slot).state ∨ (kern.proc slot).state = .sleeping ∧ state = .runnable

theorem Kern.wakeup1_spec (kern : Kern Sub) (chan : Option Chan) (slot : Slot) :
    ∃ state, (kern.wakeup1 chan).proc slot = { kern.proc slot with state } ∧
      kern.Woken slot state := by
  simp only [Kern.wakeup1]
  split
  · rename_i asleep
    exact ⟨_, rfl, Or.inr ⟨asleep.1, rfl⟩⟩
  · exact ⟨_, rfl, Or.inl rfl⟩

theorem Kern.Woken.same_or_alive {state : ProcState} (woken : kern.Woken slot state) :
    state = (kern.proc slot).state ∨ { kern.proc slot with state }.Alive ∧ (kern.proc slot).Alive := by
  rcases woken with rfl | ⟨asleep, rfl⟩
  · exact Or.inl rfl
  · exact Or.inr ⟨Or.inr (Or.inl rfl), Or.inl asleep⟩

theorem Kern.kill_spec (kern : Kern Sub) (pid : ℤ) (slot : Slot) :
    ∃ killed state, (kern.kill pid).proc slot = { kern.proc slot with killed, state } ∧
      kern.Woken slot state := by
  unfold Kern.kill
  split
  · exact ⟨_, _, rfl, Or.inl rfl⟩
  · rename_i found _
    by_cases same : slot = found
    · subst slot
      rw [Kern.modify_proc_self]
      refine ⟨true, _, rfl, ?_⟩
      split
      · rename_i asleep
        exact Or.inr ⟨asleep, rfl⟩
      · exact Or.inl rfl
    · rw [Kern.modify_proc_of_ne _ same]
      exact ⟨_, _, rfl, Or.inl rfl⟩

theorem Kern.kill_initproc (kern : Kern Sub) {pid : ℤ} :
    (kern.kill pid).initproc = kern.initproc := by
  unfold Kern.kill
  split <;> rfl

theorem Kern.adopt_spec (kern : Kern Sub) (curproc slot : Slot) :
    (kern.adopt curproc).proc slot =
      { kern.proc slot with
        parent := if (kern.proc slot).parent = some curproc then some kern.initproc
          else (kern.proc slot).parent } := by
  simp only [Kern.adopt]
  split <;> rfl

theorem Kern.reparent_spec (kern : Kern Sub) (curproc slot : Slot) :
    ∃ state, (kern.reparent curproc).proc slot =
        { kern.proc slot with
          parent := if (kern.proc slot).parent = some curproc then some kern.initproc
            else (kern.proc slot).parent
          state } ∧ kern.Woken slot state := by
  unfold Kern.reparent
  split
  · rcases (kern.adopt curproc).wakeup1_spec (some (.proc kern.initproc)) slot with
      ⟨state, procIs, woken⟩
    rw [Kern.Woken, Kern.adopt_spec] at woken
    rw [procIs, Kern.adopt_spec]
    exact ⟨state, rfl, woken⟩
  · rw [Kern.adopt_spec]
    exact ⟨_, rfl, Or.inl rfl⟩

/-- What `exit` does to the table: it wakes sleepers, hands its children to init and makes its
process a zombie. -/
theorem Kern.exit_spec (kern : Kern Sub) (curproc slot : Slot) :
    ∃ state, (kern.exit curproc).proc slot =
        { kern.proc slot with
          parent := if (kern.proc slot).parent = some curproc then some kern.initproc
            else (kern.proc slot).parent
          state } ∧
      (slot = curproc ∧ state = .zombie ∨ slot ≠ curproc ∧ kern.Woken slot state) := by
  rcases kern.wakeup1_spec ((kern.proc curproc).parent.map .proc) slot with
    ⟨first, wokenIs, woken⟩
  rcases (kern.wakeup1 ((kern.proc curproc).parent.map .proc)).reparent_spec curproc slot with
    ⟨second, movedIs, wokenAgain⟩
  rw [wokenIs] at movedIs
  rw [Kern.Woken, wokenIs] at wokenAgain
  by_cases same : slot = curproc
  · subst slot
    refine ⟨.zombie, ?_, Or.inl ⟨rfl, rfl⟩⟩
    rw [Kern.exit, Kern.setState, Kern.modify_proc_self, movedIs]
    rfl
  · refine ⟨second, ?_, Or.inr ⟨same, ?_⟩⟩
    · rw [Kern.exit_proc_of_ne same, movedIs]
      rfl
    · simp only [Kern.Woken] at woken ⊢
      grind

theorem Kern.exit_initproc (kern : Kern Sub) (curproc : Slot) :
    (kern.exit curproc).initproc = kern.initproc := by
  simp only [Kern.exit, Kern.setState, Kern.modify, Kern.reparent]
  split <;> rfl

namespace Kern.Family

theorem of_states (family : kern.Family) (init : after.initproc = kern.initproc)
    (slots : ∀ slot, (after.proc slot).parent = (kern.proc slot).parent ∧
      (after.proc slot).kstack = (kern.proc slot).kstack ∧
      ((after.proc slot).state = (kern.proc slot).state ∨
        (after.proc slot).Alive ∧ (kern.proc slot).Alive)) : after.Family := by
  have alive : ∀ slot, (after.proc slot).Alive ↔ (kern.proc slot).Alive := by
    intro slot
    rcases (slots slot).2.2 with same | ⟨now, before⟩
    · rw [Proc.Alive, same, Proc.Alive]
    · exact ⟨fun _ => before, fun _ => now⟩
  have born : ∀ slot, (after.proc slot).Born → (kern.proc slot).Born := by
    rintro slot (isAlive | isZombie)
    · exact Or.inl ((alive slot).mp isAlive)
    · rcases (slots slot).2.2 with same | ⟨now, _⟩
      · exact Or.inr (same.symm.trans isZombie)
      · exact absurd (Or.inr (Or.inr isZombie)) now.not_dead
  refine ⟨?_, ?_, ?_, ?_, ?_⟩
  · rw [init, alive]
    exact family.init
  · intro slot p isParent
    rw [(slots slot).1] at isParent
    exact (alive p).mpr (family.parent slot p isParent)
  · intro slot notInit isBorn
    rw [init] at notInit
    rw [(slots slot).1]
    exact family.born slot notInit (born slot isBorn)
  · intro slot isBorn
    rw [(slots slot).2.1]
    exact family.stack slot (born slot isBorn)
  · intro slot isUnused
    rw [(slots slot).1, (slots slot).2.1]
    rcases (slots slot).2.2 with same | ⟨now, _⟩
    · exact family.unused slot (same.symm.trans isUnused)
    · exact absurd (Or.inl isUnused) now.not_dead

theorem of_update (family : kern.Family) (table : after.proc = update kern.proc np new)
    (init : after.initproc = kern.initproc) (alive : (kern.proc np).Alive → new.Alive)
    (parent : ∀ p, new.parent = some p → (kern.proc p).Alive)
    (born : new.Born → new.kstack ≠ none ∧ (np ≠ kern.initproc → new.parent ≠ none))
    (unused : new.state = .unused → new.parent = none ∧ new.kstack = none) : after.Family := by
  have stays : ∀ slot, (kern.proc slot).Alive → (after.proc slot).Alive := by
    intro slot isAlive
    rw [table]
    by_cases same : slot = np
    · subst slot
      rw [update_self]
      exact alive isAlive
    · rw [update_of_ne same]
      exact isAlive
  refine ⟨?_, ?_, ?_, ?_, ?_⟩
  · rw [init]
    exact stays _ family.init
  · intro slot p isParent
    apply stays
    rw [table] at isParent
    by_cases same : slot = np
    · subst slot
      rw [update_self] at isParent
      exact parent p isParent
    · rw [update_of_ne same] at isParent
      exact family.parent slot p isParent
  · intro slot notInit
    rw [init] at notInit
    rw [table]
    by_cases same : slot = np
    · subst slot
      rw [update_self]
      exact fun isBorn => (born isBorn).2 notInit
    · rw [update_of_ne same]
      exact family.born slot notInit
  · intro slot
    rw [table]
    by_cases same : slot = np
    · subst slot
      rw [update_self]
      exact fun isBorn => (born isBorn).1
    · rw [update_of_ne same]
      exact family.stack slot
  · intro slot
    rw [table]
    by_cases same : slot = np
    · subst slot
      rw [update_self]
      exact unused
    · rw [update_of_ne same]
      exact family.unused slot

theorem exit (family : kern.Family) (running : (kern.proc curproc).state = .running)
    (notInit : curproc ≠ kern.initproc) : (kern.exit curproc).Family := by
  have stays : ∀ slot, slot ≠ curproc → (kern.proc slot).Alive →
      ((kern.exit curproc).proc slot).Alive := by
    intro slot different isAlive
    rcases kern.exit_spec curproc slot with ⟨state, procIs, ⟨same, _⟩ | ⟨_, woken⟩⟩
    · exact absurd same different
    · rw [procIs]
      rcases woken with rfl | ⟨_, rfl⟩
      · exact isAlive
      · exact Or.inr (Or.inl rfl)
  have born : ∀ slot, ((kern.exit curproc).proc slot).Born → (kern.proc slot).Born := by
    intro slot isBorn
    rcases kern.exit_spec curproc slot with ⟨state, procIs, ⟨rfl, _⟩ | ⟨_, rfl | ⟨asleep, _⟩⟩⟩
    · exact Or.inl (Or.inr (Or.inr running))
    · rw [procIs] at isBorn
      exact isBorn
    · exact Or.inl (Or.inl asleep)
  refine ⟨?_, ?_, ?_, ?_, ?_⟩
  · rw [Kern.exit_initproc]
    exact stays _ notInit.symm family.init
  · intro slot p isParent
    rcases kern.exit_spec curproc slot with ⟨state, procIs, _⟩
    rw [procIs] at isParent
    simp only at isParent
    split at isParent
    · cases isParent
      exact stays _ notInit.symm family.init
    · rename_i notChild
      apply stays p _ (family.parent slot p isParent)
      rintro rfl
      exact notChild isParent
  · intro slot different isBorn
    rw [Kern.exit_initproc] at different
    have hasParent := family.born slot different (born slot isBorn)
    rcases kern.exit_spec curproc slot with ⟨state, procIs, _⟩
    rw [procIs]
    simp only
    split
    · simp
    · exact hasParent
  · intro slot isBorn
    have hasStack := family.stack slot (born slot isBorn)
    rcases kern.exit_spec curproc slot with ⟨state, procIs, _⟩
    rw [procIs]
    exact hasStack
  · intro slot isUnused
    rcases kern.exit_spec curproc slot with ⟨state, procIs, ⟨_, rfl⟩ | ⟨_, rfl | ⟨_, rfl⟩⟩⟩
    · simp [procIs] at isUnused
    · rw [procIs] at isUnused ⊢
      rcases family.unused slot isUnused with ⟨noParent, noStack⟩
      simp [noParent, noStack]
    · simp [procIs] at isUnused

theorem step {cpu : Fin ncpu} {thread : Thread ncpu} {act : Act SubAct}
    {outcome : Effect Sub SubAct ncpu} (family : kern.Family)
    (table : TableStep kern cpu thread act outcome)
    (running : ∀ curproc, thread = .proc curproc → (kern.proc curproc).state = .running)
    (embryo : ∀ np, forkSite (.act act) = some (some np) → (kern.proc np).state = .embryo)
    (site : kern.Site (.act act)) : outcome.shared.Family := by
  have notAlive : ∀ slot, (kern.proc slot).Dead → ¬(kern.proc slot).Alive :=
    fun slot dead isAlive => isAlive.not_dead dead
  have unborn : ∀ np {alive : Prop}, forkSite (.act act) = some (some np) →
      (kern.proc np).Alive → alive :=
    fun np _ isSite isAlive => absurd isAlive (notAlive np (Or.inr (Or.inl (embryo np isSite))))
  cases table with
  | @claim np unused =>
      rcases family.unused np unused with ⟨noParent, noStack⟩
      refine family.of_update rfl rfl ?_ ?_ ?_ ?_
      · exact fun isAlive => absurd isAlive (notAlive np (Or.inl unused))
      · simp [noParent]
      · simp [Proc.Born, Proc.Alive]
      · simp
  | @noStack np empty =>
      refine family.of_update rfl rfl (unborn np rfl) (fun p => family.parent np p) ?_ ?_
      · simp [Proc.Born, Proc.Alive]
      · exact fun _ => site
  | @stack np page pages free =>
      have isEmbryo := embryo np rfl
      refine family.of_update rfl rfl (unborn np rfl) (fun p => family.parent np p) ?_ ?_
      · simp [Proc.Born, Proc.Alive, isEmbryo]
      · simp [isEmbryo]
  | @copied np curproc onCpu =>
      have isEmbryo := embryo np rfl
      refine family.of_update rfl rfl (unborn np rfl) ?_ ?_ ?_
      · rintro p ⟨⟩
        exact Or.inr (Or.inr (running curproc onCpu))
      · simp [Proc.Born, Proc.Alive, isEmbryo]
      · simp [isEmbryo]
  | @notCopied np =>
      refine family.of_update rfl rfl (unborn np rfl) (fun p => family.parent np p) ?_ ?_
      · simp [Proc.Born, Proc.Alive]
      · exact fun _ => ⟨site.1, rfl⟩
  | @start np =>
      refine family.of_update rfl rfl ?_ ?_ ?_ ?_
      · exact fun _ => Or.inr (Or.inl rfl)
      · exact fun p => family.parent np p
      · exact fun _ => ⟨site.2, fun _ => site.1⟩
      · simp
  | @exit curproc onCpu notInit => exact family.exit (running curproc onCpu) notInit
  | @reap curproc child onCpu parent zombie =>
      refine family.of_update rfl rfl ?_ ?_ ?_ ?_
      · exact fun isAlive => absurd isAlive (notAlive child (Or.inr (Or.inr zombie)))
      · simp
      · simp [Proc.Born, Proc.Alive]
      · simp
  | wait => exact family
  | @sleep curproc chan onCpu | @yield curproc onCpu =>
      have isBorn : (kern.proc curproc).Born := Or.inl (Or.inr (Or.inr (running curproc onCpu)))
      refine family.of_update rfl rfl ?_ ?_ ?_ ?_
      · simp [Proc.Alive]
      · exact fun p => family.parent curproc p
      · exact fun _ => ⟨family.stack curproc isBorn, fun notInit => family.born curproc notInit isBorn⟩
      · simp
  | @clear curproc onCpu =>
      refine family.of_update rfl rfl ?_ ?_ ?_ ?_
      · exact fun isAlive => isAlive
      · exact fun p => family.parent curproc p
      · exact fun isBorn =>
          ⟨family.stack curproc isBorn, fun notInit => family.born curproc notInit isBorn⟩
      · exact family.unused curproc
  | @pick slot own onScheduler runnable =>
      have isBorn : (kern.proc slot).Born := Or.inl (Or.inr (Or.inl runnable))
      refine family.of_update rfl rfl ?_ ?_ ?_ ?_
      · simp [Proc.Alive]
      · exact fun p => family.parent slot p
      · exact fun _ => ⟨family.stack slot isBorn, fun notInit => family.born slot notInit isBorn⟩
      · simp
  | @kill pid =>
      refine family.of_states kern.kill_initproc ?_
      intro slot
      rcases kern.kill_spec pid slot with ⟨killed, state, procIs, woken⟩
      rw [procIs]
      exact ⟨rfl, rfl, woken.same_or_alive⟩
  | @wakeup chan =>
      refine family.of_states rfl ?_
      intro slot
      rcases kern.wakeup1_spec (some chan) slot with ⟨state, procIs, woken⟩
      rw [procIs]
      exact ⟨rfl, rfl, woken.same_or_alive⟩
  | other _ only _ _ _ =>
      refine family.of_states only.initproc ?_
      intro slot
      rcases only.proc slot with ⟨status, procIs⟩
      rw [procIs]
      exact ⟨rfl, rfl, Or.inl rfl⟩

end Kern.Family

theorem Kern.Family.of_proc (family : kern.Family) (proc : after.proc = kern.proc)
    (init : after.initproc = kern.initproc) : after.Family := by
  refine family.of_states init fun slot => ?_
  rw [proc]
  exact ⟨rfl, rfl, Or.inl rfl⟩

theorem Kern.Site.of_plain {instr : Instr Lock (Act SubAct)} (plain : Plain instr) :
    kern.Site instr := by
  cases instr with
  | act act =>
      cases act with
      | kstack np | copyuvm np | forkRunnable np => exact plain.elim
      | _ => trivial
  | _ => trivial

theorem Kern.Site.congr {instr : Instr Lock (Act SubAct)} (site : kern.Site instr)
    (same : ∀ np, forkSite instr = some (some np) →
      ((after.proc np).parent = none ↔ (kern.proc np).parent = none) ∧
        (after.proc np).kstack = (kern.proc np).kstack) : after.Site instr := by
  cases instr with
  | act act =>
      cases act with
      | kstack np | copyuvm np | forkRunnable np =>
          rcases same np rfl with ⟨parent, stack⟩
          simpa only [Kern.Site, ne_eq, parent, stack] using site
      | _ => trivial
  | _ => trivial

end Table

section Step

variable {sub : Subsystem Sub SubAct SubEntry SubIntr} {locking : SubLocking SubAct}
  {allowed : Lock → Lock → Prop} {state next : Machine Sub SubAct ncpu} {cpu : Fin ncpu}
  {label : Label (Fin ncpu) (Entry SubEntry) (Intr SubIntr)} {kern : Kern Sub}
  {thread : Thread ncpu} {act : Act SubAct} {choice : ℕ} {outcome : Effect Sub SubAct ncpu}
  {rest : Code Lock (Act SubAct)} {np : Slot}

theorem TableStep.embryo_same (table : TableStep kern cpu thread act outcome)
    (embryo : (kern.proc np).state = .embryo) (notSite : forkSite (.act act) ≠ some (some np)) :
    ((outcome.shared.proc np).parent = none ↔ (kern.proc np).parent = none) ∧
      (outcome.shared.proc np).kstack = (kern.proc np).kstack := by
  have unchanged : ∀ {after : Kern Sub} {other : Slot} {new : Proc},
      after.proc = update kern.proc other new → np ≠ other →
      ((after.proc np).parent = none ↔ (kern.proc np).parent = none) ∧
        (after.proc np).kstack = (kern.proc np).kstack := by
    intro after other new table different
    rw [table, update_of_ne different]
    exact ⟨Iff.rfl, rfl⟩
  have kept : ∀ {after : Kern Sub} {other : Slot} {new : Proc},
      after.proc = update kern.proc other new → new.parent = (kern.proc other).parent →
      new.kstack = (kern.proc other).kstack →
      ((after.proc np).parent = none ↔ (kern.proc np).parent = none) ∧
        (after.proc np).kstack = (kern.proc np).kstack := by
    intro after other new table parent stack
    by_cases same : np = other
    · subst other
      rw [table, update_self, parent, stack]
      exact ⟨Iff.rfl, rfl⟩
    · exact unchanged table same
  cases table with
  | @claim _ unused | @reap _ _ _ _ unused =>
      refine unchanged rfl ?_
      rintro rfl
      simp [embryo] at unused
  | noStack | stack | copied | notCopied | start =>
      refine unchanged rfl ?_
      rintro rfl
      exact notSite rfl
  | @exit curproc onCpu notInit =>
      rcases kern.exit_spec curproc np with ⟨state, procIs, _⟩
      rw [procIs]
      refine ⟨?_, rfl⟩
      simp only
      split
      · rename_i isChild
        simp [isChild]
      · exact Iff.rfl
  | wait => exact ⟨Iff.rfl, rfl⟩
  | sleep | clear | yield | pick => exact kept rfl rfl rfl
  | @kill pid =>
      rcases kern.kill_spec pid np with ⟨killed, state, procIs, _⟩
      rw [procIs]
      exact ⟨Iff.rfl, rfl⟩
  | @wakeup chan =>
      rcases kern.wakeup1_spec (some chan) np with ⟨state, procIs, _⟩
      rw [procIs]
      exact ⟨Iff.rfl, rfl⟩
  | other _ only _ _ _ =>
      rcases only.proc np with ⟨status, procIs⟩
      rw [procIs]
      exact ⟨Iff.rfl, rfl⟩

theorem TableStep.site_push (table : TableStep kern cpu thread act outcome) (family : kern.Family)
    (site : kern.Site (.act act)) : ∀ instr ∈ outcome.push, outcome.shared.Site instr := by
  cases table with
  | @claim np unused =>
      rcases family.unused np unused with ⟨noParent, noStack⟩
      simp [Kern.Site, noParent, noStack]
  | @stack np page pages free =>
      have noParent : (kern.proc np).parent = none := site.1
      simp [Kern.Site, noParent]
  | @copied np curproc onCpu =>
      have hasStack : (kern.proc np).kstack ≠ none := site.2
      simp [Kern.Site, hasStack]
  | wait => simp [Xv6.sleep, Kern.Site]
  | reap => simp [Kern.Site]
  | pick => simp [scheduler, Kern.Site]
  | other _ _ _ _ plain => exact fun instr mem => .of_plain (plain instr mem)
  | _ => simp

/-- The process table is a family tree, and what `fork` is building fits its code. -/
structure FamilyInv (locking : SubLocking SubAct) (allowed : Lock → Lock → Prop)
    (state : Machine Sub SubAct ncpu) : Prop where
  life : LifeInv locking allowed state
  family : state.shared.Family
  sites : ∀ thread, ∀ instr ∈ state.code thread, state.shared.Site instr

/-- The instruction was there before an act, and is not that act. -/
def Remains (state : Machine Sub SubAct ncpu) (cpu : Fin ncpu) (rest : Code Lock (Act SubAct))
    (thread : Thread ncpu) (instr : Instr Lock (Act SubAct)) : Prop :=
  thread ≠ state.cur cpu ∧ instr ∈ state.code thread ∨ thread = state.cur cpu ∧ instr ∈ rest

theorem Remains.mem {instr : Instr Lock (Act SubAct)} (remains : Remains state cpu rest thread instr)
    (head : state.running cpu = .act act :: rest) : instr ∈ state.code thread := by
  rcases remains with ⟨_, mem⟩ | ⟨same, mem⟩
  · exact mem
  · rw [same]
    exact State.mem_rest head mem

theorem CoreInv.remains_or_push {instr : Instr Lock (Act SubAct)}
    (core : CoreInv locking allowed state) (head : state.running cpu = .act act :: rest)
    (executed : exec sub act cpu (state.cur cpu) choice state.shared = some outcome)
    (mem : instr ∈ (state.apply cpu (state.cur cpu) rest outcome).code thread) :
    Remains state cpu rest thread instr ∨ instr ∈ outcome.push ∨ instr = .release .ptable := by
  rcases core.apply_code head executed with ⟨here, others⟩
  by_cases same : thread = state.cur cpu
  · rw [same, here] at mem
    rcases List.mem_append.mp mem with inPush | inRest
    · exact Or.inr (Or.inl inPush)
    · exact Or.inl (Or.inr ⟨same, inRest⟩)
  · rcases others thread same with unchanged | ⟨isForkret, _⟩
    · rw [unchanged] at mem
      exact Or.inl (Or.inl ⟨same, mem⟩)
    · rw [isForkret] at mem
      exact Or.inr (Or.inr (List.mem_singleton.mp mem))

theorem mem_forkSites {code : Code Lock (Act SubAct)} {instr : Instr Lock (Act SubAct)}
    (mem : instr ∈ code) (site : forkSite instr = some (some np)) : some np ∈ forkSites code := by
  rcases List.append_of_mem mem with ⟨before, after, rfl⟩
  simp [forkSites, site]

namespace FamilyInv

section

variable (inv : FamilyInv locking allowed state) (head : state.running cpu = .act act :: rest)

include inv head

theorem notSite_of_remains {instr : Instr Lock (Act SubAct)}
    (remains : Remains state cpu rest thread instr) (site : forkSite instr = some (some np)) :
    forkSite (.act act) ≠ some (some np) := by
  intro isSite
  have here : some np ∈ forkSites (state.code (state.cur cpu)) := by
    rw [← State.running, head]
    simp [forkSites, isSite]
  rcases remains with ⟨different, mem⟩ | ⟨_, mem⟩
  · exact different (inv.life.core.procs.forker thread _ np (mem_forkSites mem site) here)
  · have single := inv.life.core.procs.forking (state.cur cpu)
    rw [← State.running, head] at single
    have later := List.length_pos_of_mem (mem_forkSites mem site)
    simp only [forkSites, isSite, Option.toList_some, List.length_append, List.length_singleton] at single
    omega

theorem site_of_remains (table : TableStep state.shared cpu (state.cur cpu) act outcome)
    {instr : Instr Lock (Act SubAct)} (remains : Remains state cpu rest thread instr) :
    outcome.shared.Site instr := by
  have mem := remains.mem head
  apply (inv.sites thread instr mem).congr
  intro np site
  apply table.embryo_same _ (inv.notSite_of_remains head remains site)
  exact inv.life.core.procs.embryo thread np (mem_forkSites mem site)

end

theorem of_act (plain : SubPlain sub) (inv : FamilyInv locking allowed state)
    (head : state.running cpu = .act act :: rest)
    (executed : exec sub act cpu (state.cur cpu) choice state.shared = some outcome) :
    outcome.shared.Family ∧ (∀ instr ∈ outcome.push, outcome.shared.Site instr) ∧
      ∀ thread instr, Remains state cpu rest thread instr → outcome.shared.Site instr := by
  rcases act.sub_or_not with ⟨subAct, rfl⟩ | notSub
  · rcases exec_sub_plain plain executed with ⟨proc, init, _, _, _, plainPush⟩
    refine ⟨inv.family.of_proc proc init, fun instr mem => .of_plain (plainPush instr mem), ?_⟩
    intro thread instr remains
    apply (inv.sites thread instr (remains.mem head)).congr
    intro np _
    rw [proc]
    exact ⟨Iff.rfl, rfl⟩
  · have table := tableStep_exec executed notSub
    have site := inv.sites _ _ (State.mem_head head)
    refine ⟨?_, table.site_push inv.family site, ?_⟩
    · apply inv.family.step table _ (fun np => inv.life.core.embryo_of_head head) site
      exact fun curproc onCpu => inv.life.core.procs.running cpu curproc onCpu
    · exact fun thread instr remains => inv.site_of_remains head table remains

theorem sites_update (inv : FamilyInv locking allowed state) {code : Code Lock (Act SubAct)}
    (new : ∀ instr ∈ code, instr ∈ state.running cpu ∨ state.shared.Site instr) :
    ∀ thread, ∀ instr ∈ update state.code (state.cur cpu) code thread,
      state.shared.Site instr := by
  intro thread instr mem
  by_cases same : thread = state.cur cpu
  · rw [same, update_self] at mem
    rcases new instr mem with old | site
    · exact inv.sites _ instr old
    · exact site
  · rw [update_of_ne same] at mem
    exact inv.sites thread instr mem

theorem site_entry (plain : SubPlain sub) {entry : Entry SubEntry} :
    ∀ instr ∈ entryCode sub entry, kern.Site instr := by
  cases entry with
  | sub entry => exact fun instr mem => .of_plain (plain.entry entry instr mem)
  | changeQueue pid queue => exact fun instr mem => .of_plain (plain_changeQueue instr mem)
  | _ => simp [entryCode, fork, exit, wait, kill, sysSleep, setBjfParamsProcess, setBjfParamsSystem,
      setBjfPriority, sleepOther, wakeup, Kern.Site]

theorem site_intr (plain : SubPlain sub) {intr : Intr SubIntr} {code : Code Lock (Act SubAct)}
    (handled : (kernel sub ncpu).intr intr cpu thread = some code) :
    ∀ instr ∈ code, kern.Site instr := by
  rcases kernel_intr_cases handled with ⟨_, rfl⟩ | rfl | ⟨subIntr, rfl⟩
  · simp [timer, Kern.Site]
  · simp [yield, Kern.Site]
  · simp only [List.forall_mem_append]
    exact ⟨fun instr mem => .of_plain (plain.intr subIntr instr mem), by simp [Kern.Site]⟩

theorem step [DecidableEq SubAct] (laws : SubLaws sub locking) (plain : SubPlain sub)
    (inv : FamilyInv locking allowed state)
    (stepped : (kernel sub ncpu).step state label = some next)
    (nests : NestsAllowed sub locking allowed state label) : FamilyInv locking allowed next := by
  refine ⟨inv.life.step laws plain stepped nests, ?_, ?_⟩
  · cases Program.step_cases stepped with
    | act head executed => exact (inv.of_act plain head executed).1
    | _ => exact inv.family
  · cases Program.step_cases stepped with
    | act head executed =>
        rcases inv.of_act plain head executed with ⟨_, pushed, remaining⟩
        intro thread instr mem
        rcases inv.life.core.remains_or_push head executed mem with remains | inPush | rfl
        · exact remaining thread instr remains
        · exact pushed instr inPush
        · trivial
    | acquire head free | release head owned =>
        apply inv.sites_update
        rw [head]
        exact fun instr mem => Or.inl (List.mem_cons_of_mem _ mem)
    | @call cpu entry code idle entered =>
        apply inv.sites_update
        rcases kernel_entry entered with ⟨slot, onCpu, rfl⟩
        exact fun instr mem => Or.inr (site_entry plain instr mem)
    | intr unlocked unmasked handled =>
        apply inv.sites_update
        intro instr mem
        rcases List.mem_append.mp mem with new | old
        · exact Or.inr (site_intr plain handled instr new)
        · exact Or.inl old

theorem familyInv_boot {freePages : List ℕ} {start : Sub} :
    FamilyInv locking allowed (boot ncpu freePages start : Machine Sub SubAct ncpu) := by
  refine ⟨lifeInv_boot, ⟨?_, ?_, ?_, ?_, ?_⟩, ?_⟩
  · exact Or.inr (Or.inl rfl)
  · intro slot p isParent
    by_cases isInit : slot = 0 <;> simp [boot, bootProc, isInit, Proc.empty] at isParent
  · intro slot notInit isBorn
    have isOther : slot ≠ 0 := notInit
    simp [boot, bootProc, isOther, Proc.empty, Proc.Born, Proc.Alive] at isBorn
  · intro slot isBorn
    by_cases isInit : slot = 0
    · simp [boot, bootProc, isInit]
    · simp [boot, bootProc, isInit, Proc.empty, Proc.Born, Proc.Alive] at isBorn
  · intro slot isUnused
    by_cases isInit : slot = 0
    · simp [boot, bootProc, isInit] at isUnused
    · simp [boot, bootProc, isInit, Proc.empty]
  · intro thread instr mem
    cases thread with
    | scheduler own =>
        simp only [boot, scheduler, List.mem_cons, List.not_mem_nil, or_false] at mem
        rcases mem with rfl | rfl <;> trivial
    | proc slot =>
        by_cases isInit : slot = 0
        · simp only [boot, isInit, if_true, forkret, List.mem_singleton] at mem
          rw [mem]
          trivial
        · simp only [boot, isInit, if_false, List.mem_singleton] at mem
          rw [mem]
          trivial

end FamilyInv

end Step

end Xv6
