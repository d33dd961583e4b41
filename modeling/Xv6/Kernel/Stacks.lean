import Xv6.Kernel.Family
import Xv6.Lib.Run

/-!
# Kernel stacks and the free list

Kernel stacks come from the same list of free pages as the memory of processes. The memory
calls are the subsystem of this file: they move pages between the free list and the processes
at any time, so that a `fork` may find no page for a stack.
-/

namespace Xv6

open Threads Transition Discipline

inductive VmAct where
  | kalloc
  | kfree
  deriving DecidableEq

/-- The memory calls, on the pages that processes have. `kalloc` takes the first free page and
`kfree` puts a page in front; the choice says which page. -/
def vmExec (act : VmAct) (choice : ℕ) (kern : Kern (List ℕ)) : Kern (List ℕ) :=
  match act with
  | .kalloc =>
      match kern.freePages with
      | [] => kern
      | page :: pages => { kern with freePages := pages, sub := page :: kern.sub }
  | .kfree =>
      match kern.sub[choice]? with
      | none => kern
      | some page => { kern with freePages := page :: kern.freePages, sub := kern.sub.eraseIdx choice }

def vm : Subsystem (List ℕ) VmAct VmAct Empty where
  exec := fun act _ choice kern => some (vmExec act choice kern, [])
  entry := fun act => [.act (.sub act)]
  intr := fun intr => intr.elim

def vmLocking : SubLocking VmAct where
  needs := fun _ held => held = ∅
  leaves := fun _ held => held
  leaves_subset := by simp

theorem vmExec_proc (act : VmAct) (choice : ℕ) (kern : Kern (List ℕ)) :
    (vmExec act choice kern).proc = kern.proc ∧
      (vmExec act choice kern).initproc = kern.initproc ∧
      (vmExec act choice kern).nextpid = kern.nextpid := by
  cases act <;> (simp only [vmExec]; split <;> exact ⟨rfl, rfl, rfl⟩)

theorem vmLaws : SubLaws vm vmLocking where
  entry_runs := by
    intro entry
    simp [vm, Runs, discipline, Act.needs, Act.leaves, vmLocking]
  intr_runs := fun intr => intr.elim
  exec_runs := by
    intro ncpu act thread choice kern result held _ executed
    cases executed
    rfl
  entry_forks := fun _ => rfl
  intr_forks := fun intr => intr.elim
  exec_forks := by
    intro ncpu act thread choice kern result executed
    cases executed
    rfl

theorem vmPlain : SubPlain vm where
  entry := by simp [vm, Plain]
  intr := fun intr => intr.elim
  exec := by
    intro ncpu act thread choice kern result executed
    cases executed
    rcases vmExec_proc act choice kern with ⟨proc, init, pid⟩
    exact ⟨proc, init, pid, by simp⟩

abbrev VmMachine (ncpu : ℕ) := Machine (List ℕ) VmAct ncpu

abbrev VmLabel (ncpu : ℕ) := Label (Fin ncpu) (Entry VmAct) (Intr Empty)

def vmStep {ncpu : ℕ} : VmMachine ncpu → VmLabel ncpu → Option (VmMachine ncpu) :=
  (kernel vm ncpu).step

/-- A page is free, or a process has it, or it is one kernel stack. -/
structure Kern.Pages (kern : Kern (List ℕ)) : Prop where
  nodup : (kern.freePages ++ kern.sub).Nodup
  owned : ∀ slot page, (kern.proc slot).kstack = some page → page ∉ kern.freePages ++ kern.sub
  distinct : ∀ slot other page, (kern.proc slot).kstack = some page →
    (kern.proc other).kstack = some page → slot = other

namespace Kern.Pages

variable {kern after : Kern (List ℕ)} {np : Slot} {page : ℕ} {pages : List ℕ}

theorem of_same (inv : kern.Pages)
    (sameStack : ∀ slot, (after.proc slot).kstack = (kern.proc slot).kstack)
    (free : after.freePages = kern.freePages) (sub : after.sub = kern.sub) : after.Pages := by
  refine ⟨?_, ?_, ?_⟩
  · rw [free, sub]
    exact inv.nodup
  · intro slot page
    rw [sameStack, free, sub]
    exact inv.owned slot page
  · intro slot other page
    rw [sameStack, sameStack]
    exact inv.distinct slot other page

theorem of_perm (inv : kern.Pages) (proc : after.proc = kern.proc)
    (moved : (after.freePages ++ after.sub).Perm (kern.freePages ++ kern.sub)) : after.Pages := by
  refine ⟨moved.nodup_iff.mpr inv.nodup, ?_, ?_⟩
  · intro slot page isStack
    rw [proc] at isStack
    rw [moved.mem_iff]
    exact inv.owned slot page isStack
  · rw [proc]
    exact inv.distinct

theorem take (inv : kern.Pages) (free : kern.freePages = page :: pages)
    (others : ∀ slot, slot ≠ np → (after.proc slot).kstack = (kern.proc slot).kstack)
    (here : (after.proc np).kstack = some page) (rest : after.freePages = pages)
    (sub : after.sub = kern.sub) : after.Pages := by
  have nodup := inv.nodup
  rw [free, List.cons_append, List.nodup_cons] at nodup
  have fresh : ∀ slot, (kern.proc slot).kstack ≠ some page := by
    intro slot isStack
    apply inv.owned slot page isStack
    rw [free]
    exact List.mem_cons_self
  refine ⟨?_, ?_, ?_⟩
  · rw [rest, sub]
    exact nodup.2
  · intro slot other isStack
    rw [rest, sub]
    by_cases same : slot = np
    · rw [same, here] at isStack
      cases isStack
      exact nodup.1
    · rw [others slot same] at isStack
      have notOwned := inv.owned slot other isStack
      rw [free, List.cons_append, List.mem_cons, not_or] at notOwned
      exact notOwned.2
  · intro slot other stack isStack isOther
    by_cases same : slot = np <;> by_cases otherSame : other = np
    · rw [same, otherSame]
    · rw [same, here] at isStack
      cases isStack
      rw [others other otherSame] at isOther
      exact absurd isOther (fresh other)
    · rw [otherSame, here] at isOther
      cases isOther
      rw [others slot same] at isStack
      exact absurd isStack (fresh slot)
    · rw [others slot same] at isStack
      rw [others other otherSame] at isOther
      exact inv.distinct slot other stack isStack isOther

theorem give (inv : kern.Pages)
    (others : ∀ slot, slot ≠ np → (after.proc slot).kstack = (kern.proc slot).kstack)
    (here : (after.proc np).kstack = none)
    (freed : after.freePages = (kern.proc np).kstack.toList ++ kern.freePages)
    (sub : after.sub = kern.sub) : after.Pages := by
  have moved : ∀ slot page, (after.proc slot).kstack = some page →
      slot ≠ np ∧ (kern.proc slot).kstack = some page := by
    intro slot page isStack
    have different : slot ≠ np := by
      rintro rfl
      simp [here] at isStack
    exact ⟨different, (others slot different).symm.trans isStack⟩
  refine ⟨?_, ?_, ?_⟩
  · rw [freed, sub, List.append_assoc]
    cases isStack : (kern.proc np).kstack with
    | none => simpa using inv.nodup
    | some page => exact List.nodup_cons.mpr ⟨inv.owned np page isStack, inv.nodup⟩
  · intro slot page isStack
    rcases moved slot page isStack with ⟨different, before⟩
    rw [freed, sub, List.append_assoc, List.mem_append, not_or]
    refine ⟨?_, inv.owned slot page before⟩
    intro mem
    rw [Option.mem_toList] at mem
    exact different (inv.distinct slot np page before mem)
  · intro slot other page isStack isOther
    exact inv.distinct slot other page (moved slot page isStack).2 (moved other page isOther).2

theorem vm (inv : kern.Pages) {act : VmAct} {choice : ℕ} : (vmExec act choice kern).Pages := by
  apply inv.of_perm (vmExec_proc act choice kern).1
  cases act with
  | kalloc =>
      simp only [vmExec]
      split
      · exact .refl _
      · rename_i page pages free
        rw [free]
        exact List.perm_middle
  | kfree =>
      simp only [vmExec]
      split
      · exact .refl _
      · rename_i page found
        rcases List.getElem?_eq_some_iff.mp found with ⟨bound, pageIs⟩
        have erased : kern.sub.Perm (page :: kern.sub.eraseIdx choice) := by
          rw [← pageIs]
          exact (List.getElem_cons_eraseIdx_perm bound).symm
        calc page :: kern.freePages ++ kern.sub.eraseIdx choice
          _ |>.Perm (kern.freePages ++ page :: kern.sub.eraseIdx choice) := List.perm_middle.symm
          _ |>.Perm (kern.freePages ++ kern.sub) := erased.symm.append_left _

theorem exit_freePages {curproc : Slot} : (kern.exit curproc).freePages = kern.freePages := by
  simp only [Kern.exit, Kern.setState, Kern.modify, Kern.reparent]
  split <;> rfl

theorem kill_freePages {pid : ℤ} : (kern.kill pid).freePages = kern.freePages := by
  unfold Kern.kill
  split <;> rfl

/-- The acts of `proc.c` take a page for a new kernel stack and free the stacks of the processes
they give up. -/
theorem step {ncpu : ℕ} {cpu : Fin ncpu} {thread : Thread ncpu} {act : Act VmAct}
    {outcome : Effect (List ℕ) VmAct ncpu} (inv : kern.Pages)
    (table : TableStep kern cpu thread act outcome) (sub : outcome.shared.sub = kern.sub) :
    outcome.shared.Pages := by
  have others : ∀ {after : Kern (List ℕ)} {changed : Slot} {new : Proc},
      after.proc = Function.update kern.proc changed new →
      ∀ slot, slot ≠ changed → (after.proc slot).kstack = (kern.proc slot).kstack := by
    intro after changed new table slot different
    rw [table, Function.update_of_ne different]
  have update : ∀ {after : Kern (List ℕ)} {changed : Slot} {new : Proc},
      after.proc = Function.update kern.proc changed new →
      new.kstack = (kern.proc changed).kstack → after.freePages = kern.freePages →
      after.sub = kern.sub → after.Pages := by
    intro after changed new table stack free sub
    refine inv.of_same ?_ free sub
    intro slot
    by_cases same : slot = changed
    · rw [same, table, Function.update_self, stack]
    · exact others table slot same
  cases table with
  | claim | noStack | copied | start | sleep | clear | yield | pick => exact update rfl rfl rfl rfl
  | @stack np page pages free => exact inv.take free (others rfl) (by simp) rfl rfl
  | @notCopied np => exact inv.give (others rfl) (by simp) rfl rfl
  | @reap curproc child onCpu parent zombie =>
      exact inv.give (others rfl) (by simp [Kern.reap]) rfl rfl
  | @exit curproc onCpu notInit =>
      refine inv.of_same ?_ ?_ sub
      · intro slot
        rcases kern.exit_spec curproc slot with ⟨state, procIs, _⟩
        rw [procIs]
      · exact exit_freePages
  | wait => exact inv
  | @kill pid =>
      refine inv.of_same ?_ ?_ sub
      · intro slot
        rcases kern.kill_spec pid slot with ⟨killed, state, procIs, _⟩
        rw [procIs]
      · exact kill_freePages
  | @wakeup chan =>
      refine inv.of_same ?_ rfl sub
      intro slot
      rcases kern.wakeup1_spec (some chan) slot with ⟨state, procIs, _⟩
      rw [procIs]
  | other _ only _ _ _ =>
      refine inv.of_same ?_ only.freePages sub
      intro slot
      rcases only.proc slot with ⟨status, procIs⟩
      rw [procIs]

end Kern.Pages

/-- The process tree and the pages fit together. -/
structure StackInv {ncpu : ℕ} (state : VmMachine ncpu) : Prop where
  tree : FamilyInv vmLocking (fun _ _ => True) state
  pages : state.shared.Pages

namespace StackInv

variable {ncpu : ℕ} {state next : VmMachine ncpu} {label : VmLabel ncpu}

theorem step (inv : StackInv state) (stepped : vmStep state label = some next) :
    StackInv next := by
  refine ⟨inv.tree.step vmLaws vmPlain stepped nestsAllowed_of_all, ?_⟩
  cases Program.step_cases stepped with
  | @act cpu choice act rest outcome head executed =>
      rcases act.sub_or_not with ⟨subAct, rfl⟩ | notSub
      · cases executed
        exact inv.pages.vm
      · exact inv.pages.step (tableStep_exec executed notSub) (staysOut_exec executed notSub).sub
  | _ => exact inv.pages

theorem stackInv_boot {freePages : List ℕ} (nodup : (0 :: freePages).Nodup) :
    StackInv (boot ncpu freePages [] : VmMachine ncpu) := by
  have isInit : ∀ {slot : Slot} {page : ℕ}, (bootProc slot).kstack = some page →
      slot = 0 ∧ page = 0 := by
    intro slot page isStack
    by_cases first : slot = 0
    · simp only [bootProc, first, if_true, Option.some.injEq] at isStack
      exact ⟨first, isStack.symm⟩
    · simp [bootProc, first, Proc.empty] at isStack
  rw [List.nodup_cons] at nodup
  refine ⟨FamilyInv.familyInv_boot, ⟨?_, ?_, ?_⟩⟩
  · simpa [boot] using nodup.2
  · intro slot page isStack
    rw [(isInit isStack).2]
    simpa [boot] using nodup.1
  · intro slot other page isStack isOther
    rw [(isInit isStack).1, (isInit isOther).1]

end StackInv

/-- Every process but init has a parent that can still run. The processes have kernel stacks of
their own, none of them free, and a free slot has none. A process is running if and only if it
is on exactly one processor. -/
theorem process_tree {ncpu : ℕ} {freePages : List ℕ} {trace : Trace (VmMachine ncpu) (VmLabel ncpu)}
    {state : VmMachine ncpu} (nodup : (0 :: freePages).Nodup)
    (run : Run vmStep (boot ncpu freePages []) trace state) :
    (∀ slot, slot ≠ state.shared.initproc → (state.shared.proc slot).Born →
      ∃ parent, (state.shared.proc slot).parent = some parent ∧
        (state.shared.proc parent).state ≠ .unused ∧ (state.shared.proc parent).state ≠ .zombie) ∧
    (∀ slot, (state.shared.proc slot).Born → ∃ page, (state.shared.proc slot).kstack = some page ∧
      page ∉ state.shared.freePages ∧
      ∀ other, (state.shared.proc other).kstack = some page → other = slot) ∧
    (∀ slot, (state.shared.proc slot).state = .unused → (state.shared.proc slot).kstack = none) ∧
    ∀ slot, (state.shared.proc slot).state = .running ↔ ∃! cpu, state.cur cpu = .proc slot := by
  have inv : StackInv state :=
    run.stateInvariant StackInv (.stackInv_boot nodup) (fun inv _ stepped => inv.step stepped)
      (Trace.all_true _)
  have family := inv.tree.family
  refine ⟨?_, ?_, ?_, ?_⟩
  · intro slot notInit isBorn
    rcases Option.ne_none_iff_exists'.mp (family.born slot notInit isBorn) with ⟨parent, isParent⟩
    have alive := family.parent slot parent isParent
    refine ⟨parent, isParent, ?_, ?_⟩
    · exact fun isUnused => alive.not_dead (Or.inl isUnused)
    · exact fun isZombie => alive.not_dead (Or.inr (Or.inr isZombie))
  · intro slot isBorn
    rcases Option.ne_none_iff_exists'.mp (family.stack slot isBorn) with ⟨page, isStack⟩
    refine ⟨page, isStack, ?_, ?_⟩
    · exact fun isFree => inv.pages.owned slot page isStack (List.mem_append_left _ isFree)
    · exact fun other isOther => inv.pages.distinct other slot page isOther isStack
  · exact fun slot isUnused => (family.unused slot isUnused).2
  · intro slot
    have procs := inv.tree.life.core.procs
    refine ⟨?_, ?_⟩
    · intro isRunning
      rcases procs.placed slot isRunning with ⟨cpu, onCpu⟩
      refine ⟨cpu, onCpu, ?_⟩
      intro other onOther
      exact inv.tree.life.core.tracked.cur_injective (onOther.trans onCpu.symm)
    · rintro ⟨cpu, onCpu, _⟩
      exact procs.running cpu slot onCpu

-- Init forks on one page, a second `fork` finds none for the stack, and the child exits.
theorem zombie_of_init : ∃ trace state, Run vmStep (boot 1 [7] []) trace state ∧
    (state.shared.proc 1).state = .zombie ∧
    (∃ parent, (state.shared.proc 1).parent = some parent ∧
      (state.shared.proc parent).state ≠ .unused ∧ (state.shared.proc parent).state ≠ .zombie) ∧
    ∃ page, (state.shared.proc 1).kstack = some page ∧ page ∉ state.shared.freePages := by
  obtain ⟨trace, state, run, isZombie, initIs⟩ :
      ∃ trace state, Run vmStep (boot 1 [7] []) trace state ∧
      (state.shared.proc 1).state = .zombie ∧ state.shared.initproc = 0 :=
    exists_run [dispatch 0 0, go 0 1, call 0 .fork 15, call 0 .fork 4, preempt 0, dispatch 0 1, go 0 1,
      call 0 .exit 2].flatten (by decide +kernel)
  rcases process_tree (by decide) run with ⟨parents, stack, _, _⟩
  refine ⟨trace, state, run, isZombie, parents 1 ?_ (Or.inr isZombie), ?_⟩
  · rw [initIs]
    decide
  · rcases stack 1 (Or.inr isZombie) with ⟨page, isStack, notFree, _⟩
    exact ⟨page, isStack, notFree⟩

end Xv6
