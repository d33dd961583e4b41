import Xv6.Kernel.History
import Xv6.Kernel.Stacks

/-!
# `kill` and free slots

`kill` looks for the pid only, and free slots have pids too: zero, or that of a `fork` that has
failed. As long as it is not called with one of these, and no `fork` fails whose process has
been killed meanwhile, free slots are not marked as killed and a new process starts unmarked.
-/

namespace Xv6

open Threads Transition

variable {Sub SubAct SubEntry SubIntr : Type} {ncpu : ℕ}

/-- The step is no `kill` that finds the pid in a free slot, and no failure of a `fork` whose
process is marked as killed. -/
def killsLive (state : Machine Sub SubAct ncpu)
    (label : Label (Fin ncpu) (Entry SubEntry) (Intr SubIntr)) : Bool :=
  match label with
  | .run cpu choice =>
      match state.running cpu with
      | .act (.kill pid) :: _ =>
          decide (∀ slot, (state.shared.proc slot).state = .unused →
            (state.shared.proc slot).pid ≠ pid)
      | .act (.kstack np) :: _ => state.shared.freePages ≠ [] ∨ ¬(state.shared.proc np).killed
      | .act (.copyuvm np) :: _ => choice = 0 ∨ ¬(state.shared.proc np).killed
      | _ => true
  | _ => true

/-- No free slot is marked as killed, and whoever is marked has been killed by its pid. -/
structure Kern.Marks (kern : Kern Sub) (events : List ProcEvent) : Prop where
  unused : ∀ slot, (kern.proc slot).state = .unused → (kern.proc slot).killed = false
  marked : ∀ slot, (kern.proc slot).state ≠ .unused → (kern.proc slot).killed = true →
    .killed (kern.proc slot).pid ∈ events

section Act

variable {sub : Subsystem Sub SubAct SubEntry SubIntr} {kern after : Kern Sub}
  {thread : Thread ncpu} {cpu : Fin ncpu} {act : Act SubAct} {slot : Slot} {choice : ℕ} {pid : ℤ}
  {outcome : Effect Sub SubAct ncpu} {events : List ProcEvent}

/-- `kill` with a pid that no free slot has: it marks the process with this pid, and nothing
else. -/
theorem Kern.kill_live (distinct : ∀ slot other, (kern.proc slot).state ≠ .unused →
      (kern.proc other).state ≠ .unused → (kern.proc slot).pid = (kern.proc other).pid →
      slot = other)
    (live : ∀ slot, (kern.proc slot).state = .unused → (kern.proc slot).pid ≠ pid) :
    (kern.killReturns pid = 0 ∧ ∃ slot, ((kern.proc slot).state ≠ .unused ∧
        (kern.proc slot).pid = pid ∧ ∀ other, (kern.proc other).state ≠ .unused →
        (kern.proc other).pid = pid → other = slot) ∧
      ((kern.kill pid).proc slot).killed = true ∧
      ∀ other, other ≠ slot → (kern.kill pid).proc other = kern.proc other) ∨
    kern.killReturns pid = -1 ∧ kern.kill pid = kern := by
  cases found : kern.find fun _ proc => proc.pid = pid with
  | none =>
      right
      simp [Kern.killReturns, Kern.kill, found]
  | some slot =>
      left
      have isPid : (kern.proc slot).pid = pid := by simpa using Kern.find_some found
      have used : (kern.proc slot).state ≠ .unused := fun isUnused => live slot isUnused isPid
      refine ⟨by simp [Kern.killReturns, found], slot, ⟨used, isPid, ?_⟩, ?_, ?_⟩
      · exact fun other otherUsed otherPid =>
          distinct other slot otherUsed used (otherPid.trans isPid.symm)
      · simp [Kern.kill, found]
      · intro other different
        simp only [Kern.kill, found]
        exact Kern.modify_proc_of_ne _ different

theorem SlotStep.mark (step : SlotStep kern after thread act slot)
    (killed : (after.proc slot).killed = true) :
    (kern.proc slot).killed = true ∨
      act = .kill (kern.proc slot).pid ∧ kern.killReturns (kern.proc slot).pid = 0 := by
  cases step with
  | killed isAct returns woken isNow => exact Or.inr ⟨isAct, returns⟩
  | kept pid parent same state => exact Or.inl (same ▸ killed)
  | reaped _ _ _ _ isNow => simp [isNow] at killed
  | claimed _ _ isNow | dropped _ _ isNow | made _ _ _ isNow | started _ _ isNow
  | exited _ _ _ isNow | handed _ _ _ _ _ isNow =>
      left
      rw [isNow] at killed
      exact killed

/-- A slot that is free after an act was free before, or belongs to a `fork` that fails, or has
been reaped. -/
theorem SlotStep.free (step : SlotStep kern after thread act slot)
    (isUnused : (after.proc slot).state = .unused) :
    (kern.proc slot).state = .unused ∨ forkSite (.act act) = some (some slot) ∨
      (after.proc slot).killed = false := by
  cases step with
  | dropped isFork embryo isNow => exact Or.inr (Or.inl isFork)
  | reaped _ _ _ _ isNow => exact Or.inr (Or.inr (by rw [isNow]))
  | made _ _ embryo isNow => simp [isNow, embryo] at isUnused
  | claimed _ _ isNow | started _ _ isNow | exited _ _ _ isNow => simp [isNow] at isUnused
  | handed _ _ _ _ woken isNow | killed _ _ woken isNow =>
      rw [isNow] at isUnused
      rcases woken with same | ⟨_, isRunnable⟩
      · exact Or.inl (same.symm.trans isUnused)
      · simp [isRunnable] at isUnused
  | kept pid parent same state =>
      rcases state with sameState | ⟨alive, _⟩
      · exact Or.inl (sameState.symm.trans isUnused)
      · exact absurd (Or.inl isUnused) alive.not_dead

namespace Kern.Marks

theorem of_proc (marks : kern.Marks events) (proc : after.proc = kern.proc) :
    after.Marks events := by
  refine ⟨?_, ?_⟩
  · rw [proc]
    exact marks.unused
  · rw [proc]
    exact marks.marked

theorem step (marks : kern.Marks events)
    (slots : ∀ slot, SlotStep kern outcome.shared thread act slot)
    (live : ∀ pid, act = .kill pid → ∀ slot, (kern.proc slot).state = .unused →
      (kern.proc slot).pid ≠ pid)
    (lucky : ∀ np, forkSite (.act act) = some (some np) →
      (outcome.shared.proc np).state = .unused → (kern.proc np).killed = false) :
    outcome.shared.Marks ((actEvent kern thread choice act).toList ++ events) := by
  refine ⟨?_, ?_⟩
  · intro slot isUnused
    rw [Bool.eq_false_iff]
    intro killed
    rcases (slots slot).free isUnused with wasUnused | isFork | unmarked
    · rcases (slots slot).mark killed with wasKilled | ⟨isKill, _⟩
      · simp [marks.unused slot wasUnused] at wasKilled
      · exact live _ isKill slot wasUnused rfl
    · rcases (slots slot).mark killed with wasKilled | ⟨rfl, _⟩
      · simp [lucky slot isFork isUnused] at wasKilled
      · simp [forkSite] at isFork
    · simp [unmarked] at killed
  · intro slot isUsed killed
    rcases (slots slot).pid isUsed with ⟨wasUsed, samePid⟩ | ⟨isAlloc, wasUnused, _⟩
    · rw [samePid]
      rcases (slots slot).mark killed with wasKilled | ⟨rfl, returns⟩
      · exact List.mem_append_right _ (marks.marked slot wasUsed wasKilled)
      · simp [actEvent, returns]
    · rcases (slots slot).mark killed with wasKilled | ⟨isKill, _⟩
      · simp [marks.unused slot wasUnused] at wasKilled
      · simp [isAlloc] at isKill

end Kern.Marks

end Act

section Step

variable {sub : Subsystem Sub SubAct SubEntry SubIntr} {locking : SubLocking SubAct}
  {allowed : Lock → Lock → Prop} {state next : Machine Sub SubAct ncpu} {cpu : Fin ncpu}
  {label : Label (Fin ncpu) (Entry SubEntry) (Intr SubIntr)} {act : Act SubAct} {choice : ℕ}
  {rest : Code Lock (Act SubAct)} {outcome : Effect Sub SubAct ncpu}
  {trace : Trace (Machine Sub SubAct ncpu) (Label (Fin ncpu) (Entry SubEntry) (Intr SubIntr))}

theorem unmarked_of_killsLive {np : Slot} (core : CoreInv locking allowed state)
    (head : state.running cpu = .act act :: rest)
    (executed : exec sub act cpu (state.cur cpu) choice state.shared = some outcome)
    (live : killsLive state
      (.run cpu choice : Label (Fin ncpu) (Entry SubEntry) (Intr SubIntr)) = true)
    (isFork : forkSite (.act act) = some (some np))
    (isUnused : (outcome.shared.proc np).state = .unused) :
    (state.shared.proc np).killed = false := by
  have embryo := core.embryo_of_head head isFork
  cases tableStep_exec executed (by rintro subAct rfl; simp [forkSite] at isFork) with
  | @noStack _ empty =>
      cases isFork
      simpa [killsLive, head, empty] using live
  | @stack | @copied =>
      cases isFork
      simp [embryo] at isUnused
  | @notCopied _ =>
      cases isFork
      have failed : choice ≠ 0 := by
        rintro rfl
        cases onCpu : state.cur cpu <;> simp [onCpu, exec, execProc, execAny] at executed
      simpa [killsLive, head, failed] using live
  | @start _ =>
      cases isFork
      simp at isUnused
  | other _ only _ _ _ =>
      rw [only.sameState, embryo] at isUnused
      cases isUnused
  | _ => cases isFork

theorem Kern.Marks.kernelStep [DecidableEq SubAct] (plain : SubPlain sub)
    (tree : FamilyInv locking allowed state) (marks : state.shared.Marks (procEvents trace))
    (live : killsLive state label = true)
    (stepped : (kernel sub ncpu).step state label = some next) :
    next.shared.Marks (procEvents ((state, label) :: trace)) := by
  rw [procEvents_cons]
  cases Program.step_cases stepped with
  | @act cpu choice act rest outcome head executed =>
      have executed : exec sub act cpu (state.cur cpu) choice state.shared = some outcome := executed
      rw [procEvent_act head]
      rcases act.sub_or_not with ⟨subAct, rfl⟩ | notSub
      · rw [actEvent_sub]
        exact marks.of_proc (exec_sub_plain plain executed).1
      · apply marks.step (tree.life.core.slotStep head executed notSub)
        · rintro pid rfl
          simpa [killsLive, head] using live
        · exact fun np => unmarked_of_killsLive tree.life.core head executed live
  | acquire head free | release head owned => simpa [procEvent, head] using marks
  | call | intr => simpa [procEvent] using marks

theorem Kern.Marks.claimed [DecidableEq SubAct] {events : List ProcEvent} {np : Slot}
    (plain : SubPlain sub) (tree : FamilyInv locking allowed state)
    (marks : state.shared.Marks events)
    (stepped : (kernel sub ncpu).step state label = some next)
    (isUnused : (state.shared.proc np).state = .unused)
    (isUsed : (next.shared.proc np).state ≠ .unused) : (next.shared.proc np).killed = false := by
  cases Program.step_cases stepped with
  | @act cpu choice act rest outcome head executed =>
      have executed : exec sub act cpu (state.cur cpu) choice state.shared = some outcome := executed
      rcases act.sub_or_not with ⟨subAct, rfl⟩ | notSub
      · have proc : outcome.shared.proc = state.shared.proc := (exec_sub_plain plain executed).1
        have same : (outcome.shared.proc np).state = .unused := by rw [proc, isUnused]
        exact absurd same isUsed
      · have step := tree.life.core.slotStep head executed notSub np
        rcases step.pid isUsed with ⟨wasUsed, _⟩ | ⟨isAlloc, _, _⟩
        · exact absurd isUnused wasUsed
        · rw [Bool.eq_false_iff]
          intro killed
          rcases step.mark killed with wasKilled | ⟨isKill, _⟩
          · simp [marks.unused np isUnused] at wasKilled
          · simp [isAlloc] at isKill
  | _ => exact absurd isUnused isUsed

theorem marks_boot {freePages : List ℕ} {start : Sub} :
    ((boot ncpu freePages start : Machine Sub SubAct ncpu).shared).Marks [] := by
  have unmarked : ∀ slot, (bootProc slot).killed = false := by
    intro slot
    by_cases isInit : slot = 0 <;> simp [bootProc, isInit, Proc.empty]
  refine ⟨fun slot _ => unmarked slot, ?_⟩
  intro slot _ killed
  have isMarked : (bootProc slot).killed = true := killed
  simp [unmarked] at isMarked

end Step

/-! ## Runs of the kernel -/

/-- `kill` with a pid that no free slot has marks the one process that has it, or fails and
changes nothing; a slot that `allocproc` takes is not marked, and whoever is marked has been
killed by its pid. -/
theorem kill_only_live {freePages : List ℕ} {trace : Trace (VmMachine ncpu) (VmLabel ncpu)}
    {state : VmMachine ncpu} (run : Run vmStep (boot ncpu freePages []) trace state)
    (live : Trace.All (fun state label => killsLive state label = true) trace) :
    (∀ pid, (∀ slot, (state.shared.proc slot).state = .unused →
        (state.shared.proc slot).pid ≠ pid) →
      (state.shared.killReturns pid = 0 ∧ ∃ slot, ((state.shared.proc slot).state ≠ .unused ∧
          (state.shared.proc slot).pid = pid ∧
          ∀ other, (state.shared.proc other).state ≠ .unused →
            (state.shared.proc other).pid = pid → other = slot) ∧
        ((state.shared.kill pid).proc slot).killed = true ∧
        ∀ other, other ≠ slot → (state.shared.kill pid).proc other = state.shared.proc other) ∨
      state.shared.killReturns pid = -1 ∧ state.shared.kill pid = state.shared) ∧
    (∀ np label next, vmStep state label = some next → (state.shared.proc np).state = .unused →
      (next.shared.proc np).state = .embryo → (next.shared.proc np).killed = false) ∧
    ∀ slot, (state.shared.proc slot).state ≠ .unused → (state.shared.proc slot).killed = true →
      .killed (state.shared.proc slot).pid ∈ procEvents trace := by
  have inv : HistoryInv vmLocking (fun _ _ => True) trace state ∧
      state.shared.Marks (procEvents trace) := by
    refine run.invariant (fun trace state => HistoryInv vmLocking (fun _ _ => True) trace state ∧
      state.shared.Marks (procEvents trace)) ⟨HistoryInv.historyInv_boot, marks_boot⟩ ?_ live
    rintro trace state label next ⟨history, marks⟩ _ liveStep stepped
    exact ⟨history.step vmLaws vmPlain stepped nestsAllowed_of_all,
      marks.kernelStep vmPlain history.tree liveStep stepped⟩
  rcases inv with ⟨history, marks⟩
  refine ⟨fun pid notFree => Kern.kill_live history.history.distinct notFree, ?_, marks.marked⟩
  intro np label next stepped isUnused isEmbryo
  exact marks.claimed vmPlain history.tree stepped isUnused (by simp [isEmbryo])

-- Init forks and kills its child.
theorem killed_child_recorded : ∃ trace state, Run vmStep (boot 1 [7] []) trace state ∧
    Trace.All (fun state label => killsLive state label = true) trace ∧
    (state.shared.proc 1).killed = true ∧ .killed 2 ∈ procEvents trace := by
  obtain ⟨trace, state, run, all, used, isPid, killed⟩ :
      ∃ trace state, Run vmStep (boot 1 [7] []) trace state ∧
      Trace.All (fun state label => killsLive state label = true) trace ∧
      (state.shared.proc 1).state ≠ .unused ∧ (state.shared.proc 1).pid = 2 ∧
      (state.shared.proc 1).killed = true :=
    exists_run [dispatch 0 0, go 0 1, call 0 .fork 15, call 0 (.kill 2) 3].flatten (by decide +kernel)
  have recorded := (kill_only_live run all).2.2 1 used killed
  rw [isPid] at recorded
  exact ⟨trace, state, run, all, killed, recorded⟩

-- Init kills the pid zero, which is that of the free slots, and forks.
theorem kill_zero_marks_free_slot : ∃ trace state, Run vmStep (boot 1 [7] []) trace state ∧
    (∃ entry ∈ trace, procEvent entry.1 entry.2 = some (.killed 0) ∧
      ∀ slot, (entry.1.shared.proc slot).state ≠ .unused → (entry.1.shared.proc slot).pid ≠ 0) ∧
    (state.shared.proc 1).state = .runnable ∧ (state.shared.proc 1).killed = true ∧
    .killed (state.shared.proc 1).pid ∉ procEvents trace :=
  exists_run [dispatch 0 0, go 0 1, call 0 (.kill 0) 3, call 0 .fork 15].flatten (by decide +kernel)

end Xv6
