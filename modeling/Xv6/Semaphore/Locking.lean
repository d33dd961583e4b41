import Xv6.Kernel.Frame
import Xv6.Kernel.Safety
import Xv6.Semaphore.Model

/-!
# Lock discipline of semaphores and console

The sorting and placing in `semaphore_acquire` runs under the lock of the semaphore,
`print_process_info` under `ptable.lock` as well, and the console loops under `cons.lock`.
-/

namespace Xv6

open Threads Discipline

variable {ncpu : ℕ}

def SemAct.needs (held : Finset Lock) : SemAct → Prop
  | .acquireBody sem | .sortOuter sem _ | .sortInner sem _ _ | .placeLoop sem _
  | .releaseBody sem | .dequeue sem => held = {.sem sem}
  | .placeStore _ _ | .wakeupproc _ => .ptable ∈ held
  | .printRow _ => .ptable ∈ held ∧ .cons ∉ held
  | .keys _ | .readLoop => held = {.cons}
  | .procdump => held = ∅

def SemAct.leaves (held : Finset Lock) : SemAct → Finset Lock
  | .keys _ | .readLoop => ∅
  | .acquireBody _ | .sortOuter _ _ | .sortInner _ _ _ | .placeLoop _ _ | .placeStore _ _
  | .printRow _ | .releaseBody _ | .wakeupproc _ | .dequeue _ | .procdump => held

def semLocking : SubLocking SemAct where
  needs := fun act held => act.needs held
  leaves := fun act held => act.leaves held
  leaves_subset := by
    intro act held
    cases act <;> simp [SemAct.leaves]

abbrev semDiscipline : Discipline Lock (Act SemAct) := discipline semLocking

@[simp]
theorem semDiscipline_needs {act : SemAct} {held : Finset Lock} :
    (discipline semLocking).needs (.sub act) held = act.needs held := rfl

@[simp]
theorem semDiscipline_leaves {act : SemAct} {held : Finset Lock} :
    (discipline semLocking).leaves (.sub act) held = act.leaves held := rfl

theorem runs_cprintf {held : Finset Lock} (free : .cons ∉ held) :
    semDiscipline.Runs held cprintf held := by
  simp [cprintf, Runs, free]

theorem runs_cprintfs {held : Finset Lock} (free : .cons ∉ held) (times : ℕ) :
    semDiscipline.Runs held (List.replicate times cprintf).flatten held := by
  induction times with
  | zero => simp [Runs]
  | succ times ih =>
      rw [List.replicate_succ, List.flatten_cons]
      exact (runs_cprintf free).append ih

theorem runs_blockCode {sem : SemId} {wfirst : ℕ} :
    semDiscipline.Runs {.sem sem} (blockCode sem wfirst) {.sem sem} := by
  refine Runs.append ?_ runs_sleep
  simp [printProcessInfo, cprintf, Runs, SemAct.needs, SemAct.leaves]

theorem runs_semExec {act : SemAct} {thread : Thread ncpu} {choice : ℕ} {kern : Kern SemState}
    {result : Kern SemState × SemCode} {held : Finset Lock} (needs : act.needs held)
    (executed : semExec act thread choice kern = some result) :
    semDiscipline.Runs held result.2 (act.leaves held) := by
  cases semExec_cases executed with
  | @block id =>
      obtain rfl : held = {.sem id} := needs
      exact runs_blockCode
  | @sortRow id | @compare id | @placeNext id | @grant id =>
      obtain rfl : held = {.sem id} := needs
      simp [Runs, SemAct.needs, SemAct.leaves]
  | skipRow => simpa [Runs, SemAct.needs, SemAct.leaves] using needs
  | printRow =>
      refine (runs_cprintfs needs.2 _).append ?_
      simpa [Runs, SemAct.needs, SemAct.leaves] using needs
  | @keysDone doprocdump =>
      obtain rfl : held = {.cons} := needs
      cases doprocdump <;> simp [Runs, SemAct.needs, SemAct.leaves]
  | keysDump | key | readDone | readMore =>
      obtain rfl : held = {.cons} := needs
      simp [Runs, SemAct.needs, SemAct.leaves]
  | line =>
      obtain rfl : held = {.cons} := needs
      refine (runs_wakeup (by simp)).append ?_
      simp [Runs, SemAct.needs, SemAct.leaves]
  | procdump =>
      obtain rfl : held = ∅ := needs
      exact runs_cprintfs (by simp) choice
  | readSleep =>
      obtain rfl : held = {.cons} := needs
      refine runs_sleep.append ?_
      simp [Runs, SemAct.needs, SemAct.leaves]
  | _ => rfl

theorem forkSites_cprintfs (times : ℕ) :
    forkSites (List.replicate times cprintf).flatten = [] := by
  induction times with
  | zero => rfl
  | succ times ih =>
      rw [List.replicate_succ, List.flatten_cons, forkSites_append, ih]
      simp [cprintf, forkSites, forkSite]

theorem forkSites_semExec {act : SemAct} {thread : Thread ncpu} {choice : ℕ}
    {kern : Kern SemState} {result : Kern SemState × SemCode}
    (executed : semExec act thread choice kern = some result) : forkSites result.2 = [] := by
  cases semExec_cases executed with
  | @keysDone doprocdump => cases doprocdump <;> rfl
  | printRow | procdump => simp [forkSites, forkSite, forkSites_cprintfs]
  | _ => simp [forkSites, forkSite, blockCode, printProcessInfo, cprintf, wakeup]

theorem semLaws : SubLaws semaphores semLocking where
  entry_runs := by
    intro entry
    cases entry with
    | consolewrite | cprintf => exact runs_cprintf (by simp)
    | _ => simp [semaphores, semaphoreAcquire, semaphoreRelease, consoleread, Runs, SemAct.needs, SemAct.leaves]
  intr_runs := by
    intro intr
    simp [semaphores, consoleintr, Runs, SemAct.needs, SemAct.leaves]
  exec_runs := fun _ _ _ _ _ _ needs executed => runs_semExec needs executed
  entry_forks := by
    intro entry
    cases entry <;> simp [semaphores, semaphoreAcquire, semaphoreRelease, consoleread,
      consolewrite, cprintf, forkSites, forkSite]
  intr_forks := fun _ => rfl
  exec_forks := fun _ _ _ _ _ executed => forkSites_semExec executed

end Xv6
