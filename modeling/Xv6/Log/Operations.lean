import Xv6.Kernel.Projection
import Xv6.Kernel.Waiting
import Xv6.Log.Crash

/-!
# File-system operations of many processes

The functions of `log.c` as code of the kernel: an operation calls `begin_op`, some
`log_write` and `end_op`. The tests at the top of `log_write` are made without `log.lock`,
and a commit runs without it as well. A call that panics has no next step, nor has a store
behind the end of `log.lh.block`.
-/

namespace Xv6

open Threads Transition Discipline

inductive LogAct where
  | beginLoop
  | check
  | record (b : BlockNo) (data : Block)
  | endBody
  | commit
  | writeLog
  | writeHead
  | installTrans
  | clearHead
  | endCommit
  deriving DecidableEq

abbrev LogCode := Code Lock (Act LogAct)

/-- An operation, by the blocks that it logs. -/
structure LogEntry where
  writes : List (BlockNo × Block)
  deriving DecidableEq

abbrev logAct (act : LogAct) : Instr Lock (Act LogAct) := .act (.sub act)

section Functions

def beginOpCode : LogCode := [.acquire .log, logAct .beginLoop]

def logWriteCode (b : BlockNo) (data : Block) : LogCode :=
  [logAct .check, .acquire .log, logAct (.record b data), .release .log]

def endOpCode : LogCode := [.acquire .log, logAct .endBody]

/-- What a commit has to do, after the test of `commit` whether there is anything. -/
def commitCode : LogCode :=
  [logAct .writeLog, logAct .writeHead, logAct .installTrans, logAct .clearHead, logAct .writeHead]

def opCode (writes : List (BlockNo × Block)) : LogCode :=
  beginOpCode ++ writes.flatMap (fun write => logWriteCode write.1 write.2) ++ endOpCode

end Functions

/-- Run a function of `log.c` that writes to the disk. -/
def Mount.run (mount : Mount) (program : Log → BlockM Log) : Mount where
  log := (program mount.log).result mount.disk
  disk := (program mount.log).final mount.disk

/-- What the acts do to log and disk, and the code they go on with. -/
def Mount.exec (mount : Mount) : LogAct → Option (Mount × LogCode)
  | .beginLoop =>
      match beginOp mount.log with
      | some log => some ({ mount with log }, [.release .log])
      | none => some (mount, sleep .log .log ++ [logAct .beginLoop])
  | .check =>
      match logWriteCheck mount.log with
      | .ok () => some (mount, [])
      | .error _ => none
  | .record b data =>
      if mount.log.lh.slot b < LOGSIZE then
        some ({ mount with log := logWriteRecord mount.log b data }, [])
      else none
  | .endBody =>
      match endOp mount.log with
      | .error _ => none
      | .ok (log, true) => some ({ mount with log },
          [.release .log, logAct .commit, .acquire .log, logAct .endCommit])
      | .ok (log, false) => some ({ mount with log }, wakeup .log ++ [.release .log])
  | .commit => some (mount, if 0 < mount.log.lh.n then commitCode else [])
  | .writeLog => some (mount.run writeLog, [])
  | .writeHead => some (mount.run writeHead, [])
  | .installTrans => some (mount.run installTrans, [])
  | .clearHead => some ({ mount with log := mount.log.clearHead }, [])
  | .endCommit => some
      ({ mount with log := { mount.log with committing := false } },
        wakeup .log ++ [.release .log])

def logging : Subsystem Mount LogAct LogEntry Empty where
  exec := fun act _ _ kern =>
    (kern.sub.exec act).map fun result => ({ kern with sub := result.1 }, result.2)
  entry := fun entry => opCode entry.writes
  intr := fun intr => intr.elim

abbrev LogMachine (ncpu : ℕ) := Machine Mount LogAct ncpu

abbrev LogLabel (ncpu : ℕ) := Label (Fin ncpu) (Entry LogEntry) (Intr Empty)

def logStep {ncpu : ℕ} : LogMachine ncpu → LogLabel ncpu → Option (LogMachine ncpu) :=
  (kernel logging ncpu).step

/-! ## The acts -/

/-- What an act can do, one case for each branch. -/
inductive Mount.Execs (mount : Mount) : LogAct → Mount → LogCode → Prop
  | letIn (admitted : mount.log.admits = true) :
      Execs mount .beginLoop
        { mount with log := { mount.log with outstanding := mount.log.outstanding + 1 } }
        [.release .log]
  | wait (blocked : mount.log.admits = false) :
      Execs mount .beginLoop mount (sleep .log .log ++ [logAct .beginLoop])
  | check (checked : logWriteCheck mount.log = .ok ()) : Execs mount .check mount []
  | record {b : BlockNo} {data : Block} (bound : mount.log.lh.slot b < LOGSIZE) :
      Execs mount (.record b data) { mount with log := logWriteRecord mount.log b data } []
  | last (idle : mount.log.committing = false) (single : mount.log.outstanding = 1) :
      Execs mount .endBody
        { mount with log := { mount.log with outstanding := 0, committing := true } }
        [.release .log, logAct .commit, .acquire .log, logAct .endCommit]
  | leave (idle : mount.log.committing = false) (several : mount.log.outstanding ≠ 1) :
      Execs mount .endBody
        { mount with log := { mount.log with outstanding := mount.log.outstanding - 1 } }
        (wakeup .log ++ [.release .log])
  | commit (some_ : 0 < mount.log.lh.n) : Execs mount .commit mount commitCode
  | empty (none_ : ¬0 < mount.log.lh.n) : Execs mount .commit mount []
  | writeLog : Execs mount .writeLog (mount.run writeLog) []
  | writeHead : Execs mount .writeHead (mount.run writeHead) []
  | installTrans : Execs mount .installTrans (mount.run installTrans) []
  | clearHead : Execs mount .clearHead { mount with log := mount.log.clearHead } []
  | endCommit :
      Execs mount .endCommit { mount with log := { mount.log with committing := false } }
        (wakeup .log ++ [.release .log])

theorem Mount.execs {mount next : Mount} {act : LogAct} {code : LogCode}
    (executed : mount.exec act = some (next, code)) : mount.Execs act next code := by
  cases act with
  | beginLoop =>
      simp only [Mount.exec, Xv6.beginOp] at executed
      by_cases admitted : mount.log.admits = true
      · simp only [admitted, if_true, Option.some.injEq, Prod.mk.injEq] at executed
        rcases executed with ⟨rfl, rfl⟩
        exact .letIn admitted
      · simp only [Bool.not_eq_true] at admitted
        simp only [admitted, Bool.false_eq_true, if_false, Option.some.injEq,
          Prod.mk.injEq] at executed
        rcases executed with ⟨rfl, rfl⟩
        exact .wait admitted
  | check =>
      simp only [Mount.exec] at executed
      split at executed
      · rename_i checked
        cases executed
        exact .check checked
      · contradiction
  | record b data =>
      simp only [Mount.exec] at executed
      split at executed
      · rename_i bound
        cases executed
        exact .record bound
      · contradiction
  | endBody =>
      simp only [Mount.exec] at executed
      split at executed
      · contradiction
      all_goals
        rename_i log ended
        cases executed
        simp only [Xv6.endOp] at ended
        repeat' split at ended
        all_goals cases ended
      · rename_i idle zero
        have single : mount.log.outstanding = 1 := by omega
        rw [zero]
        exact .last (by simpa using idle) single
      · rename_i idle several
        exact .leave (by simpa using idle) (by omega)
  | commit =>
      simp only [Mount.exec, Option.some.injEq, Prod.mk.injEq] at executed
      rcases executed with ⟨rfl, rfl⟩
      split
      · rename_i some_
        exact .commit some_
      · rename_i none_
        exact .empty none_
  | writeLog =>
      cases executed
      exact .writeLog
  | writeHead =>
      cases executed
      exact .writeHead
  | installTrans =>
      cases executed
      exact .installTrans
  | clearHead =>
      cases executed
      exact .clearHead
  | endCommit =>
      cases executed
      exact .endCommit

theorem logging_exec {ncpu : ℕ} {act : LogAct} {thread : Thread ncpu} {choice : ℕ}
    {kern : Kern Mount} {result : Kern Mount × LogCode}
    (executed : logging.exec act thread choice kern = some result) :
    ∃ mount code, result = ({ kern with sub := mount }, code) ∧
      kern.sub.Execs act mount code := by
  simp only [logging, Option.map_eq_some_iff] at executed
  rcases executed with ⟨⟨mount, code⟩, ran, rfl⟩
  exact ⟨mount, code, rfl, Mount.execs ran⟩

/-! ## Lock discipline -/

def LogAct.needs (held : Finset Lock) : LogAct → Prop
  | .beginLoop | .record _ _ | .endBody | .endCommit => held = {.log}
  | .check | .commit | .writeLog | .writeHead | .installTrans | .clearHead => held = ∅

def LogAct.leaves (held : Finset Lock) : LogAct → Finset Lock
  | .beginLoop | .endBody | .endCommit => ∅
  | .record _ _ | .check | .commit | .writeLog | .writeHead | .installTrans | .clearHead => held

def logLocking : SubLocking LogAct where
  needs := fun act held => act.needs held
  leaves := fun act held => act.leaves held
  leaves_subset := by
    intro act held
    cases act <;> simp [LogAct.leaves]

@[simp]
theorem logDiscipline_needs {act : LogAct} {held : Finset Lock} :
    (discipline logLocking).needs (.sub act) held = act.needs held := rfl

@[simp]
theorem logDiscipline_leaves {act : LogAct} {held : Finset Lock} :
    (discipline logLocking).leaves (.sub act) held = act.leaves held := rfl

theorem runs_opCode {writes : List (BlockNo × Block)} :
    (discipline logLocking).Runs ∅ (opCode writes) ∅ := by
  have begins : (discipline logLocking).Runs ∅ beginOpCode ∅ := by
    simp [beginOpCode, Runs, LogAct.needs, LogAct.leaves]
  have writing : (discipline logLocking).Runs ∅
      (writes.flatMap fun write => logWriteCode write.1 write.2) ∅ := by
    induction writes with
    | nil => simp [Runs]
    | cons write writes ih =>
        rw [List.flatMap_cons]
        refine Runs.append ?_ ih
        simp [logWriteCode, Runs, LogAct.needs, LogAct.leaves]
  refine (begins.append writing).append ?_
  simp [endOpCode, Runs, LogAct.needs, LogAct.leaves]

theorem runs_execs {mount next : Mount} {act : LogAct} {code : LogCode} {held : Finset Lock}
    (needs : act.needs held) (executed : mount.Execs act next code) :
    (discipline logLocking).Runs held code (act.leaves held) := by
  cases executed with
  | letIn admitted =>
      have heldIs : held = {.log} := needs
      simp [heldIs, Runs, LogAct.leaves]
  | wait blocked =>
      obtain rfl : held = {.log} := needs
      refine runs_sleep.append ?_
      simp [Runs, LogAct.needs, LogAct.leaves]
  | last idle single =>
      have heldIs : held = {.log} := needs
      simp [heldIs, Runs, LogAct.needs, LogAct.leaves]
  | leave | endCommit =>
      obtain rfl : held = {.log} := needs
      refine (runs_wakeup (by simp)).append ?_
      simp [Runs, LogAct.leaves]
  | commit some_ =>
      have heldIs : held = ∅ := needs
      simp [heldIs, commitCode, Runs, LogAct.needs, LogAct.leaves]
  | _ => rfl

theorem forkSites_opCode {writes : List (BlockNo × Block)} : forkSites (opCode writes) = [] := by
  simp only [opCode, forkSites_append]
  have writing : forkSites (writes.flatMap fun write => logWriteCode write.1 write.2) = [] := by
    induction writes with
    | nil => rfl
    | cons write writes ih =>
        rw [List.flatMap_cons, forkSites_append, ih]
        simp [logWriteCode, forkSites, forkSite]
  rw [writing]
  simp [beginOpCode, endOpCode, forkSites, forkSite]

theorem logLaws : SubLaws logging logLocking where
  entry_runs := fun _ => runs_opCode
  intr_runs := fun intr => intr.elim
  exec_runs := by
    intro ncpu act thread choice kern result held needs executed
    rcases logging_exec executed with ⟨mount, code, rfl, execs⟩
    exact runs_execs needs execs
  entry_forks := fun _ => forkSites_opCode
  intr_forks := fun intr => intr.elim
  exec_forks := by
    intro ncpu act thread choice kern result executed
    rcases logging_exec executed with ⟨mount, code, rfl, execs⟩
    cases execs <;> simp [forkSites, forkSite, wakeup, commitCode]

theorem plain_opCode {writes : List (BlockNo × Block)} :
    ∀ instr ∈ opCode writes, Plain instr := by
  simp only [opCode, List.forall_mem_append]
  refine ⟨⟨by simp [beginOpCode, Plain], ?_⟩, by simp [endOpCode, Plain]⟩
  intro instr mem
  rcases List.mem_flatMap.mp mem with ⟨write, _, inWrite⟩
  simp only [logWriteCode, List.mem_cons, List.not_mem_nil, or_false] at inWrite
  rcases inWrite with rfl | rfl | rfl | rfl <;> trivial

theorem logPlain : SubPlain logging where
  entry := fun _ => plain_opCode
  intr := fun intr => intr.elim
  exec := by
    intro ncpu act thread choice kern result executed
    rcases logging_exec executed with ⟨mount, code, rfl, execs⟩
    refine ⟨rfl, rfl, rfl, ?_⟩
    cases execs with
    | wait blocked =>
        simp only [List.forall_mem_append]
        exact ⟨plain_sleep (by simp), by simp [Plain]⟩
    | _ => simp [Plain, wakeup, commitCode]

/-! ## Waiting in `begin_op` -/

/-- Processes sleep on `&log` while they are not let in. -/
def logRule : WaitRule Mount where
  chan := .log
  lk := .log
  blocked := fun mount => mount.log.admits = false

theorem notMem_opCode {instr : Instr Lock (Act LogAct)} {writes : List (BlockNo × Block)}
    (notSub : subAct? instr = none) (notLock : ∀ lock, instr ≠ .acquire lock ∧ instr ≠ .release lock) :
    instr ∉ opCode writes := by
  intro mem
  simp only [opCode, List.mem_append, List.mem_flatMap, beginOpCode, endOpCode, logWriteCode,
    List.mem_cons, List.not_mem_nil, or_false] at mem
  rcases mem with ((rfl | rfl) | ⟨write, _, rfl | rfl | rfl | rfl⟩) | rfl | rfl
  all_goals first
    | exact (notLock _).1 rfl
    | exact (notLock _).2 rfl
    | simp [subAct?] at notSub

theorem logKeeps : logRule.Keeps logging where
  notCore := not_false
  entry := fun _ => notMem_opCode rfl (by simp)
  intr := fun intr => intr.elim

theorem logWakes : logRule.WakesUnderLock logging where
  different := by simp [logRule]
  notCore := not_false
  entry := fun _ => notMem_opCode rfl (by simp)
  intr := fun intr => intr.elim
  exec := by
    intro ncpu act thread choice kern result executed mem
    rcases logging_exec executed with ⟨mount, code, rfl, execs⟩
    cases execs with
    | leave | endCommit => exact WaitRule.atWakeup_release
    | wait blocked => simp [sleep, logRule] at mem
    | _ => simp [commitCode] at mem

end Xv6
