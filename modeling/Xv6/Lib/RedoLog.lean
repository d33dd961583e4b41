import Xv6.Lib.Disk

/-!
# Physical redo logs

A part of the disk, the area, says which writes are to be made again after a crash.
What a disk stands for is the disk with those writes made. Making some of them changes
nothing, so an interrupted recovery can be started over.
-/

namespace RedoLog

open Disk

universe u

variable {Addr Data : Type*} {α : Type u}

/-- A format of redo logs: the blocks it occupies, when they hold a log, and the writes
that the log stands for. A log never redoes writes to itself. -/
structure Format (Addr Data : Type*) where
  area : Set Addr
  Valid : (Addr → Data) → Prop
  redo : (Addr → Data) → List (Addr × Data)
  valid_congr : ∀ {disk other : Addr → Data}, (∀ addr ∈ area, other addr = disk addr) →
    Valid disk → Valid other
  redo_congr : ∀ {disk other : Addr → Data}, (∀ addr ∈ area, other addr = disk addr) →
    Valid disk → redo other = redo disk
  redo_outside : ∀ {disk : Addr → Data}, Valid disk → ∀ write ∈ redo disk, write.1 ∉ area

variable [DecidableEq Addr] {format : Format Addr Data} {disk other : Addr → Data} {addr : Addr}
  {writes : List (Addr × Data)}

namespace Format

def contents (format : Format Addr Data) (disk : Addr → Data) : Addr → Data :=
  store disk (format.redo disk)

/-- Two disks stand for the same, where the log is not. -/
def Same (format : Format Addr Data) (disk other : Addr → Data) : Prop :=
  ∀ addr ∉ format.area, format.contents disk addr = format.contents other addr

theorem contents_of_clear (clear : format.redo disk = []) : format.contents disk = disk := by
  rw [contents, clear, store_nil]

theorem store_agree_area (outside : ∀ write ∈ writes, write.1 ∉ format.area) :
    ∀ addr ∈ format.area, store disk writes addr = disk addr := by
  intro addr inArea
  apply store_of_notMem
  intro write mem same
  exact outside write mem (same ▸ inArea)

theorem Valid.store_redo (valid : format.Valid disk)
    (redone : ∀ write ∈ writes, write ∈ format.redo disk) :
    format.Valid (store disk writes) ∧ format.redo (store disk writes) = format.redo disk := by
  have agree : ∀ addr ∈ format.area, store disk writes addr = disk addr :=
    store_agree_area fun write mem => format.redo_outside valid write (redone write mem)
  exact ⟨format.valid_congr agree valid, format.redo_congr agree valid⟩

theorem Valid.contents_store_redo (valid : format.Valid disk)
    (redone : ∀ write ∈ writes, write ∈ format.redo disk) :
    format.contents (store disk writes) = format.contents disk := by
  rw [contents, (valid.store_redo redone).2]
  exact store_again fun write mem => ⟨write, redone write mem, rfl⟩

theorem same_store_area (inArea : ∀ write ∈ writes, write.1 ∈ format.area)
    (unchanged : format.redo (store disk writes) = format.redo disk) :
    format.Same (store disk writes) disk := by
  intro addr outside
  rw [contents, contents, unchanged]
  have agree : ∀ place ∉ format.area, store disk writes place = disk place := by
    intro place notIn
    apply store_of_notMem
    intro write mem same
    exact notIn (same ▸ inArea write mem)
  exact store_congr agree outside

/-- What a recovery has to do: wherever it is cut off there is a log and the disk stands for
the same, and at its end there is nothing left to redo. -/
structure Recovers (format : Format Addr Data) (program : Program Addr Data α) : Prop where
  valid : ∀ {disk}, format.Valid disk → ∀ count, format.Valid (program.crash disk count)
  same : ∀ {disk}, format.Valid disk → ∀ count, format.Same (program.crash disk count) disk
  clears : ∀ {disk}, format.Valid disk → format.redo (program.final disk) = []

end Format

/-- The disk after runs of a program that were all cut off. -/
def crashes (program : Program Addr Data α) (disk : Addr → Data) (counts : List ℕ) :
    Addr → Data :=
  counts.foldl program.crash disk

namespace Format.Recovers

variable {program : Program Addr Data α}

theorem final_same (recovers : format.Recovers program) (valid : format.Valid disk) :
    format.Same (program.final disk) disk := by
  have whole : program.crash disk (program.writes disk).length = program.final disk := by
    rw [Program.crash, List.take_length, Program.final]
  rw [← whole]
  exact recovers.same valid _

/-- However often recovery was cut off before, the one that comes to its end leaves what
the disk stood for. -/
theorem final_crashes (recovers : format.Recovers program) (valid : format.Valid disk)
    (counts : List ℕ) (outside : addr ∉ format.area) :
    program.final (crashes program disk counts) addr = format.contents disk addr := by
  induction counts generalizing disk with
  | nil =>
      have same := recovers.final_same valid addr outside
      rw [contents_of_clear (recovers.clears valid)] at same
      exact same
  | cons count counts ih =>
      exact (ih (recovers.valid valid count)).trans (recovers.same valid count addr outside)

end Format.Recovers

end RedoLog
