import Mathlib

/-!
# Programs that read and write single blocks

A program is the sequence of its block operations; the writes it makes depend on what it
reads. A write of one block is atomic and writes reach the disk in program order, so a
crash leaves the disk with a prefix of the writes.
-/

namespace Disk

universe u

variable {Addr Data : Type*} {α β : Type u}

/-- A program over blocks of type `Data`, addressed by `Addr`. -/
inductive Program (Addr Data : Type*) (α : Type u) where
  | done (value : α)
  | read (addr : Addr) (next : Data → Program Addr Data α)
  | write (addr : Addr) (data : Data) (next : Program Addr Data α)

namespace Program

def bind : Program Addr Data α → (α → Program Addr Data β) → Program Addr Data β
  | .done value, rest => rest value
  | .read addr next, rest => .read addr fun data => (next data).bind rest
  | .write addr data next, rest => .write addr data (next.bind rest)

instance : Monad (Program Addr Data) where
  pure := .done
  bind := bind

theorem bind_done (program : Program Addr Data α) : program.bind .done = program := by
  induction program with
  | done value => rfl
  | read _ _ ih | write _ _ _ ih => simp only [bind, ih]

theorem bind_bind {γ : Type u} (program : Program Addr Data α) (next : α → Program Addr Data β)
    (last : β → Program Addr Data γ) :
    (program.bind next).bind last = program.bind fun value => (next value).bind last := by
  induction program with
  | done value => rfl
  | read _ _ ih | write _ _ _ ih => simp only [bind, ih]

instance : LawfulMonad (Program Addr Data) :=
  LawfulMonad.mk' _ bind_done (fun _ _ => rfl) bind_bind

end Program

section Store

variable [DecidableEq Addr] {disk other : Addr → Data} {writes later : List (Addr × Data)}
  {addr : Addr}

def store (disk : Addr → Data) (writes : List (Addr × Data)) : Addr → Data :=
  writes.foldl (fun disk write => Function.update disk write.1 write.2) disk

@[simp]
theorem store_nil : store disk [] = disk := rfl

@[simp]
theorem store_cons {write : Addr × Data} :
    store disk (write :: writes) = store (Function.update disk write.1 write.2) writes := rfl

theorem store_append : store disk (writes ++ later) = store (store disk writes) later :=
  List.foldl_append

theorem store_apply : store disk writes addr =
    ((writes.reverse.find? fun write => write.1 = addr).map Prod.snd).getD (disk addr) := by
  induction writes using List.reverseRecOn with
  | nil => rfl
  | append_singleton writes write ih =>
      rw [store_append, store_cons, store_nil, List.reverse_append, List.reverse_singleton,
        List.singleton_append, List.find?_cons]
      by_cases same : write.1 = addr
      · simp [same]
      · rw [Function.update_of_ne (Ne.symm same), ih]
        simp [same]

theorem store_of_notMem (unwritten : ∀ write ∈ writes, write.1 ≠ addr) :
    store disk writes addr = disk addr := by
  have none : writes.reverse.find? (fun write => write.1 = addr) = none := by
    simpa using unwritten
  rw [store_apply, none]
  rfl

section

variable (written : ∃ write ∈ writes, write.1 = addr)

include written

theorem exists_last : ∃ last, writes.reverse.find? (fun write => write.1 = addr) = some last := by
  rw [← Option.isSome_iff_exists, List.find?_isSome]
  simpa using written

theorem store_of_mem : store disk writes addr = store other writes addr := by
  rcases exists_last written with ⟨last, found⟩
  rw [store_apply, store_apply, found]
  rfl

theorem store_of_only {data : Data} (only : ∀ write ∈ writes, write.1 = addr → write.2 = data) :
    store disk writes addr = data := by
  rcases exists_last written with ⟨last, found⟩
  have there : last.1 = addr := by simpa using List.find?_some found
  have mem : last ∈ writes := List.mem_reverse.mp (List.mem_of_find?_eq_some found)
  rw [store_apply, found]
  exact only last mem there

end

theorem store_again (covered : ∀ write ∈ writes, ∃ again ∈ later, again.1 = write.1) :
    store (store disk writes) later = store disk later := by
  funext addr
  by_cases written : ∃ write ∈ later, write.1 = addr
  · exact store_of_mem written
  · have never : ∀ write ∈ later, write.1 ≠ addr := fun write mem same => written ⟨write, mem, same⟩
    rw [store_of_notMem never, store_of_notMem never]
    apply store_of_notMem
    intro write mem same
    rcases covered write mem with ⟨again, againMem, sameAddr⟩
    exact never again againMem (sameAddr.trans same)

theorem store_congr {area : Set Addr} (agree : ∀ addr ∉ area, disk addr = other addr)
    (outside : addr ∉ area) : store disk writes addr = store other writes addr := by
  by_cases written : ∃ write ∈ writes, write.1 = addr
  · exact store_of_mem written
  · have never : ∀ write ∈ writes, write.1 ≠ addr :=
      fun write mem same => written ⟨write, mem, same⟩
    rw [store_of_notMem never, store_of_notMem never, agree addr outside]

end Store

namespace Program

variable [DecidableEq Addr] {disk : Addr → Data} {program : Program Addr Data α}
  {next : α → Program Addr Data β}

def writes : Program Addr Data α → (Addr → Data) → List (Addr × Data)
  | .done _, _ => []
  | .read addr next, disk => (next (disk addr)).writes disk
  | .write addr data next, disk => (addr, data) :: next.writes (Function.update disk addr data)

def result : Program Addr Data α → (Addr → Data) → α
  | .done value, _ => value
  | .read addr next, disk => (next (disk addr)).result disk
  | .write addr data next, disk => next.result (Function.update disk addr data)

def final (program : Program Addr Data α) (disk : Addr → Data) : Addr → Data :=
  store disk (program.writes disk)

/-- The disk after a run that a crash cut off. -/
def crash (program : Program Addr Data α) (disk : Addr → Data) (count : ℕ) : Addr → Data :=
  store disk ((program.writes disk).take count)

@[simp]
theorem writes_pure (value : α) : (pure value : Program Addr Data α).writes disk = [] := rfl

@[simp]
theorem result_pure (value : α) : (pure value : Program Addr Data α).result disk = value := rfl

@[simp]
theorem final_pure (value : α) : (pure value : Program Addr Data α).final disk = disk := rfl

theorem final_write {addr : Addr} {data : Data} {next : Program Addr Data α} :
    (write addr data next).final disk = next.final (Function.update disk addr data) := rfl

@[simp]
theorem writes_bind : (program >>= next).writes disk =
    program.writes disk ++ (next (program.result disk)).writes (program.final disk) := by
  show (program.bind next).writes disk = _
  induction program generalizing disk with
  | done value => rfl
  | read addr reads ih => exact ih (disk addr)
  | write addr data program ih =>
      simp only [bind, writes, result, List.cons_append, ih, final_write]

@[simp]
theorem result_bind : (program >>= next).result disk =
    (next (program.result disk)).result (program.final disk) := by
  show (program.bind next).result disk = _
  induction program generalizing disk with
  | done value => rfl
  | read addr reads ih => exact ih (disk addr)
  | write addr data program ih => exact ih

@[simp]
theorem final_bind : (program >>= next).final disk =
    (next (program.result disk)).final (program.final disk) := by
  rw [final, writes_bind, store_append]
  rfl

end Program

end Disk
