import Xv6.Lib.Bytes
import Xv6.Lib.Linked
import Xv6.Lib.Run

/-!
# The page allocator

`kalloc.c`: free pages are linked through their first word. `kinit1` frees the pages below 4 MB
and `kinit2` the rest; in between and afterwards pages are allocated, written by their owners
and freed.
-/

namespace Xv6

open Transition

/-- Bytes of a page, the first kernel address, and the end of physical memory. -/
abbrev PGSIZE : ℕ := 4096
abbrev KERNBASE : ℕ := 0x80000000
abbrev PHYSTOP : ℕ := 0xE000000

/-- The end of the memory that `entrypgdir` maps. -/
abbrev ENTRYTOP : ℕ := 4 * 1024 * 1024

def P2V (a : ℕ) : ℕ := a + KERNBASE

def V2P (a : ℕ) : ℕ := (a + 2 ^ 32 - KERNBASE) % 2 ^ 32

def PGROUNDUP (sz : ℕ) : ℕ := (sz + PGSIZE - 1) / PGSIZE * PGSIZE

structure Kmem where
  memory : Bytes.Memory
  freelist : ℕ
  useLock : Bool

def runNext (memory : Bytes.Memory) (r : ℕ) : ℕ := Bytes.number memory r 4

/-- `kfree`, where `kend` is the address `end`; there is no result if it panics. -/
def kfree (kend : ℕ) (kmem : Kmem) (v : ℕ) : Option Kmem :=
  if v % PGSIZE ≠ 0 ∨ v < kend ∨ V2P v ≥ PHYSTOP then none
  else
    let junk := Bytes.store kmem.memory v PGSIZE fun _ => 1
    some { kmem with
      memory := Bytes.store junk v 4 (Bytes.byte kmem.freelist)
      freelist := v }

def kalloc (kmem : Kmem) : Kmem × ℕ :=
  let r := kmem.freelist
  if r ≠ 0 then ({ kmem with freelist := runNext kmem.memory r }, r) else (kmem, r)

def freerangeLoop (kend : ℕ) (kmem : Kmem) (p vend : ℕ) : Option Kmem :=
  if _more : p + PGSIZE ≤ vend then
    (kfree kend kmem p).bind fun next => freerangeLoop kend next (p + PGSIZE) vend
  else some kmem
termination_by vend - p
decreasing_by
  have positive : 0 < PGSIZE := by decide
  omega

def freerange (kend : ℕ) (kmem : Kmem) (vstart vend : ℕ) : Option Kmem :=
  freerangeLoop kend kmem (PGROUNDUP vstart) vend

def kinit1 (kend : ℕ) (kmem : Kmem) : Option Kmem :=
  freerange kend { kmem with useLock := false } kend (P2V ENTRYTOP)

/-- `kinit2(P2V(4*1024*1024), P2V(PHYSTOP))`. -/
def kinit2 (kend : ℕ) (kmem : Kmem) : Option Kmem :=
  (freerange kend kmem (P2V ENTRYTOP) (P2V PHYSTOP)).map fun next => { next with useLock := true }

/-- What happens after `kinit1`; a byte is stored by the owner of its page. -/
inductive KmemLabel where
  | kalloc
  | kfree (v : ℕ)
  | store (address : ℕ) (byte : UInt8)
  | kinit2

def kmemStep (kend : ℕ) (kmem : Kmem) : KmemLabel → Option Kmem
  | .kalloc => some (kalloc kmem).1
  | .kfree v => kfree kend kmem v
  | .store address byte =>
      some { kmem with memory := Function.update kmem.memory address byte }
  | .kinit2 => if kmem.useLock then none else kinit2 kend kmem

/-- The pages that are allocated: returned by `kalloc` and not freed since. -/
def allocated : Trace Kmem KmemLabel → List ℕ
  | [] => []
  | (kmem, label) :: trace =>
      match label with
      | .kalloc => if (kalloc kmem).2 = 0 then allocated trace else (kalloc kmem).2 :: allocated trace
      | .kfree v => (allocated trace).erase v
      | _ => allocated trace

/-- Only allocated pages are freed and written. -/
def Owned (pages : List ℕ) : KmemLabel → Prop
  | .kfree v => v ∈ pages
  | .store address _ => ∃ page ∈ pages, page ≤ address ∧ address < page + PGSIZE
  | _ => True

def AllOwned : Trace Kmem KmemLabel → Prop
  | [] => True
  | (_, label) :: trace => Owned (allocated trace) label ∧ AllOwned trace

/-- A whole page between the kernel and `top`. -/
structure IsPage (kend top page : ℕ) : Prop where
  aligned : PGSIZE ∣ page
  above : PGROUNDUP kend ≤ page
  below : page + PGSIZE ≤ top

/-- The end of the memory that has been given to the allocator. -/
def memTop (kmem : Kmem) : ℕ := if kmem.useLock then P2V PHYSTOP else P2V ENTRYTOP

/-- A pointer; the null pointer ends the free list. -/
def pointer (address : ℕ) : Option ℕ := if address = 0 then none else some address

def FreeList (kmem : Kmem) (free : List ℕ) : Prop :=
  Linked (fun r => pointer (runNext kmem.memory r)) (pointer kmem.freelist) free

/-- The free list and the allocated pages are the pages up to `top`, each counted once. -/
structure KmemInv (kend top : ℕ) (kmem : Kmem) (pages free : List ℕ) : Prop where
  linked : FreeList kmem free
  nodup : (free ++ pages).Nodup
  mem : ∀ page, page ∈ free ++ pages ↔ IsPage kend top page
  positive : ∀ page ∈ free ++ pages, 0 < page
  bounded : top ≤ P2V PHYSTOP

section

variable {kend top : ℕ} {kmem next : Kmem} {pages free : List ℕ} {v address : ℕ}

theorem pages_disjoint {page other : ℕ} (aligned : PGSIZE ∣ page) (otherAligned : PGSIZE ∣ other)
    (different : page ≠ other) : page + PGSIZE ≤ other ∨ other + PGSIZE ≤ page := by
  simp only [PGSIZE] at *
  omega

theorem runNext_congr {memory other : Bytes.Memory} {page : ℕ}
    (same : ∀ i, page ≤ i → i < page + PGSIZE → other i = memory i) :
    runNext other page = runNext memory page := by
  apply Bytes.number_congr
  intro i below
  exact same (page + i) (by omega) (by simp only [PGSIZE]; omega)

theorem FreeList.congr {memory : Bytes.Memory} (linked : FreeList kmem free)
    (same : ∀ page ∈ free, ∀ i, page ≤ i → i < page + PGSIZE → memory i = kmem.memory i) :
    Linked (fun r => pointer (runNext memory r)) (pointer kmem.freelist) free := by
  apply Linked.congr linked
  intro page mem
  rw [runNext_congr (same page mem)]

theorem pointer_of_pos (positive : 0 < address) : pointer address = some address :=
  if_neg positive.ne'

theorem useLock_kalloc : (kalloc kmem).1.useLock = kmem.useLock := by
  unfold kalloc
  dsimp only
  split <;> rfl

theorem kfree_eq_some (freed : kfree kend kmem v = some next) :
    PGSIZE ∣ v ∧ kend ≤ v ∧ V2P v < PHYSTOP ∧ next.freelist = v ∧ next.useLock = kmem.useLock ∧
      (∀ i, i < v ∨ v + PGSIZE ≤ i → next.memory i = kmem.memory i) ∧
      runNext next.memory v = kmem.freelist % 2 ^ 32 := by
  unfold kfree at freed
  split at freed
  · contradiction
  · rename_i checked
    simp only [not_or, not_lt, ne_eq, not_not, ge_iff_le, not_le] at checked
    cases freed
    refine ⟨Nat.dvd_of_mod_eq_zero checked.1, checked.2.1, checked.2.2, rfl, rfl, ?_, ?_⟩
    · intro i outside
      have notWord : i < v ∨ v + 4 ≤ i := by
        simp only [PGSIZE] at outside
        omega
      exact (Bytes.store_of_not_mem notWord).trans (Bytes.store_of_not_mem outside)
    · exact Bytes.number_of_bytes fun i below => Bytes.store_of_mem below

theorem FreeList.kfree (linked : FreeList kmem free) (freed : kfree kend kmem v = some next)
    (short : kmem.freelist < 2 ^ 32) (positive : 0 < v)
    (apart : ∀ page ∈ free, page + PGSIZE ≤ v ∨ v + PGSIZE ≤ page) : FreeList next (v :: free) := by
  rcases kfree_eq_some freed with ⟨_, _, _, head, _, others, link⟩
  refine ⟨?_, ?_⟩
  · rw [head, pointer_of_pos positive]
  · dsimp only
    rw [link, Nat.mod_eq_of_lt short]
    apply linked.congr
    intro page mem i above below
    apply others
    rcases apart page mem with before | after <;> omega

namespace KmemInv

section

variable (inv : KmemInv kend top kmem pages free)

include inv

theorem isPage {page : ℕ} (mem : page ∈ free) : IsPage kend top page :=
  (inv.mem page).mp (List.mem_append_left pages mem)

theorem notMem {page : ℕ} (mem : page ∈ free) : page ∉ pages :=
  fun owned => (List.nodup_append.mp inv.nodup).2.2 page mem page owned rfl

theorem short : kmem.freelist < 2 ^ 32 := by
  by_cases empty : kmem.freelist = 0
  · rw [empty]
    decide
  · have linked := inv.linked
    rw [FreeList, pointer, if_neg empty] at linked
    rcases linked.eq_cons with ⟨rest, rfl, _⟩
    have below := (inv.isPage List.mem_cons_self).below
    have bounded := inv.bounded
    simp only [PGSIZE, P2V, PHYSTOP, KERNBASE] at below bounded
    omega

theorem grow (freed : kfree kend kmem top = some next) (above : PGROUNDUP kend ≤ top)
    (bounded : top + PGSIZE ≤ P2V PHYSTOP) :
    KmemInv kend (top + PGSIZE) next pages (top :: free) := by
  rcases kfree_eq_some freed with ⟨aligned, _, inMemory, _⟩
  have positive : 0 < top := by
    by_contra isZero
    have zero : top = 0 := by omega
    rw [zero] at inMemory
    exact absurd inMemory (by decide)
  have fresh : ∀ page ∈ free ++ pages, page + PGSIZE ≤ top :=
    fun page mem => ((inv.mem page).mp mem).below
  refine ⟨?_, ?_, ?_, ?_, bounded⟩
  · apply inv.linked.kfree freed inv.short positive
    exact fun page mem => Or.inl (fresh page (List.mem_append_left pages mem))
  · rw [List.cons_append, List.nodup_cons]
    refine ⟨?_, inv.nodup⟩
    intro mem
    have below := fresh top mem
    simp only [PGSIZE] at below
    omega
  · intro page
    rw [List.cons_append, List.mem_cons, inv.mem]
    refine ⟨?_, ?_⟩
    · rintro (rfl | isPage)
      · exact ⟨aligned, above, le_refl _⟩
      · exact ⟨isPage.aligned, isPage.above, by have := isPage.below; omega⟩
    · intro isPage
      by_cases last : page = top
      · exact Or.inl last
      · right
        have below := isPage.below
        refine ⟨isPage.aligned, isPage.above, ?_⟩
        rcases pages_disjoint isPage.aligned aligned last with before | after
        · exact before
        · simp only [PGSIZE] at after below
          omega
  · intro page mem
    rw [List.cons_append, List.mem_cons] at mem
    rcases mem with rfl | mem
    · exact positive
    · exact inv.positive page mem

theorem freerangeLoop {vend : ℕ} (freed : freerangeLoop kend kmem top vend = some next)
    (above : PGROUNDUP kend ≤ top) (aligned : PGSIZE ∣ top) (endAligned : PGSIZE ∣ vend)
    (ordered : top ≤ vend) (bounded : vend ≤ P2V PHYSTOP) :
    ∃ free', KmemInv kend vend next pages free' ∧ next.useLock = kmem.useLock := by
  fun_induction Xv6.freerangeLoop kend kmem top vend generalizing free with
  | case1 kmem top more ih =>
      rcases Option.bind_eq_some_iff.mp freed with ⟨middle, freedOne, freedRest⟩
      have grown := inv.grow freedOne above (more.trans bounded)
      have sameLock := (kfree_eq_some freedOne).2.2.2.2.1
      rcases ih middle grown freedRest (above.trans (Nat.le_add_right _ _))
        (Nat.dvd_add aligned (Nat.dvd_refl _)) more with ⟨free', finished, isLock⟩
      exact ⟨free', finished, isLock.trans sameLock⟩
  | case2 kmem top done =>
      cases freed
      have isEnd : top = vend := by
        simp only [PGSIZE] at done aligned endAligned
        omega
      subst isEnd
      exact ⟨free, inv, rfl⟩

theorem kalloc (found : (kalloc kmem).2 ≠ 0) : ∃ rest, free = (Xv6.kalloc kmem).2 :: rest ∧
      KmemInv kend top (Xv6.kalloc kmem).1 ((Xv6.kalloc kmem).2 :: pages) rest := by
  have nonzero : kmem.freelist ≠ 0 := by
    intro isZero
    simp [Xv6.kalloc, isZero] at found
  have linked := inv.linked
  rw [FreeList, pointer, if_neg nonzero] at linked
  rcases linked.eq_cons with ⟨rest, rfl, linkedRest⟩
  have result : Xv6.kalloc kmem =
      ({ kmem with freelist := runNext kmem.memory kmem.freelist }, kmem.freelist) := by
    rw [Xv6.kalloc, if_pos nonzero]
  have moved : (rest ++ kmem.freelist :: pages).Perm (kmem.freelist :: rest ++ pages) :=
    List.perm_middle
  rw [result]
  refine ⟨rest, rfl, linkedRest, ?_, ?_, ?_, inv.bounded⟩
  · exact moved.nodup_iff.mpr inv.nodup
  · intro page
    rw [moved.mem_iff, inv.mem]
  · intro page mem
    exact inv.positive page (moved.mem_iff.mp mem)

theorem kalloc_eq_zero (empty : (Xv6.kalloc kmem).2 = 0) :
    free = [] ∧ (Xv6.kalloc kmem).1 = kmem := by
  have isZero : kmem.freelist = 0 := by
    by_contra nonzero
    rw [Xv6.kalloc, if_pos nonzero] at empty
    exact nonzero empty
  have linked := inv.linked
  rw [FreeList, pointer, if_pos isZero] at linked
  exact ⟨linked.eq_nil, by simp [Xv6.kalloc, isZero]⟩

theorem kfree (owned : v ∈ pages) (freed : kfree kend kmem v = some next) :
    KmemInv kend top next (pages.erase v) (v :: free) := by
  have inAll : v ∈ free ++ pages := List.mem_append_right free owned
  have isPage := (inv.mem v).mp inAll
  have moved : (v :: free ++ pages.erase v).Perm (free ++ pages) := by
    have split : pages.Perm (v :: pages.erase v) := List.perm_cons_erase owned
    exact List.perm_middle.symm.trans (split.symm.append_left free)
  have notFree : v ∉ free := fun mem => inv.notMem mem owned
  refine ⟨?_, ?_, ?_, ?_, inv.bounded⟩
  · apply inv.linked.kfree freed inv.short (inv.positive v inAll)
    intro page mem
    apply pages_disjoint (inv.isPage mem).aligned isPage.aligned
    rintro rfl
    exact notFree mem
  · exact moved.nodup_iff.mpr inv.nodup
  · intro page
    rw [moved.mem_iff, inv.mem]
  · intro page mem
    exact inv.positive page (moved.mem_iff.mp mem)

theorem store {byte : UInt8} {page : ℕ} (owned : page ∈ pages) (above : page ≤ address)
    (below : address < page + PGSIZE) :
    KmemInv kend top { kmem with memory := Function.update kmem.memory address byte } pages free where
  linked := by
    apply inv.linked.congr
    intro other mem i otherAbove otherBelow
    have isPage := (inv.mem page).mp (List.mem_append_right free owned)
    have different : other ≠ page := by
      rintro rfl
      exact inv.notMem mem owned
    apply Function.update_of_ne
    rintro rfl
    rcases pages_disjoint (inv.isPage mem).aligned isPage.aligned different with before | after <;>
      omega
  nodup := inv.nodup
  mem := inv.mem
  positive := inv.positive
  bounded := inv.bounded

end

theorem kinit1 {memory : Bytes.Memory} (low : kend < P2V ENTRYTOP)
    (started : kinit1 kend { memory, freelist := 0, useLock := false } = some next) :
    ∃ free, KmemInv kend (memTop next) next [] free ∧ next.useLock = false := by
  have roundUp : kend ≤ PGROUNDUP kend ∧ PGROUNDUP kend ≤ P2V ENTRYTOP := by
    simp only [PGROUNDUP, PGSIZE, P2V, ENTRYTOP, KERNBASE] at low ⊢
    omega
  have start : KmemInv kend (PGROUNDUP kend) { memory, freelist := 0, useLock := false } [] [] := by
    refine ⟨rfl, List.nodup_nil, ?_, by simp, roundUp.2.trans (by decide)⟩
    intro page
    refine ⟨by simp, ?_⟩
    intro isPage
    have above := isPage.above
    have below := isPage.below
    simp only [PGSIZE] at below
    omega
  rcases start.freerangeLoop started (le_refl _) (Nat.dvd_mul_left _ _) (by decide) roundUp.2
    (by decide) with ⟨free, inv, sameLock⟩
  refine ⟨free, ?_, sameLock⟩
  rw [memTop, sameLock]
  exact inv

theorem kinit2 (inv : KmemInv kend (memTop kmem) kmem pages free) (low : kend < P2V ENTRYTOP)
    (unlocked : kmem.useLock = false) (started : kinit2 kend kmem = some next) :
    ∃ free', KmemInv kend (memTop next) next pages free' := by
  rcases Option.map_eq_some_iff.mp started with ⟨middle, freed, rfl⟩
  have isTop : memTop kmem = P2V ENTRYTOP := by simp [memTop, unlocked]
  have rounded : PGROUNDUP (P2V ENTRYTOP) = P2V ENTRYTOP := by decide
  have above : PGROUNDUP kend ≤ P2V ENTRYTOP := by
    simp only [PGROUNDUP, PGSIZE, P2V, ENTRYTOP, KERNBASE] at low ⊢
    omega
  rw [freerange, rounded] at freed
  rw [isTop] at inv
  rcases inv.freerangeLoop freed above (by decide) (by decide) (by decide) (le_refl _) with
    ⟨free', grown, _⟩
  exact ⟨free', grown.linked, grown.nodup, grown.mem, grown.positive, grown.bounded⟩

theorem step {trace : Trace Kmem KmemLabel} {label : KmemLabel}
    (inv : KmemInv kend (memTop kmem) kmem (allocated trace) free) (low : kend < P2V ENTRYTOP)
    (owned : Owned (allocated trace) label) (stepped : kmemStep kend kmem label = some next) :
    ∃ free', KmemInv kend (memTop next) next (allocated ((kmem, label) :: trace)) free' := by
  cases label with
  | kalloc =>
      simp only [kmemStep, Option.some.injEq] at stepped
      subst stepped
      have sameTop : memTop (Xv6.kalloc kmem).1 = memTop kmem := by rw [memTop, useLock_kalloc, memTop]
      simp only [allocated, sameTop]
      by_cases empty : (Xv6.kalloc kmem).2 = 0
      · rw [if_pos empty, (inv.kalloc_eq_zero empty).2]
        exact ⟨free, inv⟩
      · rw [if_neg empty]
        rcases inv.kalloc empty with ⟨rest, _, taken⟩
        exact ⟨rest, taken⟩
  | kfree v =>
      have sameTop : memTop next = memTop kmem := by
        rw [memTop, (kfree_eq_some stepped).2.2.2.2.1, memTop]
      rw [sameTop]
      exact ⟨_, inv.kfree owned stepped⟩
  | store address byte =>
      cases stepped
      rcases owned with ⟨page, mem, above, below⟩
      exact ⟨free, inv.store mem above below⟩
  | kinit2 =>
      simp only [kmemStep] at stepped
      split at stepped
      · contradiction
      · rename_i unlocked
        exact inv.kinit2 low (by simpa using unlocked) stepped

theorem of_run {memory : Bytes.Memory} {start : Kmem} {trace : Trace Kmem KmemLabel}
    (low : kend < P2V ENTRYTOP)
    (started : Xv6.kinit1 kend { memory, freelist := 0, useLock := false } = some start)
    (run : Run (kmemStep kend) start trace kmem) (owned : AllOwned trace) :
    ∃ free, KmemInv kend (memTop kmem) kmem (allocated trace) free := by
  induction run with
  | refl =>
      rcases KmemInv.kinit1 low started with ⟨free, inv, _⟩
      exact ⟨free, inv⟩
  | tail run stepped ih =>
      rcases ih owned.2 with ⟨free, inv⟩
      exact inv.step low owned.1 stepped

end KmemInv

end

/-- For every run after `kinit1`, with `kinit2` somewhere in it, in which owners free and write
allocated pages only: the free list and the allocated pages are the whole pages of the memory given
to the allocator, each of them once; `kalloc` returns null only if no page is free; and
otherwise it returns an aligned page of that memory that is not allocated. -/
theorem kalloc_pages (kend : ℕ) (low : kend < P2V ENTRYTOP) (memory : Bytes.Memory) {start kmem : Kmem}
    {trace : Trace Kmem KmemLabel}
    (started : kinit1 kend { memory, freelist := 0, useLock := false } = some start)
    (run : Run (kmemStep kend) start trace kmem) (owned : AllOwned trace) :
    ∃ free, FreeList kmem free ∧ (free ++ allocated trace).Nodup ∧
      (∀ page, page ∈ free ++ allocated trace ↔ IsPage kend (memTop kmem) page) ∧
      ((kalloc kmem).2 = 0 → free = []) ∧
      ((kalloc kmem).2 ≠ 0 → (kalloc kmem).2 ∉ allocated trace ∧
        PGSIZE ∣ (kalloc kmem).2 ∧ PGROUNDUP kend ≤ (kalloc kmem).2 ∧
        (kalloc kmem).2 < P2V PHYSTOP) := by
  rcases KmemInv.of_run low started run owned with ⟨free, inv⟩
  refine ⟨free, inv.linked, inv.nodup, inv.mem, fun empty => (inv.kalloc_eq_zero empty).1, ?_⟩
  intro found
  rcases inv.kalloc found with ⟨rest, rfl, _⟩
  have isPage := inv.isPage List.mem_cons_self
  have below := isPage.below
  have bounded := inv.bounded
  refine ⟨inv.notMem List.mem_cons_self, isPage.aligned, isPage.above, ?_⟩
  simp only [PGSIZE] at below
  omega

/-! ## No panic -/

section

variable {kend top v vend : ℕ} {kmem : Kmem} {pages free : List ℕ}

theorem kfree_isSome (kmem : Kmem) (high : KERNBASE ≤ kend) (isPage : IsPage kend top v)
    (bounded : top ≤ P2V PHYSTOP) : (kfree kend kmem v).isSome = true := by
  have aligned : v % PGSIZE = 0 := Nat.mod_eq_zero_of_dvd isPage.aligned
  have above := isPage.above
  have below := isPage.below
  have notKernel : ¬v < kend := by
    simp only [PGROUNDUP, PGSIZE] at above
    omega
  have inMemory : ¬V2P v ≥ PHYSTOP := by
    simp only [V2P, P2V, PHYSTOP, KERNBASE, PGSIZE, PGROUNDUP] at *
    omega
  simp [kfree, aligned, notKernel, inMemory]

theorem freerangeLoop_isSome (high : KERNBASE ≤ kend) (aligned : PGSIZE ∣ v)
    (above : PGROUNDUP kend ≤ v) (bounded : vend ≤ P2V PHYSTOP) :
    (freerangeLoop kend kmem v vend).isSome = true := by
  fun_induction freerangeLoop kend kmem v vend with
  | case1 kmem v more ih =>
      have freed := kfree_isSome kmem high ⟨aligned, above, more⟩ bounded
      rcases Option.isSome_iff_exists.mp freed with ⟨next, isNext⟩
      rw [isNext, Option.bind_some]
      exact ih next (Nat.dvd_add aligned (Nat.dvd_refl _)) (above.trans (Nat.le_add_right _ _))
  | case2 kmem v done => rfl

theorem kinit1_isSome (kmem : Kmem) (high : KERNBASE ≤ kend) : (kinit1 kend kmem).isSome = true :=
  freerangeLoop_isSome high (Nat.dvd_mul_left _ _) (le_refl _) (by decide)

theorem KmemInv.enabled (inv : KmemInv kend (memTop kmem) kmem pages free) (high : KERNBASE ≤ kend)
    (low : kend < P2V ENTRYTOP) {label : KmemLabel} (owned : Owned pages label)
    (once : label = .kinit2 → kmem.useLock = false) : (kmemStep kend kmem label).isSome = true := by
  cases label with
  | kalloc | store address byte => rfl
  | kfree v =>
      exact kfree_isSome kmem high ((inv.mem v).mp (List.mem_append_right free owned)) inv.bounded
  | kinit2 =>
      have above : PGROUNDUP kend ≤ PGROUNDUP (P2V ENTRYTOP) := by
        simp only [PGROUNDUP, PGSIZE, P2V, ENTRYTOP, KERNBASE] at low ⊢
        omega
      simp only [kmemStep, once rfl, Bool.false_eq_true, if_false, Xv6.kinit2, Option.isSome_map]
      exact freerangeLoop_isSome high (Nat.dvd_mul_left _ _) above (le_refl _)

end

theorem kmem_no_panic (kend : ℕ) (high : KERNBASE ≤ kend) (low : kend < P2V ENTRYTOP)
    (memory : Bytes.Memory) :
    ∃ start, kinit1 kend { memory, freelist := 0, useLock := false } = some start ∧
      ∀ {trace kmem label}, Run (kmemStep kend) start trace kmem → AllOwned trace →
        Owned (allocated trace) label → (label = .kinit2 → kmem.useLock = false) →
        (kmemStep kend kmem label).isSome = true := by
  rcases Option.isSome_iff_exists.mp
    (kinit1_isSome { memory, freelist := 0, useLock := false } high) with ⟨start, started⟩
  refine ⟨start, started, ?_⟩
  intro trace kmem label run allOwned owned once
  rcases KmemInv.of_run low started run allOwned with ⟨free, inv⟩
  exact inv.enabled high low owned once

/-- A kernel that leaves two pages below 4 MB. A page is taken, written and freed before `kinit2`, and one
is taken after it. -/
theorem kalloc_pages_of_two : ∃ (start kmem : Kmem) (page : ℕ) (trace : Trace Kmem KmemLabel),
    kinit1 (P2V ENTRYTOP - 2 * PGSIZE) { memory := fun _ => 0, freelist := 0, useLock := false } =
      some start ∧
    Run (kmemStep (P2V ENTRYTOP - 2 * PGSIZE)) start trace kmem ∧
    trace.map Prod.snd = [.kalloc, .kinit2, .kfree page, .store page 7, .kalloc] ∧
    ∃ free, FreeList kmem free ∧ (free ++ allocated trace).Nodup ∧
      ∀ page, page ∈ free ++ allocated trace ↔
        IsPage (P2V ENTRYTOP - 2 * PGSIZE) (P2V PHYSTOP) page := by
  have low : P2V ENTRYTOP - 2 * PGSIZE < P2V ENTRYTOP := by decide
  rcases kmem_no_panic (P2V ENTRYTOP - 2 * PGSIZE) (by decide) low fun _ => 0 with ⟨start, started, enabled⟩
  rcases KmemInv.kinit1 low started with ⟨free, inv, unlocked⟩
  have found : (kalloc start).2 ≠ 0 := by
    intro empty
    have isPage : IsPage (P2V ENTRYTOP - 2 * PGSIZE) (memTop start) (P2V ENTRYTOP - PGSIZE) := by
      rw [memTop, unlocked]
      exact ⟨by decide, by decide, by decide⟩
    have isFree := (inv.mem _).2 isPage
    rw [(inv.kalloc_eq_zero empty).1] at isFree
    contradiction
  have held : allocated [(start, .kalloc)] = [(kalloc start).2] := if_neg found
  have owns : Owned (allocated [(start, .kalloc)]) (.store (kalloc start).2 7) := by
    rw [held]
    exact ⟨_, List.mem_singleton_self _, le_refl _, Nat.lt_add_of_pos_right (by decide)⟩
  have begins : Run (kmemStep (P2V ENTRYTOP - 2 * PGSIZE)) start [] start := .refl
  have stored := (begins.tail (show kmemStep _ start .kalloc = some _ from rfl)).tail
    (show kmemStep _ _ (.store (kalloc start).2 7) = some _ from rfl)
  have ownsFreed : Owned (allocated [((kalloc start).1, .store (kalloc start).2 7), (start, .kalloc)])
      (.kfree (kalloc start).2) := by
    change _ ∈ allocated [(start, .kalloc)]
    rw [held]
    exact List.mem_singleton_self _
  rcases Option.isSome_iff_exists.mp (enabled stored ⟨owns, trivial, trivial⟩ ownsFreed nofun) with
    ⟨freed, isFreed⟩
  have stillUnlocked : freed.useLock = false := by
    rw [(kfree_eq_some isFreed).2.2.2.2.1, ← unlocked]
    exact useLock_kalloc
  rcases Option.isSome_iff_exists.mp (@enabled _ _ .kinit2 (stored.tail isFreed)
    ⟨ownsFreed, owns, trivial, trivial⟩ trivial fun _ => stillUnlocked) with ⟨all, isAll⟩
  have isTop : memTop (kalloc all).1 = P2V PHYSTOP := by
    simp only [kmemStep, stillUnlocked, Bool.false_eq_true, if_false] at isAll
    rcases Option.map_eq_some_iff.mp isAll with ⟨_, _, rfl⟩
    rw [memTop, useLock_kalloc]
    rfl
  have run := ((stored.tail isFreed).tail isAll).tail (show kmemStep _ all .kalloc = some _ from rfl)
  rcases kalloc_pages _ low _ started run ⟨trivial, trivial, ownsFreed, owns, trivial, trivial⟩ with
    ⟨free, linked, nodup, mem, _⟩
  rw [isTop] at mem
  exact ⟨start, _, _, _, started, run, rfl, free, linked, nodup, mem⟩

end Xv6
