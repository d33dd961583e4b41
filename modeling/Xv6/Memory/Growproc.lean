import Xv6.Memory.Kalloc

/-!
# The size of a process and its pages

`growproc` asks `allocuvm` or `deallocuvm` for the new size and takes the result 0 for a failure.
Of the page directory only the pages of the user that are mapped matter here; `allocuvm` may run
out of memory after any number of pages.
-/

namespace Xv6

/-- The user pages that are mapped, by number. -/
abbrev PageMap := ℕ → Bool

/-- The loop over the pages from `a` up to `limit`, for at most `count` of them. -/
def setPages (value : Bool) (limit : ℕ) : ℕ → ℕ → PageMap → PageMap
  | 0, _, pages => pages
  | count + 1, a, pages =>
      if a < limit then
        setPages value limit count (a + PGSIZE) (Function.update pages (a / PGSIZE) value)
      else pages

def deallocuvm (pages : PageMap) (oldsz newsz : ℕ) : PageMap × ℕ :=
  if newsz ≥ oldsz then (pages, oldsz)
  else (setPages false oldsz oldsz (PGROUNDUP newsz) pages, newsz)

/-- `allocuvm`, with memory for `given` pages. -/
def allocuvm (given : ℕ) (pages : PageMap) (oldsz newsz : ℕ) : PageMap × ℕ :=
  if newsz ≥ KERNBASE then (pages, 0)
  else if newsz < oldsz then (pages, oldsz)
  else
    let mapped := setPages true newsz given (PGROUNDUP oldsz) pages
    if newsz ≤ PGROUNDUP oldsz + given * PGSIZE then (mapped, newsz)
    else ((deallocuvm mapped newsz oldsz).1, 0)

structure UserMemory where
  sz : ℕ
  pages : PageMap

namespace UserMemory

/-- `curproc->sz` is set unless the result is 0. -/
def resize (memory : UserMemory) (result : PageMap × ℕ) : UserMemory × ℤ :=
  if result.2 = 0 then ({ memory with pages := result.1 }, -1) else (⟨result.2, result.1⟩, 0)

def growproc (given : ℕ) (memory : UserMemory) (n : Int32) : UserMemory × ℤ :=
  let newsz := ((memory.sz + n.toInt) % 2 ^ 32).toNat
  if n.toInt > 0 then memory.resize (allocuvm given memory.pages memory.sz newsz)
  else if n.toInt < 0 then memory.resize (deallocuvm memory.pages memory.sz newsz)
  else (memory, 0)

/-- The pages below the size are mapped, and no others. -/
def Exact (memory : UserMemory) : Prop :=
  ∀ page, memory.pages page = true ↔ page * PGSIZE < memory.sz

end UserMemory

section Pages

variable {given oldsz newsz : ℕ} {pages : PageMap}

theorem setPages_eq (value : Bool) (limit count : ℕ) (a : ℕ) (pages : PageMap) (page : ℕ) :
    setPages value limit count (a * PGSIZE) pages page =
      if a ≤ page ∧ page < a + count ∧ page * PGSIZE < limit then value else pages page := by
  induction count generalizing a pages with
  | zero => exact (if_neg (by omega)).symm
  | succ count ih =>
      have next : a * PGSIZE + PGSIZE = (a + 1) * PGSIZE := by rw [Nat.add_mul, Nat.one_mul]
      have here : a * PGSIZE / PGSIZE = a := Nat.mul_div_cancel _ (by decide)
      simp only [setPages, next, here]
      simp only [PGSIZE] at ih ⊢
      by_cases same : page = a
      · subst same
        by_cases inside : page * 4096 < limit <;> simp [ih, inside]
      · by_cases inside : a * 4096 < limit
        · rw [if_pos inside, ih, Function.update_of_ne same]
          exact if_congr (by omega) rfl rfl
        · rw [if_neg inside, if_neg (by omega)]

theorem deallocuvm_of_lt (less : newsz < oldsz) (pages : PageMap) (page : ℕ) :
    (deallocuvm pages oldsz newsz).1 page = true ↔
      pages page = true ∧ ¬(newsz ≤ page * PGSIZE ∧ page * PGSIZE < oldsz) := by
  simp only [deallocuvm, if_neg (Nat.not_le.mpr less), PGROUNDUP, setPages_eq]
  simp only [PGSIZE]
  split
  · simp only [Bool.false_eq_true, false_iff]
    omega
  · refine (and_iff_left ?_).symm
    omega

/-- All pages are there, or none is left of those that were taken. -/
theorem allocuvm_cases (grows : oldsz < newsz)
    (exact : ∀ page, pages page = true ↔ page * PGSIZE < oldsz) :
    allocuvm given pages oldsz newsz = (pages, 0) ∨ newsz < KERNBASE ∧
      (allocuvm given pages oldsz newsz).2 = newsz ∧
      ∀ page, (allocuvm given pages oldsz newsz).1 page = true ↔ page * PGSIZE < newsz := by
  have mapped : ∀ page, setPages true newsz given (PGROUNDUP oldsz) pages page = true ↔
      page * PGSIZE < oldsz ∨
        page * PGSIZE < newsz ∧ page * PGSIZE < PGROUNDUP oldsz + given * PGSIZE := by
    intro page
    rw [PGROUNDUP, setPages_eq]
    simp only [PGSIZE] at exact ⊢
    split
    · simp only [true_iff]
      omega
    · rw [exact]
      omega
  unfold allocuvm
  split
  · exact Or.inl rfl
  · rw [if_neg (by omega)]
    split
    · refine Or.inr ⟨by omega, rfl, ?_⟩
      intro page
      rw [mapped]
      omega
    · left
      refine Prod.ext (funext fun page => ?_) rfl
      rw [Bool.eq_iff_iff, deallocuvm_of_lt grows, mapped, exact]
      omega

end Pages

namespace UserMemory

variable {memory : UserMemory}

/-- All that was asked for has been done, or nothing. -/
def InStep (memory : UserMemory) (n : Int32) (result : UserMemory × ℤ) : Prop :=
  result.2 = 0 ∧ (result.1.sz : ℤ) = memory.sz + n.toInt ∧ result.1.sz < KERNBASE ∧ result.1.Exact ∨
    result = (memory, -1)

theorem growproc_of_leaves (given : ℕ) {n : Int32} (below : memory.sz < KERNBASE)
    (exact : memory.Exact)
    (leaves : 0 ≤ n.toInt ∨ 0 < memory.sz + n.toInt ∨ memory.sz = 0) :
    memory.InStep n (memory.growproc given n) := by
  have least := n.le_toInt
  have most := n.toInt_lt
  unfold InStep growproc
  generalize n.toInt = change at *
  generalize isNewsz : ((memory.sz + change) % 2 ^ 32).toNat = newsz
  simp only [KERNBASE] at below
  rcases lt_trichotomy change 0 with negative | rfl | positive
  · simp only [if_neg negative.not_gt, if_pos negative]
    by_cases empty : memory.sz = 0
    · right
      have nothing : deallocuvm memory.pages memory.sz newsz = (memory.pages, 0) := by
        rw [deallocuvm, if_pos (by omega), empty]
      rw [nothing]
      rfl
    · left
      have less : newsz < memory.sz := by omega
      have isSize : (deallocuvm memory.pages memory.sz newsz).2 = newsz := by
        rw [deallocuvm, if_neg (by omega)]
      simp only [resize, isSize, if_neg (show newsz ≠ 0 by omega)]
      refine ⟨trivial, by omega, by simp only [KERNBASE]; omega, ?_⟩
      intro page
      rw [deallocuvm_of_lt less, exact page]
      simp only
      omega
  · left
    simp only [lt_irrefl, if_false, add_zero]
    exact ⟨trivial, trivial, below, exact⟩
  · simp only [if_pos positive]
    have grows : memory.sz < newsz := by omega
    rcases @allocuvm_cases given memory.sz newsz memory.pages grows exact with
      failed | ⟨inside, isSize, isExact⟩
    · right
      rw [failed]
      rfl
    · left
      simp only [resize, isSize, if_neg (show newsz ≠ 0 by omega)]
      exact ⟨trivial, by omega, inside, isExact⟩

/-- Below the top of the user space, `growproc` keeps size and pages in step exactly if it is not to
take away all there is, or more. -/
theorem growproc_in_step_iff (given : ℕ) {n : Int32} (below : memory.sz < KERNBASE)
    (exact : memory.Exact) : memory.InStep n (memory.growproc given n) ↔
      0 ≤ n.toInt ∨ 0 < memory.sz + n.toInt ∨ memory.sz = 0 := by
  refine ⟨?_, growproc_of_leaves given below exact⟩
  intro inStep
  by_contra takesAll
  have least := n.le_toInt
  simp only [KERNBASE] at below
  have isGrowproc : memory.growproc given n = memory.resize
      (deallocuvm memory.pages memory.sz ((memory.sz + n.toInt) % 2 ^ 32).toNat) := by
    rw [growproc, if_neg (by omega), if_pos (by omega)]
  rw [isGrowproc] at inStep
  by_cases all : memory.sz + n.toInt = 0
  · -- the pages are gone, and the result 0 is taken for a failure
    have failed : memory.resize (deallocuvm memory.pages memory.sz 0) =
        ({ memory with pages := (deallocuvm memory.pages memory.sz 0).1 }, -1) := by
      simp only [resize, deallocuvm, if_neg (show ¬0 ≥ memory.sz by omega), if_true]
    rw [all, Int.zero_emod, Int.toNat_zero, failed] at inStep
    rcases inStep with ⟨isZero, _⟩ | unchanged
    · contradiction
    · have samePages : (deallocuvm memory.pages memory.sz 0).1 = memory.pages :=
        congrArg (fun result : UserMemory × ℤ => result.1.pages) unchanged
      have first := (@deallocuvm_of_lt memory.sz 0 (by omega) memory.pages 0).mp
      have isFirst := exact 0
      rw [Nat.zero_mul] at first isFirst
      rw [samePages] at first
      exact (first (isFirst.mpr (by omega))).2 (by omega)
  · -- the new size is greater than the old one
    have kept : deallocuvm memory.pages memory.sz ((memory.sz + n.toInt) % 2 ^ 32).toNat =
        (memory.pages, memory.sz) := if_pos (by omega)
    rw [kept, resize, if_neg (show ¬memory.sz = 0 by omega)] at inStep
    rcases inStep with ⟨_, isSize, _⟩ | isFailure
    · simp only at isSize
      omega
    · exact absurd (congrArg Prod.snd isFailure) (show (0 : ℤ) ≠ -1 by decide)

/-- A process of one and a half pages gives one up. -/
def oneAndHalf : UserMemory where
  sz := 6144
  pages := fun page => page < 2

theorem growproc_gives_page_up : (oneAndHalf.growproc 0 (-4096)).2 = 0 ∧
    ((oneAndHalf.growproc 0 (-4096)).1.sz : ℤ) = 6144 + -4096 ∧
    (oneAndHalf.growproc 0 (-4096)).1.Exact := by
  have exact : oneAndHalf.Exact := by
    intro page
    simp only [oneAndHalf, decide_eq_true_eq, PGSIZE]
    omega
  rcases (growproc_in_step_iff 0 (by decide) exact).mpr (by decide : 0 ≤ (-4096 : Int32).toInt ∨ _) with
    kept | failed
  · exact ⟨kept.1, kept.2.1, kept.2.2.2⟩
  · exact absurd (congrArg Prod.snd failed) (by decide)

/-- To take away all pages fails when it has been done; to take away more is said to have
been done. -/
theorem growproc_takes_all :
    (oneAndHalf.growproc 0 (-6144)).2 = -1 ∧ (oneAndHalf.growproc 0 (-6144)).1.sz = 6144 ∧
      (oneAndHalf.growproc 0 (-6144)).1.pages 0 = false ∧
    (oneAndHalf.growproc 0 (-6145)).2 = 0 ∧ (oneAndHalf.growproc 0 (-6145)).1.sz = 6144 := by
  decide

end UserMemory

end Xv6
