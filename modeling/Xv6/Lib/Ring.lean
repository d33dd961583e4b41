import Xv6.Lib.ExchangeSort

/-!
# Ring buffers of optional cells

A ring of `size` cells with the index `first` of its head and the index `last` behind its
tail holds a queue: going round from `first`, the cells contain the queue in order, and
every other cell is empty. A full ring has `first = last`, like an empty one; the queue
tells them apart.
-/

namespace Ring

open ExchangeSort Function

variable {α : Type*} {size first last : ℕ} {cells : ℕ → Option α} {queue : List α}

structure Holds (size : ℕ) (cells : ℕ → Option α) (first last : ℕ) (queue : List α) : Prop where
  first_lt : first < size
  length_le : queue.length ≤ size
  last_eq : last = (first + queue.length) % size
  cell : ∀ offset, offset < size → cells ((first + offset) % size) = queue[offset]?

theorem offset_injective {left right : ℕ} (leftLt : left < size) (rightLt : right < size)
    (same : (first + left) % size = (first + right) % size) : left = right := by
  have congruent : left % size = right % size := Nat.ModEq.add_left_cancel Nat.ModEq.rfl same
  rwa [Nat.mod_eq_of_lt leftLt, Nat.mod_eq_of_lt rightLt] at congruent

theorem exists_offset {index : ℕ} (firstLt : first < size) (indexLt : index < size) :
    ∃ offset, offset < size ∧ (first + offset) % size = index := by
  by_cases behind : first ≤ index
  · refine ⟨index - first, by omega, ?_⟩
    rw [Nat.add_sub_of_le behind, Nat.mod_eq_of_lt indexLt]
  · refine ⟨size - first + index, by omega, ?_⟩
    have turn : first + (size - first + index) = index + size := by omega
    rw [turn, Nat.add_mod_right, Nat.mod_eq_of_lt indexLt]

namespace Holds

theorem empty (positive : 0 < size) : Holds size (fun _ => (none : Option α)) 0 0 [] where
  first_lt := positive
  length_le := Nat.zero_le _
  last_eq := by simp
  cell := by simp

section

variable (holds : Holds size cells first last queue)

include holds

theorem last_lt : last < size := by
  rw [holds.last_eq]
  exact Nat.mod_lt _ (Nat.zero_lt_of_lt holds.first_lt)

theorem head : cells first = queue.head? := by
  have atHead := holds.cell 0 (Nat.zero_lt_of_lt holds.first_lt)
  rw [Nat.add_zero, Nat.mod_eq_of_lt holds.first_lt] at atHead
  rw [atHead, List.head?_eq_getElem?]

theorem length_of_lt (notWrapped : first < last) : queue.length = last - first := by
  have lastIs := holds.last_eq
  have lengthLe := holds.length_le
  have firstLt := holds.first_lt
  by_cases wraps : first + queue.length < size
  · rw [Nat.mod_eq_of_lt wraps] at lastIs
    omega
  · rw [Nat.mod_eq_sub_mod (not_lt.mp wraps), Nat.mod_eq_of_lt (by omega)] at lastIs
    omega

theorem cell_behind {index : ℕ} (behindFirst : first ≤ index) (indexLt : index < size) :
    cells index = queue[index - first]? := by
  have atIndex := holds.cell (index - first) (by omega)
  rwa [Nat.add_sub_of_le behindFirst, Nat.mod_eq_of_lt indexLt] at atIndex

theorem cell_between {index : ℕ} (behindFirst : first ≤ index) (beforeLast : index < last) :
    ∃ item, cells index = some item := by
  have length := holds.length_of_lt (lt_of_le_of_lt behindFirst beforeLast)
  have inside : index - first < queue.length := by omega
  refine ⟨queue[index - first], ?_⟩
  rw [holds.cell_behind behindFirst (beforeLast.trans holds.last_lt),
    List.getElem?_eq_getElem inside]

theorem unique {other : List α} (otherHolds : Holds size cells first last other) :
    queue = other := by
  apply List.ext_getElem?
  intro offset
  by_cases inside : offset < size
  · rw [← holds.cell offset inside, ← otherHolds.cell offset inside]
  · have lengthLe := holds.length_le
    have otherLe := otherHolds.length_le
    rw [List.getElem?_eq_none (by omega), List.getElem?_eq_none (by omega)]

theorem cell_wrapped {index : ℕ} (nonempty : queue ≠ []) (wrapped : last ≤ first)
    (beforeLast : index < last) : ∃ item, cells index = some item := by
  have lastIs := holds.last_eq
  have lengthLe := holds.length_le
  have firstLt := holds.first_lt
  have positive := List.length_pos_iff.mpr nonempty
  have inside : size - first + index < queue.length := by
    by_cases wraps : first + queue.length < size
    · rw [Nat.mod_eq_of_lt wraps] at lastIs
      omega
    · rw [Nat.mod_eq_sub_mod (not_lt.mp wraps), Nat.mod_eq_of_lt (by omega)] at lastIs
      omega
  have atIndex := holds.cell (size - first + index) (by omega)
  have turn : first + (size - first + index) = index + size := by omega
  rw [turn, Nat.add_mod_right, Nat.mod_eq_of_lt (by omega)] at atIndex
  exact ⟨_, atIndex.trans (List.getElem?_eq_getElem inside)⟩

theorem enqueue {item : α} (room : queue.length < size) :
    Holds size (update cells last (some item)) first ((last + 1) % size)
      (queue ++ [item]) where
  first_lt := holds.first_lt
  length_le := by
    rw [List.length_append]
    exact room
  last_eq := by simp [holds.last_eq, Nat.add_assoc]
  cell := by
    intro offset offsetLt
    by_cases atTail : offset = queue.length
    · subst offset
      rw [← holds.last_eq]
      simp
    · have elsewhere : (first + offset) % size ≠ last := by
        rw [holds.last_eq]
        intro same
        exact atTail (offset_injective offsetLt room same)
      rw [update_of_ne elsewhere, holds.cell offset offsetLt]
      by_cases inside : offset < queue.length
      · rw [List.getElem?_append_left inside]
      · rw [List.getElem?_eq_none (by omega), List.getElem?_eq_none (by simp; omega)]

end

theorem dequeue {item : α} {rest : List α}
    (holds : Holds size cells first last (item :: rest)) :
    Holds size (update cells first none) ((first + 1) % size) last rest where
  first_lt := Nat.mod_lt _ (Nat.zero_lt_of_lt holds.first_lt)
  length_le := by
    have bound := holds.length_le
    simp only [List.length_cons] at bound
    omega
  last_eq := by
    rw [holds.last_eq, Nat.mod_add_mod, List.length_cons]
    congr 1
    omega
  cell := by
    intro offset offsetLt
    have shifted : ((first + 1) % size + offset) % size = (first + (offset + 1)) % size := by
      rw [Nat.mod_add_mod]
      congr 1
      omega
    rw [shifted]
    by_cases lastOffset : offset + 1 = size
    · -- one full turn: the cell of the old head
      have turn : (first + (offset + 1)) % size = first := by
        rw [lastOffset, Nat.add_mod_right, Nat.mod_eq_of_lt holds.first_lt]
      have bound := holds.length_le
      simp only [List.length_cons] at bound
      rw [turn, update_self, List.getElem?_eq_none (by omega)]
    · have nextLt : offset + 1 < size := by omega
      have elsewhere : (first + (offset + 1)) % size ≠ first := by
        intro same
        have atHead : (first + (offset + 1)) % size = (first + 0) % size := by
          rw [same, Nat.add_zero, Nat.mod_eq_of_lt holds.first_lt]
        have contra := offset_injective nextLt (Nat.zero_lt_of_lt nextLt) atHead
        omega
      rw [update_of_ne elsewhere, holds.cell (offset + 1) nextLt]
      simp

end Holds

theorem Holds.exchange {left right : ℕ} (holds : Holds size cells first last queue)
    (leftLt : left < queue.length) (rightLt : right < queue.length) :
    Holds size
      (update
        (update cells ((first + left) % size) (cells ((first + right) % size)))
        ((first + right) % size) (cells ((first + left) % size)))
      first last (exchange queue left right) where
  first_lt := holds.first_lt
  length_le := by simpa using holds.length_le
  last_eq := by simpa using holds.last_eq
  cell := by
    intro offset offsetLt
    have leftSize := lt_of_lt_of_le leftLt holds.length_le
    have rightSize := lt_of_lt_of_le rightLt holds.length_le
    rw [getElem?_exchange leftLt rightLt]
    by_cases atRight : offset = right
    · subst atRight
      simp [holds.cell left leftSize]
    · have awayRight : (first + offset) % size ≠ (first + right) % size := fun same =>
        atRight (offset_injective offsetLt rightSize same)
      rw [update_of_ne awayRight]
      by_cases atLeft : offset = left
      · subst atLeft
        simp [atRight, holds.cell right rightSize]
      · have awayLeft : (first + offset) % size ≠ (first + left) % size := fun same =>
          atLeft (offset_injective offsetLt leftSize same)
        rw [update_of_ne awayLeft, holds.cell offset offsetLt]
        simp [atRight, atLeft]

end Ring
