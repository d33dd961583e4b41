import Mathlib

/-!
# Counting over a table with one changed entry

A table gives each index a value; one entry changes. What that does to a sum over the entries
and to the number of entries with a property.
-/

namespace Count

variable {Index Value : Type} [Fintype Index] [DecidableEq Index]

theorem sum_update (weight : Value → ℕ) (table : Index → Value) (index : Index) (value : Value) :
    (∑ i, weight (Function.update table index value i)) + weight (table index) =
      (∑ i, weight (table i)) + weight value := by
  have others : ∑ i ∈ Finset.univ.erase index, weight (Function.update table index value i) =
      ∑ i ∈ Finset.univ.erase index, weight (table i) := by
    apply Finset.sum_congr rfl
    intro i mem
    rw [Function.update_of_ne (Finset.ne_of_mem_erase mem)]
  rw [← Finset.add_sum_erase _ _ (Finset.mem_univ index), others, Function.update_self,
    ← Finset.add_sum_erase Finset.univ (fun i => weight (table i)) (Finset.mem_univ index)]
  omega

theorem card_filter_update (good : Value → Prop) [DecidablePred good] (table : Index → Value)
    (index : Index) (value : Value) :
    (Finset.univ.filter fun i => good (Function.update table index value i)).card +
        (if good (table index) then 1 else 0) =
      (Finset.univ.filter fun i => good (table i)).card + if good value then 1 else 0 := by
  simp only [Finset.card_filter]
  exact sum_update (fun value => if good value then 1 else 0) table index value

end Count
