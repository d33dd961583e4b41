import Mathlib

/-!
# Linked lists in memory

Nodes carry the link to the next one. A list is linked in memory if following the links from its
head one meets its members in order and then the end.
-/

variable {Node : Type*} {next other : Node → Option Node} {head : Option Node} {node : Node}
  {list : List Node}

/-- The links lead from `head` through the nodes of the list, and to the end after them. -/
def Linked (next : Node → Option Node) : Option Node → List Node → Prop
  | head, [] => head = none
  | head, node :: rest => head = some node ∧ Linked next (next node) rest

namespace Linked

theorem congr (linked : Linked next head list) (same : ∀ node ∈ list, other node = next node) :
    Linked other head list := by
  induction list generalizing head with
  | nil => exact linked
  | cons node rest ih =>
      refine ⟨linked.1, ?_⟩
      rw [same node List.mem_cons_self]
      exact ih linked.2 fun later mem => same later (List.mem_cons_of_mem _ mem)

theorem head_eq (linked : Linked next head list) : head = list.head? := by
  cases list with
  | nil => exact linked
  | cons node rest => exact linked.1

theorem eq_nil (linked : Linked next none list) : list = [] := by
  cases list with
  | nil => rfl
  | cons node rest => exact absurd linked.1 (by simp)

theorem eq_cons (linked : Linked next (some node) list) :
    ∃ rest, list = node :: rest ∧ Linked next (next node) rest := by
  cases list with
  | nil => exact absurd linked (by simp [Linked])
  | cons first rest =>
      have same : node = first := by simpa using linked.1
      subst same
      exact ⟨rest, rfl, linked.2⟩

theorem concat [DecidableEq Node] {last : Node} (linked : Linked next head (list ++ [last]))
    (nodup : (list ++ [last]).Nodup) (isNew : node ∉ list ++ [last]) (ends : next node = none) :
    Linked (Function.update next last (some node)) head (list ++ [last] ++ [node]) := by
  induction list generalizing head with
  | nil =>
      have other : node ≠ last := by simpa using isNew
      refine ⟨linked.1, ?_, ?_⟩
      · rw [Function.update_self]
      · rw [Function.update_of_ne other]
        exact ends
  | cons first rest ih =>
      rw [List.cons_append, List.nodup_cons] at nodup
      have other : first ≠ last := by
        rintro rfl
        simp at nodup
      refine ⟨linked.1, ?_⟩
      rw [Function.update_of_ne other]
      exact ih linked.2 nodup.2 fun mem => isNew (List.mem_cons_of_mem _ mem)

end Linked
