import Mathlib

/-!
# Circular lists with links in both directions

Nodes are linked by a successor and a predecessor. `Circular links head list` says that the
successors lead from `head` through `list` back to `head`, and the predecessors the other way.
A node can be unlinked where it is and linked in behind the head, and a loop along the links
meets the nodes of the list in order.
-/

namespace Links

open Function

variable {Node : Type}

/-- The links lead from `first` through `list` to `last`. -/
def Path (next : Node → Node) : Node → List Node → Node → Prop
  | first, [], last => next first = last
  | first, node :: list, last => next first = node ∧ Path next node list last

namespace Path

variable {next other : Node → Node} {first last node : Node} {front back list : List Node}

theorem append : Path next first (front ++ node :: back) last ↔
    Path next first front node ∧ Path next node back last := by
  induction front generalizing first with
  | nil => rfl
  | cons head front ih => simp [Path, ih, and_assoc]

theorem congr (same : ∀ node ∈ first :: list, other node = next node)
    (path : Path next first list last) : Path other first list last := by
  induction list generalizing first with
  | nil => exact (same first List.mem_cons_self).trans path
  | cons head list ih =>
      refine ⟨(same first List.mem_cons_self).trans path.1, ?_⟩
      apply ih _ path.2
      intro node mem
      exact same node (List.mem_cons_of_mem _ mem)

variable [DecidableEq Node]

theorem redirect (target : Node) (path : Path next first list last)
    (nodup : (first :: list).Nodup) :
    Path (update next ((first :: list).getLast (List.cons_ne_nil _ _)) target) first list
      target := by
  induction list generalizing first with
  | nil => simp [Path]
  | cons head list ih =>
      rw [List.nodup_cons] at nodup
      have notLast : first ≠ (head :: list).getLast (List.cons_ne_nil _ _) := by
        intro same
        apply nodup.1
        rw [same]
        exact List.getLast_mem _
      rw [List.getLast_cons (List.cons_ne_nil _ _)]
      refine ⟨?_, ih path.2 nodup.2⟩
      rw [update_of_ne notLast]
      exact path.1

theorem skip (path : Path next first (front ++ node :: back) last)
    (nodup : (first :: (front ++ node :: back)).Nodup) :
    Path (update next ((first :: front).getLast (List.cons_ne_nil _ _)) (next node)) first
      (front ++ back) last := by
  rcases append.mp path with ⟨before, after⟩
  have parts : (first :: front).Nodup ∧ (node :: back).Nodup ∧
      List.Disjoint (first :: front) (node :: back) := by
    rw [← List.cons_append] at nodup
    exact List.nodup_append'.mp nodup
  have redirected := before.redirect (next node) parts.1
  cases back with
  | nil =>
      have isLast : next node = last := after
      rw [isLast] at redirected ⊢
      rw [List.append_nil]
      exact redirected
  | cons second back =>
      have isSecond : next node = second := after.1
      rw [isSecond] at redirected ⊢
      refine append.mpr ⟨redirected, ?_⟩
      apply congr _ after.2
      intro other mem
      apply update_of_ne
      rintro rfl
      exact parts.2.2 (List.getLast_mem _) (List.mem_cons_of_mem _ mem)

theorem push (path : Path next first list last) (notFirst : node ≠ first) (fresh : node ∉ list)
    (nodup : (first :: list).Nodup) :
    Path (update (update next node (next first)) first node) first (node :: list)
      last := by
  have away : ∀ other ∈ list,
      update (update next node (next first)) first node other = next other := by
    intro other mem
    rw [update_of_ne, update_of_ne]
    · exact ne_of_mem_of_not_mem mem fresh
    · exact ne_of_mem_of_not_mem mem (List.nodup_cons.mp nodup).1
  refine ⟨by simp, ?_⟩
  cases list with
  | nil => simpa [Path, notFirst] using path
  | cons second list =>
      refine ⟨by simpa [notFirst] using path.1, ?_⟩
      exact congr away path.2

theorem extend (path : Path next first list last) (fresh : node ∉ first :: list)
    (nodup : (first :: list).Nodup) :
    Path (update (update next node last)
      ((first :: list).getLast (List.cons_ne_nil _ _)) node) first (list ++ [node]) last := by
  have notLast : node ≠ (first :: list).getLast (List.cons_ne_nil _ _) := by
    rintro rfl
    exact fresh (List.getLast_mem _)
  refine append.mpr ⟨?_, by simp [Path, notLast]⟩
  have kept : Path (update next node last) first list last := by
    apply congr _ path
    intro other mem
    exact update_of_ne (ne_of_mem_of_not_mem mem fresh) _ _
  exact kept.redirect node nodup

end Path

end Links

/-- Successor and predecessor of each node. -/
structure Links (Node : Type) where
  next : Node → Node
  prev : Node → Node

namespace Links

open Function

variable {Node : Type} {links : Links Node} {head node : Node} {list front back : List Node}

/-- The nodes of `list`, in order, between `head` and `head`. -/
structure Circular (links : Links Node) (head : Node) (list : List Node) : Prop where
  nodup : (head :: list).Nodup
  forward : Path links.next head list head
  backward : Path links.prev head list.reverse head

/-- The same links seen from the other side. -/
def flip (links : Links Node) : Links Node where
  next := links.prev
  prev := links.next

theorem Circular.flip (circular : links.Circular head list) :
    links.flip.Circular head list.reverse := by
  refine ⟨?_, circular.backward, ?_⟩
  · rw [List.nodup_cons, List.mem_reverse, List.nodup_reverse]
    exact List.nodup_cons.mp circular.nodup
  · rw [List.reverse_reverse]
    exact circular.forward

theorem Path.first_eq_getLast {prev : Node → Node} (path : Path prev node front.reverse head) :
    prev node = (head :: front).getLast (List.cons_ne_nil _ _) := by
  rcases front.eq_nil_or_concat with rfl | ⟨start, last, rfl⟩
  · exact path
  · rw [List.concat_eq_append, List.reverse_append] at path
    rw [List.concat_eq_append, List.getLast_cons (by simp), List.getLast_append_singleton]
    exact path.1

theorem Circular.prev_eq (circular : links.Circular head (front ++ node :: back)) :
    links.prev node = (head :: front).getLast (List.cons_ne_nil _ _) := by
  have path := circular.backward
  rw [List.reverse_append, List.reverse_cons, List.append_assoc, List.singleton_append] at path
  exact (Path.append.mp path).2.first_eq_getLast

theorem Path.prev_next {next prev : Node → Node} {first last : Node}
    (forward : Path next first list last) (backward : Path prev last list.reverse first)
    (mem : node ∈ first :: list) : prev (next node) = node := by
  induction list generalizing first with
  | nil =>
      rw [List.mem_singleton.mp mem, forward]
      exact backward
  | cons second list ih =>
      rw [List.reverse_cons] at backward
      rcases Path.append.mp backward with ⟨before, isFirst⟩
      rcases List.mem_cons.mp mem with rfl | later
      · rw [forward.1]
        exact isFirst
      · exact ih forward.2 before later

theorem Circular.inverse (circular : links.Circular head list) (mem : node ∈ head :: list) :
    links.prev (links.next node) = node ∧ links.next (links.prev node) = node := by
  refine ⟨circular.forward.prev_next circular.backward mem, ?_⟩
  apply circular.flip.forward.prev_next circular.flip.backward
  simpa using mem

section Operations

variable [DecidableEq Node]

/-- `b->next->prev = b->prev; b->prev->next = b->next`. -/
def unlink (links : Links Node) (node : Node) : Links Node :=
  let prev := Function.update links.prev (links.next node) (links.prev node)
  { prev, next := Function.update links.next (prev node) (links.next node) }

/-- `b->next = head.next; b->prev = &head; head.next->prev = b; head.next = b`. -/
def pushFront (links : Links Node) (head node : Node) : Links Node :=
  let next := Function.update links.next node (links.next head)
  let prev := Function.update links.prev node head
  { prev := Function.update prev (next head) node, next := Function.update next head node }

theorem Circular.unlink (circular : links.Circular head (front ++ node :: back)) :
    (links.unlink node).Circular head (front ++ back) := by
  have swapped : links.flip.Circular head (back.reverse ++ node :: front.reverse) := by
    simpa using circular.flip
  have isNext : links.next node = (head :: back.reverse).getLast (List.cons_ne_nil _ _) :=
    swapped.prev_eq
  have apart : node ∉ head :: (front ++ back) ∧ (head :: (front ++ back)).Nodup := by
    have nodup := circular.nodup
    rw [← List.cons_append, List.nodup_middle] at nodup
    exact List.nodup_cons.mp nodup
  have notSelf : node ≠ links.next node := by
    intro same
    apply apart.1
    rw [same, isNext]
    have mem := List.getLast_mem (List.cons_ne_nil head back.reverse)
    rw [List.mem_cons, List.mem_reverse] at mem
    simp only [List.mem_cons, List.mem_append]
    tauto
  have isPrev : (links.unlink node).next =
      update links.next ((head :: front).getLast (List.cons_ne_nil _ _))
        (links.next node) := by
    simp only [Links.unlink]
    rw [update_of_ne notSelf, circular.prev_eq]
  refine ⟨apart.2, ?_, ?_⟩
  · rw [isPrev]
    exact circular.forward.skip circular.nodup
  · have skipped := swapped.forward.skip swapped.nodup
    rw [← isNext] at skipped
    rw [List.reverse_append]
    exact skipped

theorem Circular.pushFront (circular : links.Circular head list) (fresh : node ∉ head :: list) :
    (links.pushFront head node).Circular head (node :: list) := by
  rw [List.mem_cons, not_or] at fresh
  have headNext : update links.next node (links.next head) head = links.next head :=
    update_of_ne (Ne.symm fresh.1) _ _
  have isFirst : links.next head = (head :: list.reverse).getLast (List.cons_ne_nil _ _) := by
    apply Path.first_eq_getLast
    rw [List.reverse_reverse]
    exact circular.forward
  refine ⟨?_, circular.forward.push fresh.1 fresh.2 circular.nodup, ?_⟩
  · have nodup := circular.nodup
    simp only [List.nodup_cons, List.mem_cons, not_or] at nodup ⊢
    exact ⟨⟨Ne.symm fresh.1, nodup.1⟩, fresh.2, nodup.2⟩
  · have notBehind : node ∉ head :: list.reverse := by simpa using fresh
    have extended := circular.backward.extend notBehind circular.flip.nodup
    simp only [Links.pushFront, List.reverse_cons]
    rw [headNext, isFirst]
    exact extended

end Operations

/-! ## Loops along the links -/

/-- `for(b = first; b != &head; b = step(b)) if(test) return b;`, at most `fuel` turns. -/
def scan [DecidableEq Node] (step : Node → Node) (head : Node) (test : Node → Bool) :
    ℕ → Node → Option Node
  | 0, _ => none
  | fuel + 1, node =>
      if node = head then none
      else if test node then some node
      else scan step head test fuel (step node)

theorem Path.scan_eq [DecidableEq Node] {step : Node → Node} {test : Node → Bool} {first : Node}
    {fuel : ℕ} (path : Path step first list head) (notMem : head ∉ list)
    (enough : list.length < fuel) : scan step head test fuel (step first) = list.find? test := by
  induction list generalizing first fuel with
  | nil =>
      cases fuel with
      | zero => simp at enough
      | succ fuel =>
          have isHead : step first = head := path
          simp [scan, isHead]
  | cons second list ih =>
      cases fuel with
      | zero => simp at enough
      | succ fuel =>
          rw [List.mem_cons, not_or] at notMem
          rw [path.1, scan, if_neg (Ne.symm notMem.1), List.find?_cons]
          cases test second with
          | true => rfl
          | false => exact ih path.2 notMem.2 (by simpa using enough)

end Links
