import Mathlib

/-!
# Sorting by exchanges

The sort that compares each position `i` with all later positions `j` and exchanges the
two members whenever the later one is larger. It leaves the list in descending order, but
it is not stable: an exchange carries the smaller member past its equals. A member stays
where it is if all members before it are at least as large and all members behind it are
at most as large, and then nobody passes it.
-/

namespace ExchangeSort

section Exchange

variable {α β : Type*} {queue : List α}

def exchange (queue : List α) (left right : ℕ) : List α :=
  match queue[left]?, queue[right]? with
  | some leftItem, some rightItem => (queue.set left rightItem).set right leftItem
  | _, _ => queue

theorem exchange_perm (queue : List α) (left right : ℕ) :
    (exchange queue left right).Perm queue := by
  unfold exchange
  split
  · rename_i leftItem rightItem leftIs rightIs
    rcases List.getElem?_eq_some_iff.mp leftIs with ⟨leftLt, rfl⟩
    rcases List.getElem?_eq_some_iff.mp rightIs with ⟨rightLt, rfl⟩
    exact List.set_set_perm leftLt rightLt
  · exact List.Perm.refl _

@[simp]
theorem length_exchange (queue : List α) (left right : ℕ) :
    (exchange queue left right).length = queue.length :=
  (exchange_perm queue left right).length_eq

theorem getElem?_exchange {queue : List α} {left right index : ℕ} (leftLt : left < queue.length)
    (rightLt : right < queue.length) :
    (exchange queue left right)[index]? =
      if index = right then queue[left]? else if index = left then queue[right]?
      else queue[index]? := by
  have leftIs := List.getElem?_eq_getElem leftLt
  have rightIs := List.getElem?_eq_getElem rightLt
  simp only [exchange, leftIs, rightIs, List.getElem?_set]
  by_cases atRight : right = index
  · subst atRight
    simp [rightLt]
  · by_cases atLeft : left = index
    · subst atLeft
      simp [atRight, Ne.symm atRight, leftLt]
    · simp [atRight, atLeft, Ne.symm atRight, Ne.symm atLeft]

theorem map_exchange (key : α → β) (queue : List α) (left right : ℕ) :
    (exchange queue left right).map key = exchange (queue.map key) left right := by
  simp only [exchange, List.getElem?_map]
  cases queue[left]? with
  | none => rfl
  | some leftItem =>
      cases queue[right]? with
      | none => rfl
      | some rightItem => simp [List.map_set]

theorem exists_source {left right d index : ℕ} {item : α} (before : left < right)
    (rightLt : right < queue.length) (apart : d < left ∨ right < d)
    (found : (exchange queue left right)[index]? = some item) :
    ∃ source, queue[source]? = some item ∧ (index < d ↔ source < d) ∧ (d < index ↔ d < source) := by
  rw [getElem?_exchange (before.trans rightLt) rightLt] at found
  by_cases atRight : index = right
  · rw [if_pos atRight] at found
    exact ⟨left, found, by omega, by omega⟩
  · rw [if_neg atRight] at found
    by_cases atLeft : index = left
    · rw [if_pos atLeft] at found
      exact ⟨right, found, by omega, by omega⟩
    · rw [if_neg atLeft] at found
      exact ⟨index, found, Iff.rfl, Iff.rfl⟩

end Exchange

variable {α : Type*} [LinearOrder α] {keys : List α} {i j : ℕ}

def Descending (keys : List α) : Prop := keys.Pairwise fun earlier later => later ≤ earlier

def SortedTo (keys : List α) (i : ℕ) : Prop :=
  ∀ a b x y, a < i → a < b → keys[a]? = some x → keys[b]? = some y → y ≤ x

/-- Moreover, position `i` holds the largest member of the positions from `i` up to `j`. -/
structure Selecting (keys : List α) (i j : ℕ) : Prop where
  sortedTo : SortedTo keys i
  largest : ∀ b x y, i < b → b < j → keys[i]? = some x → keys[b]? = some y → y ≤ x

theorem descending_iff :
    Descending keys ↔ ∀ (a b : ℕ) (x y : α), a < b → keys[a]? = some x → keys[b]? = some y → y ≤ x := by
  rw [Descending, List.pairwise_iff_getElem]
  constructor
  · intro descending a b x y before xAt yAt
    rcases List.getElem?_eq_some_iff.mp xAt with ⟨aLt, rfl⟩
    rcases List.getElem?_eq_some_iff.mp yAt with ⟨bLt, rfl⟩
    exact descending a b aLt bLt before
  · intro ordered a b aLt bLt before
    exact ordered a b _ _ before (List.getElem?_eq_getElem aLt) (List.getElem?_eq_getElem bLt)

theorem sortedTo_zero : SortedTo keys 0 := by
  intro a b x y impossible
  exact absurd impossible (Nat.not_lt_zero a)

theorem SortedTo.select (sorted : SortedTo keys i) : Selecting keys i (i + 1) where
  sortedTo := sorted
  largest := by
    intro b x y behind before
    omega

theorem Selecting.keep {left right : α} (selecting : Selecting keys i j)
    (leftAt : keys[i]? = some left) (rightAt : keys[j]? = some right) (inOrder : right ≤ left) :
    Selecting keys i (j + 1) where
  sortedTo := selecting.sortedTo
  largest := by
    intro b x y behind before xAt yAt
    by_cases atRight : b = j
    · subst atRight
      rw [leftAt, Option.some.injEq] at xAt
      rw [rightAt, Option.some.injEq] at yAt
      subst xAt yAt
      exact inOrder
    · exact selecting.largest b x y behind (by omega) xAt yAt

theorem Selecting.exchange {left right : α} (selecting : Selecting keys i j) (before : i < j)
    (leftAt : keys[i]? = some left) (rightAt : keys[j]? = some right) (ascending : left < right) :
    Selecting (exchange keys i j) i (j + 1) := by
  have iLt := (List.getElem?_eq_some_iff.mp leftAt).1
  have jLt := (List.getElem?_eq_some_iff.mp rightAt).1
  refine ⟨?_, ?_⟩
  · intro a b x y final later xAt yAt
    rw [getElem?_exchange iLt jLt, if_neg (by omega), if_neg (by omega)] at xAt
    rw [getElem?_exchange iLt jLt] at yAt
    by_cases atRight : b = j
    · rw [if_pos atRight] at yAt
      exact selecting.sortedTo a i x y final final xAt yAt
    · rw [if_neg atRight] at yAt
      by_cases atLeft : b = i
      · rw [if_pos atLeft] at yAt
        exact selecting.sortedTo a j x y final (by omega) xAt yAt
      · rw [if_neg atLeft] at yAt
        exact selecting.sortedTo a b x y final later xAt yAt
  · intro b x y behind inside xAt yAt
    rw [getElem?_exchange iLt jLt, if_neg (by omega), if_pos rfl, rightAt,
      Option.some.injEq] at xAt
    subst xAt
    rw [getElem?_exchange iLt jLt] at yAt
    by_cases atRight : b = j
    · rw [if_pos atRight, leftAt, Option.some.injEq] at yAt
      subst yAt
      exact ascending.le
    · rw [if_neg atRight, if_neg (by omega)] at yAt
      exact (selecting.largest b left y behind (by omega) leftAt yAt).trans ascending.le

theorem Selecting.done (selecting : Selecting keys i j) (all : keys.length ≤ j) :
    SortedTo keys (i + 1) := by
  intro a b x y final later xAt yAt
  have bLt := (List.getElem?_eq_some_iff.mp yAt).1
  by_cases atLeft : a = i
  · subst atLeft
    exact selecting.largest b x y later (by omega) xAt yAt
  · exact selecting.sortedTo a b x y (by omega) later xAt yAt

theorem SortedTo.descending (sorted : SortedTo keys i) (all : keys.length ≤ i + 1) :
    Descending keys := by
  rw [descending_iff]
  intro a b x y before xAt yAt
  have bLt := (List.getElem?_eq_some_iff.mp yAt).1
  exact sorted a b x y (by omega) before xAt yAt

/-- Position `i` divides the list: nothing before it is smaller, nothing behind it is larger. -/
def Divides (keys : List α) (i : ℕ) : Prop :=
  ∀ a b x y, a < b → a = i ∨ b = i → keys[a]? = some x → keys[b]? = some y → y ≤ x

theorem Descending.divides (descending : Descending keys) (i : ℕ) : Divides keys i := by
  intro a b x y before _ xAt yAt
  exact descending_iff.mp descending a b x y before xAt yAt

/-- A position that divides the list lies before or behind the two members of an exchange. -/
theorem Divides.apart {left right d : ℕ} {x y : α} (divides : Divides keys d) (before : left < right)
    (leftAt : keys[left]? = some x) (rightAt : keys[right]? = some y) (ascending : x < y) :
    d < left ∨ right < d := by
  rcases lt_trichotomy d left with behind | rfl | afterLeft
  · exact Or.inl behind
  · exact absurd (divides d right x y before (Or.inl rfl) leftAt rightAt) (not_le.mpr ascending)
  · rcases lt_trichotomy d right with between | rfl | beyond
    · have rightLt := (List.getElem?_eq_some_iff.mp rightAt).1
      have middle : keys[d]? = some keys[d] := List.getElem?_eq_getElem (between.trans rightLt)
      have atMost := divides left d x _ afterLeft (Or.inr rfl) leftAt middle
      have atLeast := divides d right _ y between (Or.inl rfl) middle rightAt
      exact absurd (atLeast.trans atMost) (not_le.mpr ascending)
    · exact absurd (divides left d x y before (Or.inr rfl) leftAt rightAt) (not_le.mpr ascending)
    · exact Or.inr beyond

theorem Divides.exchange {left right d : ℕ} {x y : α} (divides : Divides keys d)
    (before : left < right) (leftAt : keys[left]? = some x) (rightAt : keys[right]? = some y)
    (ascending : x < y) : Divides (exchange keys left right) d := by
  have apart := divides.apart before leftAt rightAt ascending
  have rightLt := (List.getElem?_eq_some_iff.mp rightAt).1
  intro a b u v earlier isD uAt vAt
  rcases exists_source before rightLt apart uAt with ⟨uSource, uFound, uBefore, uBehind⟩
  rcases exists_source before rightLt apart vAt with ⟨vSource, vFound, vBefore, vBehind⟩
  rcases isD with rfl | rfl
  · have stays : uSource = a := by omega
    exact divides uSource vSource u v (by omega) (Or.inl stays) uFound vFound
  · have stays : vSource = b := by omega
    exact divides uSource vSource u v (by omega) (Or.inr stays) uFound vFound

theorem Divides.append {d : ℕ} {item x : α} (divides : Divides keys d) (found : keys[d]? = some x)
    (smaller : item ≤ x) : Divides (keys ++ [item]) d := by
  have dLt := (List.getElem?_eq_some_iff.mp found).1
  intro a b u v earlier isD uAt vAt
  have bLt := (List.getElem?_eq_some_iff.mp vAt).1
  rw [List.length_append, List.length_singleton] at bLt
  rw [List.getElem?_append_left (by omega)] at uAt
  by_cases atEnd : b = keys.length
  · have aIsD : a = d := by omega
    subst atEnd aIsD
    simp only [List.getElem?_concat_length, Option.some.injEq] at vAt
    rw [found, Option.some.injEq] at uAt
    subst uAt vAt
    exact smaller
  · rw [List.getElem?_append_left (by omega)] at vAt
    exact divides a b u v earlier isD uAt vAt

section Ahead

variable {β : Type*} {key : β → α} {queue : List β} {first second item : β}

/-- `first` stands before `second`, at a position that divides the queue. -/
def Ahead (key : β → α) (queue : List β) (first second : β) : Prop :=
  ∃ a b, a < b ∧ queue[a]? = some first ∧ queue[b]? = some second ∧ Divides (queue.map key) a

theorem Ahead.congr {key' : β → α} (ahead : Ahead key queue first second)
    (same : ∀ member ∈ queue, key' member = key member) : Ahead key' queue first second := by
  rcases ahead with ⟨a, b, before, firstAt, secondAt, divides⟩
  refine ⟨a, b, before, firstAt, secondAt, ?_⟩
  rw [List.map_congr_left same]
  exact divides

theorem Ahead.append (ahead : Ahead key queue first second) (smaller : key item ≤ key first) :
    Ahead key (queue ++ [item]) first second := by
  rcases ahead with ⟨a, b, before, firstAt, secondAt, divides⟩
  have aLt := (List.getElem?_eq_some_iff.mp firstAt).1
  have bLt := (List.getElem?_eq_some_iff.mp secondAt).1
  refine ⟨a, b, before, ?_, ?_, ?_⟩
  · rw [List.getElem?_append_left aLt, firstAt]
  · rw [List.getElem?_append_left bLt, secondAt]
  · rw [List.map_append]
    exact divides.append (by rw [List.getElem?_map, firstAt, Option.map_some]) smaller

theorem ahead_append (descending : Descending (queue.map key)) (mem : first ∈ queue)
    (smaller : key item ≤ key first) : Ahead key (queue ++ [item]) first item := by
  rcases List.mem_iff_getElem?.mp mem with ⟨a, firstAt⟩
  have aLt := (List.getElem?_eq_some_iff.mp firstAt).1
  refine ⟨a, queue.length, aLt, ?_, by simp, ?_⟩
  · rw [List.getElem?_append_left aLt, firstAt]
  · rw [List.map_append]
    exact (descending.divides a).append (by rw [List.getElem?_map, firstAt, Option.map_some]) smaller

theorem Ahead.exchange {left right : ℕ} {leftItem rightItem : β}
    (ahead : Ahead key queue first second) (before : left < right)
    (leftAt : queue[left]? = some leftItem) (rightAt : queue[right]? = some rightItem)
    (ascending : key leftItem < key rightItem) :
    Ahead key (exchange queue left right) first second := by
  rcases ahead with ⟨a, b, earlier, firstAt, secondAt, divides⟩
  have leftLt := (List.getElem?_eq_some_iff.mp leftAt).1
  have rightLt := (List.getElem?_eq_some_iff.mp rightAt).1
  have leftKey : (queue.map key)[left]? = some (key leftItem) := by simp [leftAt]
  have rightKey : (queue.map key)[right]? = some (key rightItem) := by simp [rightAt]
  have apart := divides.apart before leftKey rightKey ascending
  have dividesNext : Divides ((ExchangeSort.exchange queue left right).map key) a := by
    rw [map_exchange]
    exact divides.exchange before leftKey rightKey ascending
  have firstNext : (ExchangeSort.exchange queue left right)[a]? = some first := by
    rw [getElem?_exchange leftLt rightLt, if_neg (by omega), if_neg (by omega), firstAt]
  -- `second` may be one of the two, but it stays behind `a`
  rcases eq_or_ne b left with rfl | notLeft
  · refine ⟨a, right, by omega, firstNext, ?_, dividesNext⟩
    rw [getElem?_exchange leftLt rightLt, if_pos rfl, secondAt]
  · rcases eq_or_ne b right with rfl | notRight
    · refine ⟨a, left, by omega, firstNext, ?_, dividesNext⟩
      rw [getElem?_exchange leftLt rightLt, if_neg (by omega), if_pos rfl, secondAt]
    · refine ⟨a, b, earlier, firstNext, ?_, dividesNext⟩
      rw [getElem?_exchange leftLt rightLt, if_neg notRight, if_neg notLeft, secondAt]

theorem Ahead.tail (ahead : Ahead key queue first second) (notHead : queue.head? ≠ some first) :
    Ahead key queue.tail first second := by
  rcases ahead with ⟨a, b, before, firstAt, secondAt, divides⟩
  rw [List.head?_eq_getElem?] at notHead
  have positive : a ≠ 0 := by
    rintro rfl
    exact notHead firstAt
  refine ⟨a - 1, b - 1, by omega, ?_, ?_, ?_⟩
  · rw [List.getElem?_tail, Nat.sub_add_cancel (by omega), firstAt]
  · rw [List.getElem?_tail, Nat.sub_add_cancel (by omega), secondAt]
  · intro i j x y earlier isA xAt yAt
    rw [List.map_tail, List.getElem?_tail] at xAt yAt
    exact divides (i + 1) (j + 1) x y (by omega) (by omega) xAt yAt

theorem Ahead.not_head (ahead : Ahead key queue first second) (nodup : queue.Nodup) :
    queue.head? ≠ some second := by
  rcases ahead with ⟨a, b, before, _, secondAt, _⟩
  intro isHead
  rw [List.head?_eq_getElem?] at isHead
  have bLt := (List.getElem?_eq_some_iff.mp secondAt).1
  have same := (List.getElem?_inj (by omega) nodup).mp (isHead.trans secondAt.symm)
  omega

end Ahead

end ExchangeSort
