import Xv6.Console.Session

/-!
# Suggestions from the history

Tab completes the line by a command of the history, and goes on to the next one that matches each time
it is pressed again.
-/

namespace Xv6.Console

open Transition

/-! ## Matches -/

theorem prefix_takeWhile_iff {α : Type*} {test : α → Bool} {front list : List α} :
    front <+: list.takeWhile test ↔ front <+: list ∧ ∀ a ∈ front, test a := by
  induction front generalizing list with
  | nil => simp
  | cons a front ih =>
      cases list with
      | nil => simp
      | cons b list =>
          cases passes : test b with
          | true =>
              simp only [List.takeWhile_cons, passes, if_true, List.cons_prefix_cons, ih,
                List.forall_mem_cons]
              constructor
              · rintro ⟨rfl, isFront, all⟩
                exact ⟨⟨rfl, isFront⟩, passes, all⟩
              · rintro ⟨⟨rfl, isFront⟩, _, all⟩
                exact ⟨rfl, isFront, all⟩
          | false =>
              simp only [List.takeWhile_cons, passes, Bool.false_eq_true, if_false, List.prefix_nil,
                reduceCtorEq, false_iff, List.cons_prefix_cons]
              rintro ⟨⟨rfl, _⟩, all⟩
              have holds := all a List.mem_cons_self
              rw [passes] at holds
              contradiction

theorem strncmpZero_iff {p q : ℕ → UInt8} {n : ℕ} (noZero : ∀ i < n, p i ≠ 0) :
    strncmpZero p q n = true ↔ ∀ i < n, p i = q i := by
  induction n generalizing p q with
  | zero => simp [strncmpZero]
  | succ n ih =>
      rw [strncmpZero, Nat.forall_lt_succ_left]
      by_cases same : p 0 = q 0
      · rw [if_pos ⟨noZero 0 (Nat.succ_pos n), same⟩, ih fun i below => noZero _ (Nat.succ_lt_succ below)]
        exact (and_iff_right same).symm
      · rw [if_neg fun both => same both.2]
        simp [same]

namespace Hist

variable {hist : Hist} {idx : Fin HIST_SIZE}

/-- The string at the beginning of `original_cmd`. -/
structure Original (hist : Hist) (base : List UInt8) : Prop where
  length : base.length = hist.originalCmdSize
  short : base.length ≤ INPUT_BUF
  noZero : 0 ∉ base
  bytes : (List.ofFn hist.originalCmd).take base.length = base

theorem Original.isMatch_iff {base : List UInt8} (original : hist.Original base) :
    hist.isMatch hist.originalCmd hist.originalCmdSize idx = true ↔ base <+: cstr (hist.cmdBuf idx) := by
  have byte : ∀ i (below : i < base.length), hist.originalCmd.byte i = base[i] := by
    intro i below
    have inside : i < INPUT_BUF := Nat.lt_of_lt_of_le below original.short
    have isByte : base[i]? = (List.ofFn hist.originalCmd)[i]? := by
      conv_lhs => rw [← original.bytes]
      exact List.getElem?_take_of_lt below
    rw [List.getElem?_eq_getElem below, List.getElem?_ofFn, dif_pos inside] at isByte
    rw [Line.byte, dif_pos inside]
    exact (Option.some.inj isByte).symm
  have nonZero : ∀ a ∈ base, (decide (a ≠ 0)) = true := by
    intro a mem
    simp only [decide_eq_true_eq]
    rintro rfl
    exact original.noZero mem
  rw [isMatch, ← original.length, strncmpZero_iff, cstr, prefix_takeWhile_iff, and_iff_left nonZero,
    List.prefix_iff_getElem]
  · constructor
    · intro same
      refine ⟨by rw [List.length_ofFn]; exact original.short, ?_⟩
      intro i below
      rw [← byte i below, same i below, Line.byte, dif_pos (Nat.lt_of_lt_of_le below original.short),
        List.getElem_ofFn]
    · rintro ⟨_, same⟩ i below
      rw [byte i below, same i below, Line.byte, dif_pos (Nat.lt_of_lt_of_le below original.short),
        List.getElem_ofFn]
  · intro i below
    rw [byte i below]
    simpa using nonZero _ (List.getElem_mem below)

/-! ## The order of suggestions -/

/-- The slots in cyclic order. -/
def around (start : ℕ) : List (Fin HIST_SIZE) := (List.range HIST_SIZE).map fun i => slot (start + i)

/-- The matching slots, from `last_used_idx` on. -/
def matching (hist : Hist) : List (Fin HIST_SIZE) :=
  (around hist.lastUsedIdx.toNat).filter (hist.isMatch hist.originalCmd hist.originalCmdSize)

theorem mem_around (start : ℕ) (idx : Fin HIST_SIZE) : idx ∈ around start := by
  refine List.mem_map.2 ⟨(idx.val + HIST_SIZE - start % HIST_SIZE) % HIST_SIZE,
    List.mem_range.2 (Nat.mod_lt _ (by decide)), Fin.ext ?_⟩
  have below := idx.isLt
  simp only [slot, HIST_SIZE] at below ⊢
  omega

theorem nodup_around (start : ℕ) : (around start).Nodup := by
  apply List.Nodup.map_on _ List.nodup_range
  intro i iMem j jMem same
  have isSame : (start + i) % HIST_SIZE = (start + j) % HIST_SIZE := congrArg Fin.val same
  rw [List.mem_range] at iMem jMem
  simp only [HIST_SIZE] at *
  omega

theorem around_congr {start other : ℕ} (same : start % HIST_SIZE = other % HIST_SIZE) :
    around start = around other := by
  apply List.map_congr_left
  intro i _
  apply Fin.ext
  simp only [slot, HIST_SIZE] at same ⊢
  omega

theorem around_rotate (start n : ℕ) : (around start).rotate n = around (start + n) := by
  apply List.ext_getElem
  · simp [around]
  · intro i _ _
    rw [List.getElem_rotate]
    apply Fin.ext
    simp only [around, slot, List.getElem_map, List.getElem_range, List.length_map, List.length_range,
      HIST_SIZE]
    omega

theorem getSuggestion_eq (small : hist.lastUsedIdx.toNat + HIST_SIZE ≤ 2 ^ 32) :
    hist.getSuggestion hist.originalCmd hist.originalCmdSize = hist.matching.head? := by
  have order : (List.range HIST_SIZE).map hist.candidate = around hist.lastUsedIdx.toNat := by
    apply List.map_congr_left
    intro i mem
    have below := List.mem_range.1 mem
    apply Fin.ext
    simp only [candidate, slot, UInt32.toNat_add, UInt32.toNat_ofNat', HIST_SIZE] at below small ⊢
    omega
  rw [getSuggestion, order, matching, List.head?_filter]

theorem matching_next {rest : List (Fin HIST_SIZE)} (isMatching : hist.matching = idx :: rest)
    {next : Hist} (isNext : next =
      { hist with isSuggestionUsed := true, lastUsedIdx := UInt32.ofNat idx.val + 1 }) :
    next.matching = rest ++ [idx] := by
  rcases List.filter_eq_cons_iff.1 isMatching with ⟨front, back, isOrder, noneBefore, isMatch, isRest⟩
  have rotated : around next.lastUsedIdx.toNat = back ++ (front ++ [idx]) := by
    have isSlot : idx = slot (hist.lastUsedIdx.toNat + front.length) := by
      have isHere : (around hist.lastUsedIdx.toNat)[front.length]? = some idx := by simp [isOrder]
      rcases List.getElem?_eq_some_iff.1 isHere with ⟨_, isIdx⟩
      simpa [around] using isIdx.symm
    have isStart : around next.lastUsedIdx.toNat =
        (around hist.lastUsedIdx.toNat).rotate (front.length + 1) := by
      rw [around_rotate]
      apply around_congr
      have below := idx.isLt
      have value := congrArg Fin.val isSlot
      simp only [isNext, UInt32.toNat_add, UInt32.toNat_ofNat', UInt32.toNat_one, slot, HIST_SIZE]
        at below value ⊢
      omega
    rw [isStart, isOrder, ← List.singleton_append, ← List.append_assoc,
      ← List.length_singleton (a := idx), ← List.length_append, List.rotate_append_length_eq]
  have same : next.isMatch next.originalCmd next.originalCmdSize =
      hist.isMatch hist.originalCmd hist.originalCmdSize := by
    rw [isNext]
    rfl
  have noFront : front.filter (hist.isMatch hist.originalCmd hist.originalCmdSize) = [] :=
    List.filter_eq_nil_iff.2 noneBefore
  rw [matching, rotated, same, List.filter_append, List.filter_append, isRest, noFront, List.nil_append,
    List.filter_singleton, isMatch]
  rfl

end Hist

/-! ## Pressing Tab -/

open Hist

/-- Tab, pressed a number of times. -/
def State.tabs : ℕ → State → Option State
  | 0, s => some s
  | k + 1, s => s.suggestCmd.bind (tabs k)

section Tabs

variable {s : State} {hist : Hist} {idx : Fin HIST_SIZE}

section

variable (captured : s.capture = some hist)

include captured

theorem State.suggestCmd_of_matching {rest : List (Fin HIST_SIZE)}
    (small : hist.lastUsedIdx.toNat + HIST_SIZE ≤ 2 ^ 32) (isMatching : hist.matching = idx :: rest) :
    s.suggestCmd = some { input := s.replace (cstr (hist.cmdBuf idx))
                          hist := { hist with
                            isSuggestionUsed := true, lastUsedIdx := UInt32.ofNat idx.val + 1 } } := by
  simp [suggestCmd, captured, getSuggestion_eq small, isMatching]

theorem State.suggestCmd_of_none (small : hist.lastUsedIdx.toNat + HIST_SIZE ≤ 2 ^ 32)
    (noMatch : hist.matching = []) : s.suggestCmd = some { s with hist := hist } := by
  simp [suggestCmd, captured, getSuggestion_eq small, noMatch]

theorem State.capture_capture : { s with hist := hist }.capture = some hist := by
  cases isUsed : s.hist.isSuggestionUsed with
  | true =>
      rw [capture, if_pos isUsed] at captured
      cases captured
      rw [capture, if_pos isUsed]
  | false =>
      rw [capture, isUsed] at captured
      rcases Option.bind_eq_some_iff.1 captured with ⟨cmd, taken, stored⟩
      by_cases fits : cmd.length ≤ INPUT_BUF
      · rw [if_pos fits] at stored
        cases stored
        simp only [capture, isUsed, taken, Option.bind_eq_bind, Option.bind_some, if_pos fits,
          Bool.false_eq_true, if_false]
        congr 2
        funext i
        simp only [List.getD_eq_getElem?_getD]
        cases cmd[i.val]? <;> rfl
      · rw [if_neg fits] at stored
        cases stored

theorem tabs_of_none (small : hist.lastUsedIdx.toNat + HIST_SIZE ≤ 2 ^ 32)
    (noMatch : hist.matching = []) (k : ℕ) : ∃ t, s.tabs k = some t ∧ t.input = s.input := by
  induction k generalizing s with
  | zero => exact ⟨s, rfl, rfl⟩
  | succ k ih =>
      rw [State.tabs, State.suggestCmd_of_none captured small noMatch]
      exact ih (State.capture_capture captured)

theorem tabs_of_matching (small : hist.lastUsedIdx.toNat + HIST_SIZE ≤ 2 ^ 32) {k : ℕ}
    (isNext : hist.matching[k % hist.matching.length]? = some idx) :
    ∃ t next, s.tabs k = some t ∧ t.suggestCmd = some next ∧
      next.input = t.replace (cstr (hist.cmdBuf idx)) := by
  -- a press turns the list of matches by one place
  induction k generalizing s hist with
  | zero =>
      rcases isMatching : hist.matching with _ | ⟨first, rest⟩
      · simp [isMatching] at isNext
      · have same : first = idx := by simpa [isMatching] using isNext
        subst same
        exact ⟨s, _, rfl, State.suggestCmd_of_matching captured small isMatching, rfl⟩
  | succ k ih =>
      rcases isMatching : hist.matching with _ | ⟨first, rest⟩
      · simp [isMatching] at isNext
      · obtain ⟨after, isAfter⟩ : ∃ after, after = { hist with
          isSuggestionUsed := true, lastUsedIdx := UInt32.ofNat first.val + 1 } := ⟨_, rfl⟩
        have sameBuf : after.cmdBuf = hist.cmdBuf := by rw [isAfter]
        have turned : after.matching = hist.matching.rotate 1 := by
          rw [matching_next isMatching isAfter, isMatching, List.rotate_cons_succ, List.rotate_zero]
        rw [State.tabs, State.suggestCmd_of_matching captured small isMatching, ← isAfter, ← sameBuf]
        apply ih
        · rw [State.capture, if_pos (by rw [isAfter])]
        · have below := first.isLt
          rw [isAfter]
          simp only [UInt32.toNat_add, UInt32.toNat_ofNat', UInt32.toNat_one, HIST_SIZE] at below ⊢
          omega
        · have inside : k % hist.matching.length < hist.matching.length :=
            Nat.mod_lt _ (by simp [isMatching])
          rw [turned, List.length_rotate, List.getElem?_rotate inside, Nat.mod_add_mod]
          exact isNext

end

/-- Tab shows the matching slots one after the other, in cyclic order from `last_used_idx` on, and
begins again after the last one. The index is never more than `HIST_SIZE`, so that no addition to it wraps
around. -/
theorem tab_cycles :
    (∀ {trace : Trace Session Event} {s : Session}, Run Session.step Session.boot trace s →
      s.state.hist.lastUsedIdx.toNat ≤ HIST_SIZE) ∧
    ∀ {s : State} {hist : Hist}, s.capture = some hist →
      hist.lastUsedIdx.toNat + HIST_SIZE ≤ 2 ^ 32 →
      hist.matching.Nodup ∧ hist.matching.Sublist (around hist.lastUsedIdx.toNat) ∧
      (∀ idx, idx ∈ hist.matching ↔
        hist.isMatch hist.originalCmd hist.originalCmdSize idx = true) ∧
      (∀ base, hist.Original base → ∀ idx, idx ∈ hist.matching ↔ base <+: cstr (hist.cmdBuf idx)) ∧
      (hist.matching = [] → ∀ k, ∃ t, s.tabs k = some t ∧ t.input = s.input) ∧
      ∀ k idx, hist.matching[k % hist.matching.length]? = some idx →
        ∃ t next, s.tabs k = some t ∧ t.suggestCmd = some next ∧
          next.input = t.replace (cstr (hist.cmdBuf idx)) := by
  refine ⟨fun run => (Session.tidy_run run).used, ?_⟩
  intro s hist captured small
  have mem_iff : ∀ idx, idx ∈ hist.matching ↔
      hist.isMatch hist.originalCmd hist.originalCmdSize idx = true := by
    intro idx
    rw [matching, List.mem_filter]
    exact and_iff_right (mem_around _ idx)
  refine ⟨(nodup_around _).filter _, List.filter_sublist, mem_iff, ?_, ?_, ?_⟩
  · intro base original idx
    rw [mem_iff, original.isMatch_iff]
  · intro noMatch
    exact tabs_of_none captured small noMatch
  · intro k idx isNext
    exact tabs_of_matching captured small isNext

end Tabs

/-- A suggestion is looked up from slot 5 on, and the commands in the slots 3, 7 and 14 match. -/
def threeMatches : State :=
  { boot with
    hist :=
      { boot.hist with
        cmdBuf := fun idx => padded (if idx = 3 ∨ idx = 7 ∨ idx = 14 then [97, 98] else [98])
        isSuggestionUsed := true
        originalCmd := padded [97]
        originalCmdSize := 1
        lastUsedIdx := 5 } }

/-- The first press and the fourth one show the same slot, and the third one a slot before the start. -/
theorem tab_cycles_threeMatches : ¬∃ press ∈ [(0, 7), (1, 14), (2, 3), (3, 7)],
    ¬∃ t next, threeMatches.tabs press.1 = some t ∧ t.suggestCmd = some next ∧
      next.input = t.replace (cstr (threeMatches.hist.cmdBuf press.2)) := by
  have shows := (tab_cycles.2 (s := threeMatches) rfl (by decide)).2.2.2.2.2
  have isNext : ∀ press ∈ [(0, 7), (1, 14), (2, 3), (3, 7)],
      threeMatches.hist.matching[press.1 % threeMatches.hist.matching.length]? = some press.2 := by
    decide +kernel
  rintro ⟨press, mem, never⟩
  exact never (shows press.1 press.2 (isNext press mem))

end Xv6.Console
