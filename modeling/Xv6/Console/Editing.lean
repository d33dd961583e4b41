import Xv6.Console.Input

/-!
# The line that is being edited

It is the part of the ring from `input.w` to `input.e`. In every state that keys and readers can lead
to, it has no zero and no newline, so that `consclear` removes it as a whole and `consputs` puts another
line in its place.
-/

namespace Xv6.Console

open Function

/-! ## Strings in arrays -/

theorem mem_cstr {s : Line} {b : UInt8} (mem : b ∈ cstr s) : b ≠ 0 := by
  have holds := List.mem_takeWhile_imp mem
  simpa using holds

theorem length_cstr_le (s : Line) : (cstr s).length ≤ INPUT_BUF := by
  have shorter := (List.takeWhile_sublist (· ≠ 0) (l := List.ofFn s)).length_le
  rw [List.length_ofFn] at shorter
  exact shorter

theorem cstr_padded {bytes : List UInt8} (short : bytes.length ≤ INPUT_BUF) (noZero : 0 ∉ bytes) :
    cstr (padded bytes) = bytes := by
  have split : List.ofFn (padded bytes) = bytes ++ List.replicate (INPUT_BUF - bytes.length) 0 := by
    apply List.ext_getElem
    · simp only [List.length_ofFn, List.length_append, List.length_replicate]
      omega
    · intro i _ _
      rw [List.getElem_ofFn, List.getElem_append]
      by_cases inside : i < bytes.length <;> simp [padded, inside]
  rw [cstr, split, List.takeWhile_append_of_pos]
  · cases INPUT_BUF - bytes.length with
    | zero => simp
    | succ n => simp [List.replicate_succ]
  · intro b mem
    simp only [decide_eq_true_eq]
    rintro rfl
    exact noZero mem

namespace Input

variable {input : Input} {c b : UInt8} {s : List UInt8}

def line (input : Input) : List UInt8 :=
  (List.range input.size).map fun i => input.buf ((input.w.toNat + i) % INPUT_BUF)

@[simp]
theorem length_line : input.line.length = input.size := by
  simp [line]

theorem mem_line : b ∈ input.line ↔ ∃ i < input.size, input.buf ((input.w.toNat + i) % INPUT_BUF) = b := by
  simp [line]

theorem line_of_empty (isEmpty : input.e = input.w) : input.line = [] := by
  simp [line, size, isEmpty]

theorem size_put : (input.put c).size = (input.size + 1) % 2 ^ 32 := by
  have isE : (input.e + 1).toNat = (input.e.toNat + 1) % 2 ^ 32 := UInt32.toNat_add ..
  simp only [size, put, UInt32.toNat_sub, isE]
  omega

theorem cell_end (input : Input) : (input.w.toNat + input.size) % INPUT_BUF = input.e.toNat % INPUT_BUF := by
  have isW := input.w.toNat_lt
  simp only [size, UInt32.toNat_sub, INPUT_BUF]
  omega

theorem mem_line_put (mem : b ∈ (input.put c).line) : b = c ∨ b ∈ input.line := by
  rcases mem_line.1 mem with ⟨i, below, rfl⟩
  have isW : (input.put c).w = input.w := rfl
  rw [size_put] at below
  rw [isW]
  by_cases isLast : (input.w.toNat + i) % INPUT_BUF = input.e.toNat % INPUT_BUF
  · left
    rw [isLast]
    exact update_self ..
  · right
    have differ : i ≠ input.size := by
      rintro rfl
      exact isLast input.cell_end
    refine mem_line.2 ⟨i, by omega, ?_⟩
    exact (update_of_ne isLast ..).symm

theorem line_put (room : input.size < INPUT_BUF) : (input.put c).line = input.line ++ [c] := by
  have cell := input.cell_end
  have longer : (input.put c).size = input.size + 1 := by
    rw [size_put]
    simp only [INPUT_BUF] at room
    omega
  unfold line
  rw [longer, List.range_succ, List.map_append]
  congr 1
  · apply List.map_congr_left
    intro i mem
    have below := List.mem_range.1 mem
    apply update_of_ne
    rw [← cell]
    simp only [INPUT_BUF] at room ⊢
    simp only [Input.put]
    omega
  · have isLast : (input.put c).buf (((input.put c).w.toNat + input.size) % INPUT_BUF) = c := by
      have isW : (input.put c).w = input.w := rfl
      rw [isW, cell]
      exact update_self ..
    rw [List.map_singleton, isLast]

@[simp]
theorem consputs_r : (input.consputs s).r = input.r := by
  induction s generalizing input with
  | nil => rfl
  | cons c s ih => exact ih

@[simp]
theorem consputs_w : (input.consputs s).w = input.w := by
  induction s generalizing input with
  | nil => rfl
  | cons c s ih => exact ih

theorem line_consputs (room : input.size + s.length ≤ INPUT_BUF) :
    (input.consputs s).line = input.line ++ s := by
  induction s generalizing input with
  | nil => exact (List.append_nil _).symm
  | cons c s ih =>
      rw [List.length_cons] at room
      have put := @line_put input c (by omega)
      have longer : (input.put c).size = input.size + 1 := by
        rw [← length_line, put, List.length_append, length_line, List.length_singleton]
      have rest := @ih (input.put c) (by omega)
      rw [put, List.append_assoc, List.singleton_append] at rest
      exact rest

theorem consputs_buf {cell : ℕ} (elsewhere : ∀ j < s.length, (input.e.toNat + j) % INPUT_BUF ≠ cell) :
    (input.consputs s).buf cell = input.buf cell := by
  induction s generalizing input with
  | nil => rfl
  | cons c s ih =>
      have isE : (input.e + 1).toNat = (input.e.toNat + 1) % 2 ^ 32 := UInt32.toNat_add ..
      have rest : (input.consputs (c :: s)).buf cell = (input.put c).buf cell := by
        apply ih
        intro j below
        have differ := elsewhere (j + 1) (Nat.succ_lt_succ below)
        simp only [put, isE, INPUT_BUF] at differ ⊢
        omega
      rw [rest]
      exact update_of_ne (Ne.symm (elsewhere 0 (Nat.succ_pos _))) ..

/-! ## Clearing the line -/

/-- A line without newlines. -/
def Clean (input : Input) : Prop := ∀ b ∈ input.line, b ≠ 0 ∧ b ≠ 10

/-- The line without its last byte. -/
def shorten (input : Input) : Input := { input with e := input.e - 1 }

theorem size_shorten (notEmpty : input.e ≠ input.w) : input.size = input.shorten.size + 1 := by
  have differ : input.e.toNat ≠ input.w.toNat := fun same => notEmpty (UInt32.toNat_inj.1 same)
  have isW := input.w.toNat_lt
  have isE := input.e.toNat_lt
  have isOne : (1 : UInt32).toNat = 1 := rfl
  simp only [size, shorten, UInt32.toNat_sub, isOne]
  omega

theorem line_shorten (notEmpty : input.e ≠ input.w) :
    input.line = input.shorten.line ++ [input.buf ((input.e - 1).toNat % INPUT_BUF)] := by
  have cell : (input.w.toNat + input.shorten.size) % INPUT_BUF = (input.e - 1).toNat % INPUT_BUF :=
    input.shorten.cell_end
  unfold line
  rw [size_shorten notEmpty, List.range_succ, List.map_append, List.map_singleton, cell]
  rfl

theorem Clean.shorten (clean : input.Clean) (notEmpty : input.e ≠ input.w) : input.shorten.Clean := by
  intro b mem
  apply clean
  rw [line_shorten notEmpty]
  exact List.mem_append_left _ mem

theorem clearLoop_eq (clean : input.Clean) {n : ℕ} (enough : input.size ≤ n) :
    clearLoop n input = { input with e := input.w } := by
  have empty : ∀ {input : Input}, input.e = input.w → input = { input with e := input.w } := by
    rintro ⟨buf, r, w, e⟩ isEmpty
    cases isEmpty
    rfl
  induction n generalizing input with
  | zero =>
      have isEmpty : input.e = input.w := by
        by_contra notEmpty
        have longer := size_shorten notEmpty
        omega
      exact empty isEmpty
  | succ n ih =>
      by_cases isEmpty : input.e = input.w
      · rw [clearLoop, if_neg fun both => both.1 isEmpty]
        exact empty isEmpty
      · have longer := size_shorten isEmpty
        have isLast : input.buf ((input.e - 1).toNat % INPUT_BUF) ≠ 10 := by
          apply (clean _ _).2
          rw [line_shorten isEmpty]
          exact List.mem_append_right _ (List.mem_singleton_self _)
        rw [clearLoop, if_pos ⟨isEmpty, isLast⟩]
        have fewer : input.shorten.size ≤ n := by omega
        exact ih (clean.shorten isEmpty) fewer

theorem consclear_eq (clean : input.Clean) : input.consclear = { input with e := input.w } :=
  clearLoop_eq clean (Nat.le_refl _)

theorem slice_inside {n : ℕ} {cmd : List UInt8} (taken : input.slice n = some cmd) :
    n = 0 ∨ input.w.toNat + n ≤ INPUT_BUF := by
  by_contra outside
  rw [slice, if_neg outside] at taken
  exact absurd taken nofun

theorem slice_eq {n : ℕ} {cmd : List UInt8} (taken : input.slice n = some cmd) (within : n ≤ input.size) :
    cmd = input.line.take n := by
  rw [slice] at taken
  split at taken
  · rename_i inside
    cases taken
    rw [line, ← List.map_take, List.take_range, Nat.min_eq_left within]
    apply List.map_congr_left
    intro i mem
    have below := List.mem_range.1 mem
    rw [Nat.mod_eq_of_lt]
    omega
  · contradiction

theorem slice_line {n : ℕ} (inside : input.w.toNat + n ≤ INPUT_BUF) (within : n ≤ input.size) :
    input.slice n = some (input.line.take n) := by
  have isSome : input.slice n = some ((List.range n).map fun i => input.buf (input.w.toNat + i)) :=
    if_pos (Or.inr inside)
  rw [isSome, slice_eq isSome within]

theorem count_put : ((input.put c).e - (input.put c).w - 1).toNat = input.size := by
  have isE : (input.e + 1).toNat = (input.e.toNat + 1) % 2 ^ 32 := UInt32.toNat_add ..
  simp only [put, size, UInt32.toNat_sub, isE, UInt32.toNat_one]
  omega

end Input

/-! ## Keys -/

namespace State

variable {s t next : State} {c : Option UInt8} {cmd : List UInt8} {k : Key}

theorem pushCurrentHist_cases (pushed : s.pushCurrentHist = some t) :
    s.input.size = 1 ∧ t = s ∨ s.input.size ≠ 1 ∧ ∃ cmd, s.input.slice (s.input.e - s.input.w - 1).toNat = some cmd ∧
      cmd.length ≤ INPUT_BUF ∧ t = { s with hist := s.hist.push cmd } := by
  by_cases isShort : s.input.size = 1
  · rw [pushCurrentHist, if_pos isShort] at pushed
    exact Or.inl ⟨isShort, (Option.some.inj pushed).symm⟩
  · rw [pushCurrentHist, if_neg isShort] at pushed
    rcases Option.bind_eq_some_iff.1 pushed with ⟨cmd, taken, stored⟩
    by_cases fits : cmd.length ≤ INPUT_BUF
    · rw [if_pos fits] at stored
      exact Or.inr ⟨isShort, cmd, taken, fits, (Option.some.inj stored).symm⟩
    · rw [if_neg fits] at stored
      exact absurd stored nofun

theorem store_cases {b : UInt8} (stored : s.store b = some next) :
    b ≠ 10 ∧ next = { s with input := s.input.put b } ∨
      ∃ t, { s with input := s.input.put b }.pushCurrentHist = some t ∧
        next = { t with input := { t.input with w := t.input.e } } := by
  rw [store] at stored
  split at stored
  · rcases Option.map_eq_some_iff.1 stored with ⟨t, pushed, rfl⟩
    exact Or.inr ⟨t, pushed, rfl⟩
  · rename_i stays
    exact Or.inl ⟨fun isNewline => stays (Or.inl isNewline), (Option.some.inj stored).symm⟩

theorem charOf_ne_zero (notZero : c ≠ some 0) : charOf c ≠ 0 := by
  rw [charOf]
  split
  · decide
  · cases c with
    | none => decide
    | some b =>
        rintro rfl
        exact notZero rfl

theorem insert_cases (inserted : s.insert c = some next) : next = s ∨
    c ≠ some 0 ∧ (s.input.e - s.input.r).toNat < INPUT_BUF ∧ s.store (charOf c) = some next := by
  by_cases typed : c ≠ some 0 ∧ (s.input.e - s.input.r).toNat < INPUT_BUF
  · rw [insert, if_pos typed] at inserted
    exact Or.inr ⟨typed.1, typed.2, inserted⟩
  · rw [insert, if_neg typed] at inserted
    exact Or.inl (Option.some.inj inserted).symm

/-- What is true in every state. -/
structure Tidy (s : State) : Prop where
  behind : (s.input.w - s.input.r).toNat ≤ INPUT_BUF
  clean : s.input.Clean
  stored : ∀ idx, 10 ∉ cstr (s.hist.cmdBuf idx)
  used : s.hist.lastUsedIdx.toNat ≤ HIST_SIZE

section Replace

variable (tidy : s.Tidy) (short : cmd.length ≤ INPUT_BUF)

include tidy

theorem Tidy.replace_eq : s.replace cmd = { s.input with e := s.input.w }.consputs cmd := by
  rw [replace, Input.consclear_eq tidy.clean]

include short

theorem Tidy.line_replace : (s.replace cmd).line = cmd := by
  have isEmpty : { s.input with e := s.input.w }.line = [] := Input.line_of_empty rfl
  rw [tidy.replace_eq, Input.line_consputs, isEmpty, List.nil_append]
  rw [← Input.length_line, isEmpty, List.length_nil]
  omega

theorem Tidy.replace (noZero : 0 ∉ cmd) (noNewline : 10 ∉ cmd) (isInput : next.input = s.replace cmd)
    (sameBuf : next.hist.cmdBuf = s.hist.cmdBuf)
    (used : next.hist.lastUsedIdx.toNat ≤ HIST_SIZE) : next.Tidy where
  behind := by
    rw [isInput, tidy.replace_eq, Input.consputs_w, Input.consputs_r]
    exact tidy.behind
  clean := by
    intro b mem
    rw [isInput, tidy.line_replace short] at mem
    exact ⟨fun isZero => noZero (isZero ▸ mem), fun isNewline => noNewline (isNewline ▸ mem)⟩
  stored := by
    rw [sameBuf]
    exact tidy.stored
  used := used

end Replace

/-! ## Ctrl-R and Ctrl-N -/

theorem revLoop_eq {src : ℕ → UInt8} {fuel i j : ℕ} (enough : j ≤ i + fuel) (k : ℕ) :
    revLoop fuel i j src k = if i ≤ k ∧ k ≤ j then src (i + j - k) else src k := by
  induction fuel generalizing i j src with
  | zero =>
      rw [revLoop]
      split
      · congr 1
        omega
      · rfl
  | succ fuel ih =>
      rw [revLoop]
      by_cases more : i < j
      · -- the two ends have changed places, and the rest is reversed between them
        rw [if_pos more, ih (by omega)]
        simp only [update_apply]
        split_ifs <;> first | rfl | omega | (congr 1; omega)
      · rw [if_neg more]
        split
        · congr 1
          omega
        · rfl

theorem cstr_revstr (short : cmd.length < INPUT_BUF) (noZero : 0 ∉ cmd) :
    (cstr fun i => revstr (fun i => cmd.getD i 0) cmd.length i) = cmd.reverse := by
  have isPadded : (fun i : Fin INPUT_BUF => revstr (fun i => cmd.getD i 0) cmd.length i) =
      padded cmd.reverse := by
    funext i
    rw [revstr, revLoop_eq (by omega), padded]
    by_cases inside : i < cmd.length
    · rw [if_pos (by omega), List.getD_eq_getElem?_getD, List.getD_eq_getElem?_getD,
        List.getElem?_reverse inside]
      congr 2
      omega
    · have outside : cmd.reverse.getD i 0 = 0 := by
        apply List.getD_eq_default
        rw [List.length_reverse]
        omega
      rw [outside]
      split <;> exact List.getD_eq_default _ _ (by omega)
  rw [isPadded]
  apply cstr_padded
  · rw [List.length_reverse]
    exact short.le
  · simpa using noZero

theorem Tidy.noZero (tidy : s.Tidy) : 0 ∉ s.input.line := fun mem => (tidy.clean 0 mem).1 rfl

theorem Tidy.noNewline (tidy : s.Tidy) : 10 ∉ s.input.line := fun mem => (tidy.clean 10 mem).2 rfl

theorem Tidy.revline_eq (tidy : s.Tidy) (taken : s.input.slice s.input.size = some cmd)
    (short : cmd.length < INPUT_BUF) :
    s.revline = some { s with input := s.replace s.input.line.reverse } := by
  have isLine : cmd = s.input.line := by
    rw [Input.slice_eq taken le_rfl, ← Input.length_line, List.take_length]
  have isSize : s.input.size = cmd.length := by rw [isLine, Input.length_line]
  simp only [revline, taken, Option.bind_eq_bind, Option.bind_some, if_pos short]
  rw [isSize, cstr_revstr short (isLine ▸ tidy.noZero), isLine]
  rfl

theorem remnums_line : ((List.range s.input.size).map fun i =>
    s.input.buf ((s.input.w + UInt32.ofNat i).toNat % INPUT_BUF)) = s.input.line := by
  apply List.map_congr_left
  intro i _
  rw [UInt32.toNat_add, UInt32.toNat_ofNat', Nat.add_mod_mod, Nat.mod_mod_of_dvd]
  decide

theorem Tidy.remnums_eq (tidy : s.Tidy)
    (short : (s.input.line.filter fun c => !isDigit c).length < INPUT_BUF) :
    s.remnums = some { s with input := s.replace (s.input.line.filter fun c => !isDigit c) } := by
  rw [remnums, remnums_line, if_pos short, cstr_padded short.le]
  intro mem
  exact tidy.noZero (List.mem_filter.1 mem).1

/-! ## What a key does -/

theorem capture_same {hist : Hist} (captured : s.capture = some hist) :
    hist.cmdBuf = s.hist.cmdBuf ∧ hist.lastUsedIdx = s.hist.lastUsedIdx := by
  unfold capture at captured
  split at captured
  · rw [← Option.some.inj captured]
    exact ⟨rfl, rfl⟩
  · rcases Option.bind_eq_some_iff.1 captured with ⟨cmd, _, stored⟩
    split at stored
    · rw [← Option.some.inj stored]
      exact ⟨rfl, rfl⟩
    · contradiction

theorem capture_eq (inside : s.input.w.toNat + s.input.size ≤ INPUT_BUF)
    (notUsed : s.hist.isSuggestionUsed = false) : s.capture = some { s.hist with
      originalCmdSize := s.input.size
      originalCmd := fun i => s.input.line.getD i (s.hist.originalCmd i) } := by
  have whole : s.input.line.take s.input.size = s.input.line := by rw [← Input.length_line, List.take_length]
  have fits : s.input.line.length ≤ INPUT_BUF := by
    rw [Input.length_line]
    omega
  rw [capture, notUsed, Input.slice_line inside le_rfl, whole]
  exact if_pos fits

theorem pushCurrentHist_eq {b : UInt8} (fits : s.input.size < INPUT_BUF) (notEmpty : 0 < s.input.size)
    (inside : s.input.w.toNat + s.input.size ≤ INPUT_BUF) :
    { s with input := s.input.put b }.pushCurrentHist =
      some { input := s.input.put b, hist := s.hist.push s.input.line } := by
  have isSize : (s.input.put b).size = s.input.size + 1 := by
    rw [Input.size_put]
    simp only [INPUT_BUF] at fits
    omega
  have taken : (s.input.put b).slice s.input.size = some s.input.line := by
    rw [@Input.slice_line (s.input.put b) _ inside (by omega), Input.line_put fits, List.take_left' Input.length_line]
  rw [pushCurrentHist, if_neg (by simp only [isSize]; omega)]
  simp only [Input.count_put, taken, Option.bind_eq_bind, Option.bind_some, Input.length_line, if_pos fits.le]
  rfl

theorem suggestCmd_cases (suggested : s.suggestCmd = some next) :
    ∃ hist, s.capture = some hist ∧
      (hist.getSuggestion hist.originalCmd hist.originalCmdSize = none ∧ next = { s with hist := hist } ∨
        ∃ idx, hist.getSuggestion hist.originalCmd hist.originalCmdSize = some idx ∧
          next = { input := s.replace (cstr (hist.cmdBuf idx))
                   hist := { hist with isSuggestionUsed := true, lastUsedIdx := UInt32.ofNat idx.val + 1 } }) := by
  rcases Option.bind_eq_some_iff.1 suggested with ⟨hist, captured, shown⟩
  refine ⟨hist, captured, ?_⟩
  cases found : hist.getSuggestion hist.originalCmd hist.originalCmdSize with
  | none =>
      rw [found] at shown
      exact Or.inl ⟨rfl, (Option.some.inj shown).symm⟩
  | some idx =>
      rw [found] at shown
      exact Or.inr ⟨idx, rfl, (Option.some.inj shown).symm⟩

section Kept

variable (tidy : s.Tidy)

include tidy

theorem Tidy.shows {idx : Fin HIST_SIZE} (isInput : next.input = s.replace (cstr (s.hist.cmdBuf idx)))
    (sameBuf : next.hist.cmdBuf = s.hist.cmdBuf) (used : next.hist.lastUsedIdx.toNat ≤ HIST_SIZE) :
    next.Tidy :=
  tidy.replace (length_cstr_le _) (fun mem => mem_cstr mem rfl) (tidy.stored idx) isInput sameBuf used

/-- The line is replaced by some of its bytes. -/
theorem Tidy.edit (sub : ∀ b ∈ cmd, b ∈ s.input.line) (short : cmd.length < INPUT_BUF) :
    Tidy { s with input := s.replace cmd } :=
  tidy.replace short.le (fun mem => tidy.noZero (sub _ mem)) (fun mem => tidy.noNewline (sub _ mem))
    rfl rfl tidy.used

theorem Tidy.revline (done : s.revline = some next) : next.Tidy := by
  rcases Option.bind_eq_some_iff.1 done with ⟨cmd, taken, stored⟩
  by_cases short : cmd.length < INPUT_BUF
  · have isLength : cmd.length = s.input.size := by
      rw [Input.slice_eq taken le_rfl, List.length_take, Input.length_line, Nat.min_self]
    rw [tidy.revline_eq taken short] at done
    rw [← Option.some.inj done]
    apply tidy.edit
    · exact fun b mem => List.mem_reverse.1 mem
    · rw [List.length_reverse, Input.length_line, ← isLength]
      exact short
  · rw [if_neg short] at stored
    exact absurd stored nofun

theorem Tidy.remnums (done : s.remnums = some next) : next.Tidy := by
  by_cases short : (s.input.line.filter fun c => !isDigit c).length < INPUT_BUF
  · rw [tidy.remnums_eq short] at done
    rw [← Option.some.inj done]
    exact tidy.edit (fun b mem => (List.mem_filter.1 mem).1) short
  · rw [State.remnums, remnums_line, if_neg short] at done
    exact absurd done nofun

theorem Tidy.suggestCmd (suggested : s.suggestCmd = some next) : next.Tidy := by
  rcases suggestCmd_cases suggested with ⟨hist, captured, shown⟩
  rcases capture_same captured with ⟨sameBuf, sameIdx⟩
  rcases shown with ⟨_, rfl⟩ | ⟨idx, _, rfl⟩
  · exact ⟨tidy.behind, tidy.clean, fun idx => sameBuf ▸ tidy.stored idx, sameIdx ▸ tidy.used⟩
  · refine tidy.shows (by rw [sameBuf]) sameBuf ?_
    have below := idx.isLt
    simp only [UInt32.toNat_add, UInt32.toNat_ofNat', UInt32.toNat_one, HIST_SIZE] at below ⊢
    omega

theorem Tidy.put {b : UInt8} (notZero : b ≠ 0) (notNewline : b ≠ 10) :
    Tidy { s with input := s.input.put b } where
  behind := tidy.behind
  clean := by
    intro a mem
    rcases Input.mem_line_put mem with rfl | before
    · exact ⟨notZero, notNewline⟩
    · exact tidy.clean a before
  stored := tidy.stored
  used := tidy.used

theorem Tidy.pushed {b : UInt8} {t : State} (room : (s.input.e - s.input.r).toNat < INPUT_BUF)
    (pushed : { s with input := s.input.put b }.pushCurrentHist = some t) :
    s.input.size = 0 ∧ t = { s with input := s.input.put b } ∨
      0 < s.input.size ∧ s.input.size < INPUT_BUF ∧
        t = { input := s.input.put b, hist := s.hist.push s.input.line } := by
  have isSize := @Input.size_put s.input b
  rcases pushCurrentHist_cases pushed with ⟨isShort, same⟩ | ⟨notShort, cmd, taken, _, isPushed⟩
  · left
    refine ⟨?_, same⟩
    have small : s.input.size < 2 ^ 32 := UInt32.toNat_lt _
    simp only [isSize] at isShort
    omega
  · right
    simp only [Input.count_put] at taken
    simp only [isSize] at notShort
    have inside : s.input.size = 0 ∨ s.input.w.toNat + s.input.size ≤ INPUT_BUF :=
      @Input.slice_inside (s.input.put b) _ _ taken
    have fits : s.input.size < INPUT_BUF := by
      have behind := tidy.behind
      simp only [Input.size, UInt32.toNat_sub, INPUT_BUF] at inside room behind ⊢
      omega
    have isLine : cmd = s.input.line := by
      rw [Input.slice_eq taken, Input.line_put fits, List.take_left' Input.length_line]
      simp only [isSize, INPUT_BUF] at fits ⊢
      omega
    rw [isLine] at isPushed
    exact ⟨by omega, fits, isPushed⟩

theorem Tidy.commit {b : UInt8} {t : State} (room : (s.input.e - s.input.r).toNat < INPUT_BUF)
    (pushed : { s with input := s.input.put b }.pushCurrentHist = some t) :
    Tidy { t with input := { t.input with w := t.input.e } } := by
  have isInput : t.input = s.input.put b ∧ t.hist.lastUsedIdx.toNat ≤ HIST_SIZE ∧
      ∀ idx, 10 ∉ cstr (t.hist.cmdBuf idx) := by
    rcases tidy.pushed room pushed with ⟨_, rfl⟩ | ⟨_, fits, rfl⟩
    · exact ⟨rfl, tidy.used, tidy.stored⟩
    · refine ⟨rfl, Nat.zero_le _, fun idx => ?_⟩
      by_cases isHere : idx = s.hist.queueIdx
      · rw [isHere]
        simp only [Hist.push, update_self]
        rw [cstr_padded (Input.length_line.trans_le fits.le) tidy.noZero]
        exact tidy.noNewline
      · simp only [Hist.push, update_of_ne isHere]
        exact tidy.stored idx
  rw [isInput.1]
  constructor
  · have isE : (s.input.e + 1).toNat = (s.input.e.toNat + 1) % 2 ^ 32 := UInt32.toNat_add ..
    have isR := s.input.r.toNat_lt
    simp only [Input.put, UInt32.toNat_sub, isE, INPUT_BUF] at room ⊢
    omega
  · intro b mem
    rw [Input.line_of_empty rfl] at mem
    exact absurd mem List.not_mem_nil
  · exact isInput.2.2
  · exact isInput.2.1

theorem Tidy.insert {c : Option UInt8} (inserted : s.insert c = some next) : next.Tidy := by
  rcases insert_cases inserted with rfl | ⟨notZero, room, stored⟩
  · exact tidy
  · rcases store_cases stored with ⟨notNewline, rfl⟩ | ⟨t, pushed, rfl⟩
    · exact tidy.put (charOf_ne_zero notZero) notNewline
    · exact tidy.commit room pushed

theorem Tidy.key (keyed : s.key k = some next) : next.Tidy := by
  cases k with
  | up =>
      rw [← Option.some.inj keyed, histUp]
      split
      · exact tidy.shows rfl rfl tidy.used
      · exact tidy
  | down =>
      rw [← Option.some.inj keyed, histDown]
      split
      · exact tidy.shows rfl rfl tidy.used
      · exact tidy
  | escape => exact Tidy.insert (tidy.put (by decide) (by decide)) keyed
  | bracket =>
      exact Tidy.insert (Tidy.put (tidy.put (by decide) (by decide)) (by decide) (by decide)) keyed
  | byte c =>
      rw [State.key] at keyed
      split_ifs at keyed
      · exact Option.some.inj keyed ▸ tidy
      · rw [← Option.some.inj keyed, Input.consclear_eq tidy.clean]
        refine ⟨tidy.behind, ?_, tidy.stored, tidy.used⟩
        intro b mem
        rw [Input.line_of_empty rfl] at mem
        exact absurd mem List.not_mem_nil
      · rw [← Option.some.inj keyed, backspace]
        split
        · rename_i notEmpty
          exact ⟨tidy.behind, tidy.clean.shorten notEmpty, tidy.stored, tidy.used⟩
        · exact tidy
      · exact tidy.revline keyed
      · exact tidy.remnums keyed
      · exact tidy.suggestCmd keyed
      · exact tidy.insert keyed

end Kept

end State

end Xv6.Console
