import Mathlib

/-!
# grep

`grep.c` reads its input in pieces, as `read` returns them, and writes the lines that its matcher
accepts. A pattern is an optional `^`, then items, then an optional `$`; its language is that of its
items. Strings are lists of bytes without the zero at their end.
-/

namespace Xv6.Grep

/-! ## The matcher -/

/-- The loop tries the rest of the pattern, and then takes one more byte. -/
def matchstar (c : UInt8) (matchhere : List UInt8 → Bool) : List UInt8 → Bool
  | [] => matchhere []
  | t :: text => matchhere (t :: text) || (t = c || c = 46) && matchstar c matchhere text

def matchhere : List UInt8 → List UInt8 → Bool
  | [], _ => true
  | c :: 42 :: re, text => matchstar c (matchhere re) text
  | [36], text => text.isEmpty
  | _ :: _, [] => false
  | c :: re, t :: text => (c = 46 || c = t) && matchhere re text

/-- The loop of `match`, which looks at the empty string, too. -/
def matchLoop (re : List UInt8) : List UInt8 → Bool
  | [] => matchhere re []
  | t :: text => matchhere re (t :: text) || matchLoop re text

def matchRe (re text : List UInt8) : Bool :=
  match re with
  | 94 :: re => matchhere re text
  | re => matchLoop re text

/-! ## The language of a pattern -/

/-- A byte of the pattern that stands for one byte of the text. -/
def Takes (c t : UInt8) : Prop := c = 46 ∨ c = t

def single (c : UInt8) : Language UInt8 := {word | ∃ t, Takes c t ∧ word = [t]}

/-- The items of a pattern, with their stars, and whether it ends with the anchor. -/
def items : List UInt8 → List (UInt8 × Bool) × Bool
  | [] => ([], false)
  | c :: 42 :: re => ((c, true) :: (items re).1, (items re).2)
  | [36] => ([], true)
  | c :: re => ((c, false) :: (items re).1, (items re).2)

def language (list : List (UInt8 × Bool)) : Language UInt8 :=
  (list.map fun item => if item.2 then KStar.kstar (single item.1) else single item.1).prod

structure Pattern where
  anchored : Bool
  items : List (UInt8 × Bool)
  ends : Bool

def parse : List UInt8 → Pattern
  | 94 :: re => ⟨true, (items re).1, (items re).2⟩
  | re => ⟨false, (items re).1, (items re).2⟩

/-- The text goes on with a word of the language, which is its rest if the pattern is anchored. -/
def Begins (re text : List UInt8) : Prop :=
  ∃ word after, text = word ++ after ∧ word ∈ language (items re).1 ∧
    ((items re).2 = true → after = [])

theorem mem_kstar_single {c : UInt8} {word : List UInt8} :
    word ∈ KStar.kstar (single c) ↔ ∀ t ∈ word, Takes c t := by
  rw [Language.mem_kstar]
  constructor
  · rintro ⟨words, rfl, each⟩ t mem
    rcases List.mem_flatten.1 mem with ⟨one, oneMem, inOne⟩
    rcases each one oneMem with ⟨other, takes, rfl⟩
    rw [List.mem_singleton.1 inOne]
    exact takes
  · intro all
    refine ⟨word.map fun t => [t], (List.flatMap_singleton' word).symm, ?_⟩
    intro one oneMem
    rcases List.mem_map.1 oneMem with ⟨t, mem, rfl⟩
    exact ⟨t, all t mem, rfl⟩

theorem matchstar_iff {c : UInt8} {here : List UInt8 → Bool} {text : List UInt8} :
    matchstar c here text = true ↔
      ∃ front rest, text = front ++ rest ∧ (∀ t ∈ front, Takes c t) ∧ here rest = true := by
  induction text with
  | nil =>
      constructor
      · intro found
        exact ⟨[], [], rfl, by simp, found⟩
      · rintro ⟨front, rest, isText, _, found⟩
        rw [(List.append_eq_nil_iff.1 isText.symm).2] at found
        exact found
  | cons t text ih =>
      simp only [matchstar, Bool.or_eq_true, Bool.and_eq_true, decide_eq_true_eq, ih]
      constructor
      · rintro (found | ⟨takes, front, rest, rfl, all, found⟩)
        · exact ⟨[], _, rfl, by simp, found⟩
        · refine ⟨t :: front, rest, rfl, ?_, found⟩
          rw [List.forall_mem_cons]
          exact ⟨takes.symm.imp_right Eq.symm, all⟩
      · rintro ⟨front, rest, isText, all, found⟩
        rcases front with _ | ⟨first, front⟩
        · rw [isText]
          exact Or.inl found
        · cases isText
          rcases List.forall_mem_cons.1 all with ⟨takes, all⟩
          exact Or.inr ⟨takes.symm.imp_left Eq.symm, front, rest, rfl, all, found⟩

theorem begins_star {c : UInt8} {re text : List UInt8} :
    Begins (c :: 42 :: re) text ↔
      ∃ front rest, text = front ++ rest ∧ (∀ t ∈ front, Takes c t) ∧ Begins re rest := by
  simp only [Begins, items, language, List.map_cons, List.prod_cons, if_true, Language.mem_mul,
    mem_kstar_single]
  constructor
  · rintro ⟨_, after, rfl, ⟨front, all, word, mem, rfl⟩, ends⟩
    exact ⟨front, word ++ after, List.append_assoc .., all, word, after, rfl, mem, ends⟩
  · rintro ⟨front, _, rfl, all, word, after, rfl, mem, ends⟩
    exact ⟨front ++ word, after, (List.append_assoc ..).symm, ⟨front, all, word, mem, rfl⟩, ends⟩

theorem begins_single {c : UInt8} {re text : List UInt8}
    (isItems : items (c :: re) = ((c, false) :: (items re).1, (items re).2)) :
    Begins (c :: re) text ↔ ∃ t rest, text = t :: rest ∧ Takes c t ∧ Begins re rest := by
  simp only [Begins, isItems, language, List.map_cons, List.prod_cons, Bool.false_eq_true, if_false,
    Language.mem_mul]
  constructor
  · rintro ⟨_, after, rfl, ⟨_, ⟨t, takes, rfl⟩, word, mem, rfl⟩, ends⟩
    exact ⟨t, word ++ after, rfl, takes, word, after, rfl, mem, ends⟩
  · rintro ⟨t, _, rfl, takes, word, after, rfl, mem, ends⟩
    exact ⟨t :: word, after, rfl, ⟨[t], ⟨t, takes, rfl⟩, word, mem, rfl⟩, ends⟩

theorem matchhere_iff {re text : List UInt8} : matchhere re text = true ↔ Begins re text := by
  fun_induction items re generalizing text with
  | case1 => simp [matchhere, Begins, items, language]
  | case2 c re ih =>
      rw [matchhere, matchstar_iff, begins_star]
      simp only [ih]
  | case3 =>
      simp only [matchhere, Begins, items, language, List.map_nil, List.prod_nil, Language.mem_one,
        List.isEmpty_iff, forall_const]
      constructor
      · rintro rfl
        exact ⟨[], [], rfl, rfl, rfl⟩
      · rintro ⟨word, after, rfl, rfl, rfl⟩
        rfl
  | case4 c re notStar notEnd ih =>
      rw [begins_single (by rw [items] <;> assumption)]
      cases text with
      | nil =>
          rw [matchhere] <;> first | assumption | simp
      | cons t text =>
          rw [matchhere] <;> first | assumption | simp [ih, Takes]

theorem matchLoop_iff {re text : List UInt8} :
    matchLoop re text = true ↔ ∃ before rest, text = before ++ rest ∧ Begins re rest := by
  induction text with
  | nil =>
      rw [matchLoop, matchhere_iff]
      constructor
      · intro begins
        exact ⟨[], [], rfl, begins⟩
      · rintro ⟨before, rest, isText, begins⟩
        rw [(List.append_eq_nil_iff.1 isText.symm).2] at begins
        exact begins
  | cons t text ih =>
      rw [matchLoop, Bool.or_eq_true, matchhere_iff, ih]
      constructor
      · rintro (begins | ⟨before, rest, rfl, begins⟩)
        · exact ⟨[], _, rfl, begins⟩
        · exact ⟨t :: before, rest, rfl, begins⟩
      · rintro ⟨before, rest, isText, begins⟩
        rcases before with _ | ⟨first, before⟩
        · rw [isText]
          exact Or.inl begins
        · cases isText
          exact Or.inr ⟨before, rest, rfl, begins⟩

/-- The matcher finds a word of the language of the pattern where its anchors allow it. -/
theorem matchRe_iff (re text : List UInt8) :
    matchRe re text = true ↔ ∃ before word after, text = before ++ word ++ after ∧
      word ∈ language (parse re).items ∧ ((parse re).anchored = true → before = []) ∧
      ((parse re).ends = true → after = []) := by
  fun_cases parse re with
  | case1 re =>
      simp only [matchRe, matchhere_iff, Begins, forall_const]
      constructor
      · rintro ⟨word, after, rfl, mem, ends⟩
        exact ⟨[], word, after, rfl, mem, rfl, ends⟩
      · rintro ⟨_, word, after, rfl, mem, rfl, ends⟩
        exact ⟨word, after, rfl, mem, ends⟩
  | case2 =>
      have isLoop : matchRe re text = matchLoop re text := by simp [matchRe]
      simp only [isLoop, matchLoop_iff, Begins, Bool.false_eq_true, false_implies, true_and]
      constructor
      · rintro ⟨before, _, rfl, word, after, rfl, mem, ends⟩
        exact ⟨before, word, after, (List.append_assoc ..).symm, mem, ends⟩
      · rintro ⟨before, word, after, rfl, mem, ends⟩
        exact ⟨before, word ++ after, List.append_assoc .., word, after, rfl, mem, ends⟩

-- `^a.*b$`
example : matchRe [94, 97, 46, 42, 98, 36] [97, 99, 98] = true := by decide

/-! ## Lines -/

/-- `strchr`: what is before the byte in a string, and what is behind it. -/
def strchr (c : UInt8) : List UInt8 → Option (List UInt8 × List UInt8)
  | [] => none
  | t :: text =>
      if t = c then some ([], text)
      else if t = 0 then none
      else (strchr c text).map fun found => (t :: found.1, found.2)

/-- The loop over the lines in the buffer, with what it writes and where `p` is after it. Each
iteration takes a byte at least. -/
def lineLoop (pattern : List UInt8) : ℕ → List UInt8 → List UInt8 × List UInt8
  | 0, p => ([], p)
  | fuel + 1, p =>
      match strchr 10 p with
      | none => ([], p)
      | some (line, next) =>
          let (out, rest) := lineLoop pattern fuel next
          ((if matchRe pattern line then line ++ [10] else []) ++ out, rest)

/-- The output of `grep` for the pieces that `read` returns, with the `m` bytes that are in the buffer.
`read` does not return more than it is asked for. -/
def grep (pattern : List UInt8) : List UInt8 → List (List UInt8) → Option (List UInt8)
  | _, [] => some []
  | buf, piece :: pieces =>
      if piece.length = 0 then some []
      else if piece.length ≤ 1024 - buf.length - 1 then
        let (out, p) := lineLoop pattern (buf ++ piece).length (buf ++ piece)
        -- `p == buf`
        let rest := if p.length = (buf ++ piece).length then [] else p
        (grep pattern rest pieces).map (out ++ ·)
      else none

def join (lines : List (List UInt8)) : List UInt8 := (lines.map (· ++ [10])).flatten

/-- The lines that match. -/
def selected (pattern : List UInt8) (lines : List (List UInt8)) : List UInt8 :=
  join (lines.filter (matchRe pattern))

/-- A line as a string: without a newline and without a zero. -/
def IsLine (line : List UInt8) : Prop := 10 ∉ line ∧ 0 ∉ line

/-- What is in the buffer when the lines of a piece have been written: the beginning of the next line, but
nothing if the piece has no newline. -/
def carried (buf piece : List UInt8) : List UInt8 :=
  if 10 ∈ piece then (buf ++ piece).rtakeWhile (· ≠ 10) else []

/-- No piece is empty, or longer than the room in the buffer. -/
def Asked : List UInt8 → List (List UInt8) → Prop
  | _, [] => True
  | buf, piece :: pieces =>
      piece ≠ [] ∧ piece.length ≤ 1024 - buf.length - 1 ∧ Asked (carried buf piece) pieces

instance (line : List UInt8) : Decidable (IsLine line) := inferInstanceAs (Decidable (_ ∧ _))

instance decidableAsked : (buf : List UInt8) → (pieces : List (List UInt8)) → Decidable (Asked buf pieces)
  | _, [] => .isTrue trivial
  | buf, piece :: pieces =>
      have := decidableAsked (carried buf piece) pieces
      inferInstanceAs (Decidable (_ ∧ _ ∧ _))

theorem strchr_line {line next : List UInt8} (isLine : IsLine line) :
    strchr 10 (line ++ 10 :: next) = some (line, next) := by
  induction line with
  | nil => simp [strchr]
  | cons t line ih =>
      have notNewline : t ≠ 10 := by
        rintro rfl
        exact isLine.1 List.mem_cons_self
      have notZero : t ≠ 0 := by
        rintro rfl
        exact isLine.2 List.mem_cons_self
      have isRest : IsLine line :=
        ⟨fun mem => isLine.1 (List.mem_cons_of_mem _ mem), fun mem => isLine.2 (List.mem_cons_of_mem _ mem)⟩
      simp [strchr, notNewline, notZero, ih isRest]

theorem strchr_none {text : List UInt8} (noNewline : 10 ∉ text) : strchr 10 text = none := by
  induction text with
  | nil => rfl
  | cons t text ih =>
      rw [List.mem_cons, not_or] at noNewline
      simp [strchr, Ne.symm noNewline.1, ih noNewline.2]

theorem lineLoop_join {pattern rest : List UInt8} {lines : List (List UInt8)} {fuel : ℕ}
    (areLines : ∀ line ∈ lines, IsLine line) (noNewline : 10 ∉ rest) (enough : lines.length ≤ fuel) :
    lineLoop pattern fuel (join lines ++ rest) = (selected pattern lines, rest) := by
  induction lines generalizing fuel with
  | nil =>
      cases fuel with
      | zero => rfl
      | succ fuel =>
          rw [lineLoop, join, List.map_nil, List.flatten_nil, List.nil_append, strchr_none noNewline]
          rfl
  | cons line lines ih =>
      rcases List.forall_mem_cons.1 areLines with ⟨isLine, others⟩
      obtain ⟨fuel, rfl⟩ : ∃ less, fuel = less + 1 := Nat.exists_eq_succ_of_ne_zero (by grind)
      have whole : join (line :: lines) ++ rest = line ++ 10 :: (join lines ++ rest) := by simp [join]
      rw [lineLoop, whole, strchr_line isLine]
      simp only [ih others (by simpa using enough)]
      cases isSelected : matchRe pattern line <;> simp [selected, join, isSelected]

theorem exists_join (text : List UInt8) (noZero : 0 ∉ text) :
    ∃ lines rest, text = join lines ++ rest ∧ (∀ line ∈ lines, IsLine line) ∧ IsLine rest := by
  induction text with
  | nil => exact ⟨[], [], rfl, by simp, by simp [IsLine]⟩
  | cons t text ih =>
      rw [List.mem_cons, not_or] at noZero
      rcases ih noZero.2 with ⟨lines, rest, rfl, areLines, isRest⟩
      by_cases isNewline : t = 10
      · exact ⟨[] :: lines, rest, by simp [join, isNewline], by simpa [IsLine] using areLines, isRest⟩
      · cases lines with
        | nil =>
            refine ⟨[], t :: rest, rfl, by simp, ?_⟩
            simp [IsLine, Ne.symm isNewline, noZero.1, isRest.1, isRest.2]
        | cons line lines =>
            rcases List.forall_mem_cons.1 areLines with ⟨isLine, others⟩
            refine ⟨(t :: line) :: lines, rest, by simp [join], ?_, isRest⟩
            rw [List.forall_mem_cons]
            exact ⟨by simp [IsLine, Ne.symm isNewline, noZero.1, isLine.1, isLine.2], others⟩

theorem split_line {first second : List UInt8} {behind after : List UInt8} (isFirst : 10 ∉ first)
    (isSecond : 10 ∉ second) (same : first ++ 10 :: behind = second ++ 10 :: after) :
    first = second ∧ behind = after := by
  induction first generalizing second with
  | nil =>
      cases second with
      | nil => simpa using same
      | cons t second =>
          cases same
          simp at isSecond
  | cons t first ih =>
      cases second with
      | nil =>
          cases same
          simp at isFirst
      | cons u second =>
          simp only [List.mem_cons, not_or, List.cons_append, List.cons.injEq] at isFirst isSecond same
          rcases ih isFirst.2 isSecond.2 same.2 with ⟨rfl, rfl⟩
          exact ⟨by rw [same.1], rfl⟩

theorem join_append {done lines : List (List UInt8)} {behind : List UInt8}
    (areDone : ∀ line ∈ done, IsLine line) (areLines : ∀ line ∈ lines, IsLine line)
    (same : join done ++ behind = join lines) : ∃ later, lines = done ++ later ∧ behind = join later := by
  induction done generalizing lines with
  | nil => exact ⟨lines, rfl, same⟩
  | cons line done ih =>
      rcases List.forall_mem_cons.1 areDone with ⟨isLine, others⟩
      cases lines with
      | nil => simp [join] at same
      | cons first lines =>
          rcases List.forall_mem_cons.1 areLines with ⟨isFirst, rest⟩
          have cut : line ++ 10 :: (join done ++ behind) = first ++ 10 :: join lines := by
            simpa [join] using same
          rcases split_line isLine.1 isFirst.1 cut with ⟨rfl, sameRest⟩
          rcases ih others rest sameRest with ⟨later, rfl, isBehind⟩
          exact ⟨later, rfl, isBehind⟩

theorem length_le_join (lines : List (List UInt8)) : lines.length ≤ (join lines).length := by
  induction lines with
  | nil => rfl
  | cons line lines ih =>
      simp only [join, List.map_cons, List.flatten_cons, List.length_append, List.length_cons] at ih ⊢
      omega

theorem notMem_join {lines : List (List UInt8)} (areLines : ∀ line ∈ lines, IsLine line) :
    0 ∉ join lines := by
  intro mem
  rcases List.mem_flatten.1 mem with ⟨_, mapped, inLine⟩
  rcases List.mem_map.1 mapped with ⟨line, lineMem, rfl⟩
  exact (areLines line lineMem).2 (by simpa using inLine)

theorem rtakeWhile_join {lines : List (List UInt8)} {rest : List UInt8} (noNewline : 10 ∉ rest) :
    (join lines ++ rest).rtakeWhile (· ≠ 10) = rest := by
  have all : ∀ t ∈ rest.reverse, (decide (t ≠ 10)) = true := by
    intro t mem
    rw [decide_eq_true_eq]
    rintro rfl
    exact noNewline (List.mem_reverse.1 mem)
  rcases List.eq_nil_or_concat lines with rfl | ⟨before, last, rfl⟩
  · rw [List.rtakeWhile, join, List.map_nil, List.flatten_nil, List.nil_append,
      List.takeWhile_eq_self_iff.2 all, List.reverse_reverse]
  · rw [List.rtakeWhile, List.reverse_append, List.takeWhile_append_of_pos all]
    simp [join]

/-- A piece with a newline: its lines are written, and the beginning of the next one is kept. -/
theorem grep_newline {pattern buf piece : List UInt8} {pieces : List (List UInt8)}
    (noZero : 0 ∉ buf ++ piece) (newline : 10 ∈ piece)
    (room : piece.length ≤ 1024 - buf.length - 1) : ∃ done rest, buf ++ piece = join done ++ rest ∧
      (∀ line ∈ done, IsLine line) ∧ IsLine rest ∧ carried buf piece = rest ∧
      grep pattern buf (piece :: pieces) =
        (grep pattern rest pieces).map (selected pattern done ++ ·) := by
  rcases exists_join _ noZero with ⟨done, rest, isText, areDone, isRest⟩
  have some_done : join done ≠ [] := by
    intro empty
    rw [empty, List.nil_append] at isText
    exact isRest.1 (isText ▸ List.mem_append_right _ newline)
  have moved : rest.length ≠ (join done ++ rest).length := by
    simpa using some_done
  have enough : done.length ≤ (join done ++ rest).length := by
    rw [List.length_append]
    exact Nat.le_add_right_of_le (length_le_join done)
  refine ⟨done, rest, isText, areDone, isRest, ?_, ?_⟩
  · rw [carried, if_pos newline, isText, rtakeWhile_join isRest.1]
  · rw [grep, if_neg (by simpa using List.ne_nil_of_mem newline), if_pos room, isText,
      lineLoop_join areDone isRest.1 enough]
    simp only [if_neg moved]

theorem grep_append {pattern buf : List UInt8} {lines pieces : List (List UInt8)}
    (areLines : ∀ line ∈ lines, IsLine line) (isBuf : 10 ∉ buf) (asked : Asked buf pieces)
    (newlines : ∀ piece ∈ pieces, 10 ∈ piece) (split : buf ++ pieces.flatten = join lines) :
    grep pattern buf pieces = some (selected pattern lines) := by
  induction pieces generalizing buf lines with
  | nil =>
      cases lines with
      | nil => rfl
      | cons line lines =>
          have isText : buf = line ++ 10 :: join lines := by simpa [join] using split
          simp [isText] at isBuf
  | cons piece pieces ih =>
      rcases List.forall_mem_cons.1 newlines with ⟨newline, others⟩
      rw [List.flatten_cons, ← List.append_assoc] at split
      have noZero : 0 ∉ buf ++ piece := fun mem =>
        notMem_join areLines (split ▸ List.mem_append_left _ mem)
      rcases @grep_newline pattern buf piece pieces noZero newline asked.2.1 with
        ⟨done, rest, isText, areDone, isRest, isCarried, isGrep⟩
      rw [isText, List.append_assoc] at split
      rcases join_append areDone areLines split with ⟨later, rfl, isBehind⟩
      have again := asked.2.2
      rw [isCarried] at again
      rw [isGrep, ih (fun line mem => areLines line (List.mem_append_right _ mem)) isRest.1 again others
        isBehind]
      simp [selected, join]

theorem selected_nil (lines : List (List UInt8)) : selected [] lines = join lines := by
  have all : ∀ line : List UInt8, matchRe [] line = true := by
    rintro (_ | ⟨t, line⟩) <;> simp [matchRe, matchLoop, matchhere]
  rw [selected, List.filter_eq_self.2 fun line _ => all line]

/-- For the pattern that matches every line, nothing is written but what was read, and less if a piece has
been dropped. -/
theorem grep_nil_length {buf out : List UInt8} {pieces : List (List UInt8)} (isBuf : 10 ∉ buf)
    (noZero : 0 ∉ buf ++ pieces.flatten) (asked : Asked buf pieces) (found : grep [] buf pieces = some out) :
    out.length ≤ (buf ++ pieces.flatten).length ∧
      ((∃ piece ∈ pieces, 10 ∉ piece) → out.length < (buf ++ pieces.flatten).length) := by
  induction pieces generalizing buf out with
  | nil =>
      cases found
      simp
  | cons piece pieces ih =>
      rw [List.flatten_cons, ← List.append_assoc] at noZero
      by_cases newline : 10 ∈ piece
      · rcases @grep_newline [] buf piece pieces (fun mem => noZero (List.mem_append_left _ mem)) newline
          asked.2.1 with ⟨done, rest, isText, _, isRest, isCarried, isGrep⟩
        have again := asked.2.2
        rw [isCarried] at again
        rw [isGrep, selected_nil] at found
        rcases Option.map_eq_some_iff.1 found with ⟨later, isLater, rfl⟩
        rw [isText, List.append_assoc] at noZero
        have bound := ih isRest.1 (fun mem => noZero (List.mem_append_right _ mem)) again isLater
        rw [List.flatten_cons, ← List.append_assoc, isText]
        simp only [List.length_append, List.exists_mem_cons_iff, newline, not_true_eq_false, false_or]
          at bound ⊢
        exact ⟨by omega, fun dropped => by have less := bound.2 dropped; omega⟩
      · have isWhole : 10 ∉ buf ++ piece := by simp [isBuf, newline]
        have nonempty := List.length_pos_iff.2 asked.1
        have isLoop : lineLoop [] (buf ++ piece).length (buf ++ piece) = ([], buf ++ piece) :=
          @lineLoop_join [] _ [] _ (by simp) isWhole (Nat.zero_le _)
        have again := asked.2.2
        rw [carried, if_neg newline] at again
        rw [grep, if_neg nonempty.ne', if_pos asked.2.1, isLoop] at found
        simp only [if_true, List.nil_append, Option.map_id_fun', id] at found
        have bound := (ih List.not_mem_nil (fun mem => noZero (List.mem_append_right _ mem)) again found).1
        rw [List.nil_append] at bound
        simp only [List.flatten_cons, List.length_append]
        omega

/-- `grep` writes the lines that match, whatever the pattern, exactly if there is a newline in each piece. -/
theorem grep_lines_iff {lines pieces : List (List UInt8)} (areLines : ∀ line ∈ lines, IsLine line)
    (asked : Asked [] pieces) (split : pieces.flatten = join lines) :
    (∀ pattern, grep pattern [] pieces = some (selected pattern lines)) ↔
      ∀ piece ∈ pieces, 10 ∈ piece := by
  constructor
  · intro right piece mem
    by_contra dropped
    have noZero := notMem_join areLines
    rw [← split] at noZero
    have less := (grep_nil_length List.not_mem_nil noZero asked (right [])).2 ⟨piece, mem, dropped⟩
    rw [selected_nil, ← split] at less
    exact absurd less (lt_irrefl _)
  · intro newlines pattern
    exact grep_append areLines List.not_mem_nil asked newlines split

theorem grep_lines_twoPieces :
    grep [98] [] [[97, 98, 10, 98], [99, 10]] = some (selected [98] [[97, 98], [98, 99]]) :=
  (grep_lines_iff (by decide) (by decide) (by decide)).mpr (by decide) [98]

/-- A piece without a newline is dropped, and the line after it is not complete. -/
theorem piece_dropped :
    grep [97] [] [[97, 98], [99, 10]] = some [] ∧ Asked [] [[97, 98], [99, 10]] ∧
      selected [97] [[97, 98, 99]] = [97, 98, 99, 10] := by
  decide

end Xv6.Grep
