import Xv6.Shell.Parser

/-!
# Printing command trees

A command tree is printed with parentheses around its compound operands and with white space
between the lexemes. `peek` and `gettoken` find the lexemes again.
-/

namespace Xv6.Shell

/-! ## Printing -/

inductive Lexeme where
  | word (text : List Char)
  | input
  | output
  | append
  | bar
  | amp
  | semi
  | opening
  | closing

def Lexeme.text : Lexeme → List Char
  | .word text => text
  | .input => ['<']
  | .output => ['>']
  | .append => ['>', '>']
  | .bar => ['|']
  | .amp => ['&']
  | .semi => [';']
  | .opening => ['(']
  | .closing => [')']

/-- What `gettoken` returns for a lexeme. -/
def Lexeme.kind : Lexeme → Char
  | .word _ => 'a'
  | .append => '+'
  | .input => '<'
  | .output => '>'
  | .bar => '|'
  | .amp => '&'
  | .semi => ';'
  | .opening => '('
  | .closing => ')'

/-- The symbol that a lexeme begins with. -/
def Lexeme.symbol : Lexeme → Option Char
  | .word _ => none
  | .append => some '>'
  | lexeme => some lexeme.kind

/-- A word is a non-empty run of characters outside white space and symbols. -/
def IsWord (text : List Char) : Prop := text ≠ [] ∧ ∀ c ∈ text, inWord c = true

def Lexeme.Ok : Lexeme → Prop
  | .word text => IsWord text
  | _ => True

/-- The command trees that can be written down. -/
def Cmd.WellFormed : Cmd (List Char) → Prop
  | .exec argv => argv.length < MAXARGS ∧ ∀ arg ∈ argv, IsWord arg
  | .redir cmd file _ => cmd.WellFormed ∧ IsWord file
  | .pipe left right => left.WellFormed ∧ right.WellFormed
  | .list left right => left.WellFormed ∧ right.WellFormed
  | .back cmd => cmd.WellFormed

/-- Redirections are printed one after the other. -/
inductive PrintsRedirs : List (List Char × Direction) → List Lexeme → Prop
  | nil : PrintsRedirs [] []
  | input {file : List Char} {redirs : List (List Char × Direction)} {lexemes : List Lexeme}
      (isWord : IsWord file) (rest : PrintsRedirs redirs lexemes) :
      PrintsRedirs ((file, .input) :: redirs) (.input :: .word file :: lexemes)
  | output {file : List Char} {redirs : List (List Char × Direction)} {lexemes : List Lexeme}
      (isWord : IsWord file) (rest : PrintsRedirs redirs lexemes) :
      PrintsRedirs ((file, .output) :: redirs) (.output :: .word file :: lexemes)
  | append {file : List Char} {redirs : List (List Char × Direction)} {lexemes : List Lexeme}
      (isWord : IsWord file) (rest : PrintsRedirs redirs lexemes) :
      PrintsRedirs ((file, .output) :: redirs) (.append :: .word file :: lexemes)

/-- Where a command is printed: as a line of its own, or as an operand. -/
inductive Place where
  | line
  | operand

/-- How a command is printed. An operand is a simple command or stands in parentheses, and its
redirections come after it. -/
inductive Prints : Place → Cmd (List Char) → List Lexeme → Prop
  | exec {argv : List (List Char)} {redirs : List (List Char × Direction)} {lexemes : List Lexeme}
      (few : argv.length < MAXARGS) (words : ∀ arg ∈ argv, IsWord arg)
      (redirected : PrintsRedirs redirs lexemes) :
      Prints .operand (wrap (.exec argv) redirs) (argv.map .word ++ lexemes)
  | block {cmd : Cmd (List Char)} {redirs : List (List Char × Direction)}
      {inside lexemes : List Lexeme} (printed : Prints .line cmd inside)
      (redirected : PrintsRedirs redirs lexemes) :
      Prints .operand (wrap cmd redirs) (.opening :: (inside ++ .closing :: lexemes))
  | simple {cmd : Cmd (List Char)} {lexemes : List Lexeme} (printed : Prints .operand cmd lexemes) :
      Prints .line cmd lexemes
  | pipe {left right : Cmd (List Char)} {first second : List Lexeme}
      (printedLeft : Prints .operand left first) (printedRight : Prints .operand right second) :
      Prints .line (.pipe left right) (first ++ .bar :: second)
  | list {left right : Cmd (List Char)} {first second : List Lexeme}
      (printedLeft : Prints .operand left first) (printedRight : Prints .operand right second) :
      Prints .line (.list left right) (first ++ .semi :: second)
  | back {cmd : Cmd (List Char)} {lexemes : List Lexeme} (printed : Prints .operand cmd lexemes) :
      Prints .line (.back cmd) (lexemes ++ [.amp])

def Blank (text : List Char) : Prop := ∀ c ∈ text, c ∈ whitespace

/-- The text of some lexemes, with white space between them and possibly around them. -/
def Spaced : List Lexeme → List Char → Prop
  | [], text => Blank text
  | lexeme :: rest, text =>
      ∃ before after, text = before ++ (lexeme.text ++ after) ∧ Blank before ∧
        (rest ≠ [] → ∃ c more, after = c :: more ∧ c ∈ whitespace) ∧ Spaced rest after

/-! ## Every command can be printed -/

/-- Lexemes, each with a blank before it. -/
def layout (lexemes : List Lexeme) : List Char := lexemes.flatMap fun lexeme => ' ' :: lexeme.text

theorem spaced_layout (lexemes : List Lexeme) : Spaced lexemes (layout lexemes) := by
  induction lexemes with
  | nil => simp [Spaced, Blank, layout]
  | cons lexeme rest ih =>
      refine ⟨[' '], layout rest, rfl, by simp [Blank, whitespace], ?_, ih⟩
      intro nonempty
      rcases List.exists_cons_of_ne_nil nonempty with ⟨next, others, rfl⟩
      exact ⟨' ', next.text ++ layout others, rfl, by decide⟩

theorem wrap_append {α : Type} (cmd : Cmd α) (redirs : List (α × Direction)) (file : α)
    (direction : Direction) :
    wrap cmd (redirs ++ [(file, direction)]) = .redir (wrap cmd redirs) file direction := by
  simp [wrap]

theorem PrintsRedirs.concat {redirs : List (List Char × Direction)} {lexemes : List Lexeme}
    {file : List Char} (direction : Direction) (printed : PrintsRedirs redirs lexemes)
    (isWord : IsWord file) :
    ∃ longer, PrintsRedirs (redirs ++ [(file, direction)]) longer := by
  induction printed with
  | nil =>
      cases direction with
      | input => exact ⟨_, .input isWord .nil⟩
      | output => exact ⟨_, .output isWord .nil⟩
  | input firstWord rest ih =>
      rcases ih with ⟨longer, isLonger⟩
      exact ⟨_, .input firstWord isLonger⟩
  | output firstWord rest ih | append firstWord rest ih =>
      rcases ih with ⟨longer, isLonger⟩
      exact ⟨_, .output firstWord isLonger⟩

theorem Prints.operand_of_line {cmd : Cmd (List Char)} {lexemes : List Lexeme}
    (printed : Prints .line cmd lexemes) :
    ∃ inParentheses, Prints .operand cmd inParentheses :=
  ⟨_, .block printed .nil⟩

theorem exists_prints {cmd : Cmd (List Char)} (formed : cmd.WellFormed) :
    ∃ lexemes, Prints .operand cmd lexemes := by
  induction cmd with
  | exec argv => exact ⟨_, .exec formed.1 formed.2 .nil⟩
  | redir cmd file direction ih =>
      rcases ih formed.1 with ⟨lexemes, printed⟩
      cases printed with
      | exec few words redirected =>
          rcases redirected.concat direction formed.2 with ⟨longer, isLonger⟩
          rw [← wrap_append]
          exact ⟨_, .exec few words isLonger⟩
      | block inner redirected =>
          rcases redirected.concat direction formed.2 with ⟨longer, isLonger⟩
          rw [← wrap_append]
          exact ⟨_, .block inner isLonger⟩
  | pipe left right leftIh rightIh =>
      rcases leftIh formed.1 with ⟨first, printedLeft⟩
      rcases rightIh formed.2 with ⟨second, printedRight⟩
      exact (Prints.pipe printedLeft printedRight).operand_of_line
  | list left right leftIh rightIh =>
      rcases leftIh formed.1 with ⟨first, printedLeft⟩
      rcases rightIh formed.2 with ⟨second, printedRight⟩
      exact (Prints.list printedLeft printedRight).operand_of_line
  | back cmd ih =>
      rcases ih formed with ⟨lexemes, printed⟩
      exact (Prints.back printed).operand_of_line

/-! ## Reading the text -/

section Text

variable {line : List Char} {s : ℕ} {lexeme : Lexeme} {rest : List Lexeme}

/-- The text from the cursor on is that of the lexemes. -/
def At (line : List Char) (s : ℕ) (lexemes : List Lexeme) : Prop :=
  s ≤ line.length ∧ Spaced lexemes (line.drop s)

theorem strchr_whitespace {c : Char} (mem : c ∈ whitespace) : strchr whitespace c = true := by
  simp [strchr, mem]

theorem skip_eq {before after : List Char} (isText : line.drop s = before ++ after)
    (blank : Blank before) (ends : ∀ c more, after = c :: more → strchr whitespace c = false) :
    skip line s = s + before.length ∧ line.drop (skip line s) = after := by
  have none : after.takeWhile (strchr whitespace) = [] := by
    cases after with
    | nil => rfl
    | cons c more => simp [ends c more rfl]
  have length : skip line s = s + before.length := by
    rw [skip, isText, List.takeWhile_append_of_pos, none, List.append_nil]
    exact fun c mem => strchr_whitespace (blank c mem)
  refine ⟨length, ?_⟩
  rw [length, ← List.drop_drop, isText, List.drop_left]

theorem Lexeme.Ok.text_cons (ok : lexeme.Ok) :
    ∃ c more, lexeme.text = c :: more ∧ strchr whitespace c = false ∧ c ≠ '\x00' ∧
      (lexeme.symbol = some c ∨ lexeme.symbol = none ∧ inWord c = true) := by
  cases lexeme with
  | word text =>
      rcases ok with ⟨nonempty, chars⟩
      rcases List.exists_cons_of_ne_nil nonempty with ⟨c, more, rfl⟩
      have isChar := chars c List.mem_cons_self
      have outside : strchr whitespace c = false ∧ strchr symbols c = false := by
        simpa [inWord] using isChar
      refine ⟨c, more, rfl, outside.1, ?_, Or.inr ⟨rfl, isChar⟩⟩
      rintro rfl
      simp [strchr] at outside
  | _ => exact ⟨_, _, rfl, by decide, by decide, Or.inl rfl⟩

theorem At.skip (here : At line s (lexeme :: rest)) (ok : lexeme.Ok) :
    ∃ after, line.drop (skip line s) = lexeme.text ++ after ∧ skip line s ≤ line.length ∧
      (rest ≠ [] → ∃ c more, after = c :: more ∧ c ∈ whitespace) ∧ Spaced rest after := by
  rcases here with ⟨inside, before, after, isText, blank, spaced, more⟩
  rcases ok.text_cons with ⟨c, tail, isCons, notBlank, _⟩
  have ends : ∀ d others, lexeme.text ++ after = d :: others → strchr whitespace d = false := by
    intro d others same
    rw [isCons, List.cons_append, List.cons.injEq] at same
    rw [← same.1]
    exact notBlank
  rcases skip_eq isText blank ends with ⟨length, dropped⟩
  refine ⟨after, dropped, ?_, spaced, more⟩
  have lengths := congrArg List.length isText
  simp only [List.length_drop, List.length_append] at lengths
  omega

theorem peek_cons (here : At line s (lexeme :: rest)) (ok : lexeme.Ok) (toks : List Char)
    (areSymbols : toks.any inWord = false) :
    ∃ s', peek line s toks = (lexeme.symbol.any toks.contains, s') ∧
      At line s' (lexeme :: rest) := by
  rcases here.skip ok with ⟨after, dropped, inside, spaced, more⟩
  rcases ok.text_cons with ⟨c, tail, isCons, _, notZero, first⟩
  have current : (line)[Shell.skip line s]? = some c := by
    rw [← List.head?_drop, dropped, isCons]
    rfl
  refine ⟨Shell.skip line s, ?_, inside, [], after, dropped, by simp [Blank], spaced, more⟩
  have found : strchr toks c = lexeme.symbol.any toks.contains := by
    rcases first with isSymbol | ⟨noSymbol, isChar⟩
    · simp [strchr, notZero, isSymbol]
    · have notMem : c ∉ toks := by
        intro mem
        simp only [List.any_eq_false] at areSymbols
        exact areSymbols c mem isChar
      simp [strchr, notZero, noSymbol, notMem]
  simp only [peek, current, found]

theorem skip_nil (here : At line s []) : Shell.skip line s = line.length := by
  have isText : line.drop s = line.drop s ++ [] := (List.append_nil _).symm
  have inside := here.1
  rw [(skip_eq isText here.2 (by simp)).1, List.length_drop]
  omega

theorem at_end : At line line.length [] := by
  refine ⟨Nat.le_refl _, ?_⟩
  simp [Spaced, Blank]

theorem peek_nil (here : At line s []) (toks : List Char) :
    peek line s toks = (false, line.length) := by
  simp [peek, skip_nil here]

theorem gettoken_nil (here : At line s []) :
    ∃ token, gettoken line s = ('\x00', token, line.length) := by
  refine ⟨⟨line.length, line.length⟩, ?_⟩
  simp [gettoken, skip_nil here, skip_nil at_end]

theorem At.after_skip {lexemes : List Lexeme} (here : At line s lexemes)
    (ok : ∀ lexeme ∈ lexemes, lexeme.Ok) : At line (Shell.skip line s) lexemes := by
  cases lexemes with
  | nil =>
      rw [skip_nil here]
      exact at_end
  | cons lexeme rest =>
      rcases here.skip (ok lexeme List.mem_cons_self) with ⟨after, dropped, inside, spaced, more⟩
      exact ⟨inside, [], after, dropped, by simp [Blank], spaced, more⟩

/-- The pointers are those to the ends of a word of the line. -/
structure Token.Reads (line : List Char) (token : Token) (text : List Char) : Prop where
  isWord : IsWord text
  stop : token.eq = token.q + text.length
  text : ∃ after, line.drop token.q = text ++ after ∧
    ∀ c more, after = c :: more → inWord c = false

theorem Spaced.head_blank {after : List Char}
    (spaced : rest ≠ [] → ∃ c more, after = c :: more ∧ c ∈ whitespace) (isRest : Spaced rest after) :
    ∀ c more, after = c :: more → c ∈ whitespace := by
  rintro c more rfl
  cases rest with
  | nil => exact isRest c List.mem_cons_self
  | cons lexeme rest =>
      rcases spaced (by simp) with ⟨d, others, same, mem⟩
      cases same
      exact mem

theorem gettoken_cons (here : At line s (lexeme :: rest))
    (ok : ∀ each ∈ lexeme :: rest, each.Ok) :
    ∃ token s', gettoken line s = (lexeme.kind, token, s') ∧ At line s' rest ∧
      ∀ text, lexeme = .word text → token.Reads line text := by
  have isOk := ok lexeme List.mem_cons_self
  have restOk : ∀ each ∈ rest, each.Ok := fun each mem => ok each (List.mem_cons_of_mem _ mem)
  rcases here.skip isOk with ⟨after, dropped, inside, spaced, more⟩
  have blank := Spaced.head_blank spaced more
  have behind : At line (Shell.skip line s + lexeme.text.length) rest := by
    have lengths := congrArg List.length dropped
    simp only [List.length_drop, List.length_append] at lengths
    refine ⟨by omega, ?_⟩
    rw [← List.drop_drop, dropped, List.drop_left]
    exact more
  have next := behind.after_skip restOk
  have current : ∀ i, (line)[Shell.skip line s + i]? = (lexeme.text ++ after)[i]? := by
    intro i
    rw [← List.getElem?_drop, dropped]
  have first := current 0
  have second := current 1
  rw [Nat.add_zero] at first
  cases lexeme with
  | word text =>
      rcases isOk with ⟨nonempty, chars⟩
      rcases List.exists_cons_of_ne_nil nonempty with ⟨c, tail, rfl⟩
      have isChar := chars c List.mem_cons_self
      have head : (line)[Shell.skip line s]? = some c := first
      have notSymbol : ¬(c = '|' ∨ c = '(' ∨ c = ')' ∨ c = ';' ∨ c = '&' ∨ c = '<') := by
        rintro (rfl | rfl | rfl | rfl | rfl | rfl) <;> exact absurd isChar (by decide)
      have notRedir : c ≠ '>' := by
        rintro rfl
        exact absurd isChar (by decide)
      have ends : ∀ d others, after = d :: others → inWord d = false := by
        intro d others same
        simp [inWord, strchr_whitespace (blank d others same)]
      have run : (line.drop (Shell.skip line s)).takeWhile inWord = c :: tail := by
        have none : after.takeWhile inWord = [] := by
          cases after with
          | nil => rfl
          | cons d others => simp [ends d others rfl]
        rw [dropped, Lexeme.text, List.takeWhile_append_of_pos chars, none, List.append_nil]
      refine ⟨⟨Shell.skip line s, Shell.skip line s + (c :: tail).length⟩, _, ?_, next, ?_⟩
      · simp only [gettoken, head, if_neg notSymbol, if_neg notRedir, run]
        rfl
      · rintro text ⟨rfl⟩
        exact ⟨⟨nonempty, chars⟩, rfl, after, dropped, ends⟩
  | output =>
      have head : (line)[Shell.skip line s]? = some '>' := first
      have single : (line)[Shell.skip line s + 1]? ≠ some '>' := by
        rw [second]
        cases after with
        | nil => simp [Lexeme.text]
        | cons d others =>
            have isBlank := blank d others rfl
            simp only [Lexeme.text, List.cons_append, List.nil_append, List.getElem?_cons_succ,
              List.getElem?_cons_zero, ne_eq, Option.some.injEq]
            rintro rfl
            exact absurd isBlank (by decide)
      refine ⟨⟨Shell.skip line s, Shell.skip line s + 1⟩, _, ?_, next, by simp⟩
      simp [gettoken, head, single, Lexeme.kind, Lexeme.text]
  | append =>
      have head : (line)[Shell.skip line s]? = some '>' := first
      have double : (line)[Shell.skip line s + 1]? = some '>' := second
      refine ⟨⟨Shell.skip line s, Shell.skip line s + 2⟩, _, ?_, next, by simp⟩
      simp [gettoken, head, double, Lexeme.kind, Lexeme.text]
  | _ =>
      simp only [Lexeme.text, List.cons_append, List.getElem?_cons_zero] at first
      refine ⟨⟨Shell.skip line s, Shell.skip line s + 1⟩, _, ?_, next, by simp⟩
      simp [gettoken, first, Lexeme.kind, Lexeme.text]

/-- The lexemes begin with one of the symbols. -/
def begins (toks : List Char) (lexemes : List Lexeme) : Bool :=
  lexemes.head?.any fun lexeme => lexeme.symbol.any toks.contains

theorem peek_at {lexemes : List Lexeme} (here : At line s lexemes)
    (ok : ∀ lexeme ∈ lexemes, lexeme.Ok) (toks : List Char)
    (areSymbols : toks.any inWord = false) :
    ∃ s', peek line s toks = (begins toks lexemes, s') ∧ At line s' lexemes := by
  cases lexemes with
  | nil => exact ⟨_, peek_nil here toks, at_end⟩
  | cons lexeme rest => exact peek_cons here (ok lexeme List.mem_cons_self) toks areSymbols

end Text

end Xv6.Shell
