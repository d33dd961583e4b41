import Xv6.Shell.Printing

/-!
# Parsing what has been printed

The parser gives back the command tree that a line has been printed from.
-/

namespace Xv6.Shell

/-! ## Parsing the lexemes -/

/-- A parsed command and what it was printed from. -/
inductive Cmd.Reads (line : List Char) : Cmd Token → Cmd (List Char) → Prop
  | exec {tokens : List Token} {argv : List (List Char)}
      (words : List.Forall₂ (Token.Reads line) tokens argv) : Reads line (.exec tokens) (.exec argv)
  | redir {tree : Cmd Token} {cmd : Cmd (List Char)} {token : Token} {file : List Char}
      {direction : Direction} (inner : Reads line tree cmd) (word : token.Reads line file) :
      Reads line (.redir tree token direction) (.redir cmd file direction)
  | pipe {first second : Cmd Token} {left right : Cmd (List Char)} (firstReads : Reads line first left)
      (secondReads : Reads line second right) : Reads line (.pipe first second) (.pipe left right)
  | list {first second : Cmd Token} {left right : Cmd (List Char)} (firstReads : Reads line first left)
      (secondReads : Reads line second right) : Reads line (.list first second) (.list left right)
  | back {tree : Cmd Token} {cmd : Cmd (List Char)} (inner : Reads line tree cmd) :
      Reads line (.back tree) (.back cmd)

/-- Parsed redirections and what they were printed from. -/
def RedirsRead (line : List Char) (tokens : List (Token × Direction))
    (redirs : List (List Char × Direction)) : Prop :=
  List.Forall₂ (fun token redir => token.1.Reads line redir.1 ∧ token.2 = redir.2) tokens redirs

section Parse

variable {line : List Char} {s fuel : ℕ} {follow lexemes : List Lexeme}
  {redirs : List (List Char × Direction)}

theorem Cmd.Reads.wrap {tree : Cmd Token} {cmd : Cmd (List Char)}
    {tokens : List (Token × Direction)} (reads : Cmd.Reads line tree cmd)
    (redirected : RedirsRead line tokens redirs) :
    Cmd.Reads line (wrap tree tokens) (wrap cmd redirs) := by
  induction redirected generalizing tree cmd with
  | nil => exact reads
  | @cons token redir tokens redirs first rest ih =>
      rcases token with ⟨token, direction⟩
      rcases redir with ⟨file, isDirection⟩
      rcases first with ⟨word, rfl⟩
      exact ih (.redir reads word)

theorem parseredirs_cons {lexeme : Lexeme} {file : List Char} {direction : Direction}
    (here : At line s (lexeme :: .word file :: follow))
    (ok : ∀ each ∈ lexeme :: .word file :: follow, each.Ok)
    (isRedir : begins ['<', '>'] [lexeme] = true)
    (isDirection : (if lexeme.kind = '<' then Direction.input else .output) = direction)
    (parsed : ∀ {s'}, At line s' follow → ∃ tokens s'', parseredirs line fuel s' = .ok (tokens, s'') ∧
      At line s'' lexemes ∧ RedirsRead line tokens redirs) :
    ∃ tokens s'', parseredirs line (fuel + 1) s = .ok (tokens, s'') ∧ At line s'' lexemes ∧
      RedirsRead line tokens ((file, direction) :: redirs) := by
  have okTail := (List.forall_mem_cons.mp ok).2
  rcases peek_at here ok ['<', '>'] (by decide) with ⟨first, peeked, atFirst⟩
  rcases gettoken_cons atFirst ok with ⟨_, second, gotSymbol, atSecond, _⟩
  rcases gettoken_cons atSecond okTail with ⟨token, third, gotFile, atThird, reads⟩
  rcases parsed atThird with ⟨tokens, last, parsedRest, atLast, readRest⟩
  have begun : begins ['<', '>'] (lexeme :: .word file :: follow) = true := isRedir
  refine ⟨(token, direction) :: tokens, last, ?_, atLast, ?_⟩
  · have isWord : (Lexeme.word file).kind = 'a' := rfl
    simp [parseredirs, peeked, begun, gotSymbol, gotFile, isWord, parsedRest, bind, Except.bind,
      pure, Except.pure, ← isDirection]
  · exact .cons ⟨reads file rfl, rfl⟩ readRest

theorem parseredirs_prints (printed : PrintsRedirs redirs lexemes)
    (here : At line s (lexemes ++ follow)) (ok : ∀ lexeme ∈ lexemes ++ follow, lexeme.Ok)
    (stops : begins ['<', '>'] follow = false) (enough : redirs.length < fuel) :
    ∃ tokens s', parseredirs line fuel s = .ok (tokens, s') ∧ At line s' follow ∧
      RedirsRead line tokens redirs := by
  induction printed generalizing s fuel with
  | nil =>
      rw [List.nil_append] at here ok
      rcases fuel with _ | fuel
      · contradiction
      · rcases peek_at here ok ['<', '>'] (by decide) with ⟨s', peeked, next⟩
        refine ⟨[], s', ?_, next, .nil⟩
        simp [parseredirs, peeked, stops, pure, Except.pure]
  | input isWord rest ih | output isWord rest ih | append isWord rest ih =>
      rcases fuel with _ | fuel
      · contradiction
      · apply parseredirs_cons here ok rfl rfl
        intro s' after
        apply ih after _ (by simpa using enough)
        exact fun lexeme mem => ok lexeme (List.mem_cons_of_mem _ (List.mem_cons_of_mem _ mem))

/-- After an operand there is the end, or a symbol that ends a simple command. -/
def Stops (follow : List Lexeme) : Prop :=
  follow = [] ∨ begins ['|', ')', '&', ';'] follow = true

theorem Stops.not_begins (stops : Stops follow) :
    begins ['<', '>'] follow = false ∧ begins ['('] follow = false := by
  rcases stops with rfl | begun
  · exact ⟨rfl, rfl⟩
  · cases follow with
    | nil => exact ⟨rfl, rfl⟩
    | cons lexeme rest =>
        cases lexeme <;> simp [begins, Lexeme.symbol, Lexeme.kind] at begun ⊢

/-- `parseexec` reads the words that have been printed, and the redirections after the last. -/
theorem parseargs_prints {argv : List (List Char)} {argc : ℕ} (printed : PrintsRedirs redirs lexemes)
    (here : At line s (argv.map .word ++ (lexemes ++ follow)))
    (ok : ∀ lexeme ∈ argv.map .word ++ (lexemes ++ follow), lexeme.Ok) (stops : Stops follow)
    (few : argc + argv.length < MAXARGS) (behind : argv = [] → redirs = [])
    (enough : argv.length + redirs.length < fuel) :
    ∃ args tokens s', parseargs line fuel argc s = .ok ((args, tokens), s') ∧ At line s' follow ∧
      List.Forall₂ (Token.Reads line) args argv ∧ RedirsRead line tokens redirs := by
  induction argv generalizing s fuel argc redirs lexemes with
  | nil =>
      obtain rfl : redirs = [] := behind rfl
      cases printed
      rw [List.map_nil, List.nil_append, List.nil_append] at here ok
      rcases fuel with _ | fuel
      · contradiction
      · rcases peek_at here ok ['|', ')', '&', ';'] (by decide) with ⟨s', peeked, next⟩
        rcases stops with rfl | begun
        · rcases gettoken_nil next with ⟨token, got⟩
          have notBegun : begins ['|', ')', '&', ';'] [] = false := rfl
          refine ⟨[], [], line.length, ?_, at_end, .nil, .nil⟩
          simp [parseargs, peeked, notBegun, got, pure, Except.pure]
        · refine ⟨[], [], s', ?_, next, .nil, .nil⟩
          simp [parseargs, peeked, begun, pure, Except.pure]
  | cons arg argv ih =>
      rw [List.map_cons, List.cons_append] at here ok
      have okRest := (List.forall_mem_cons.mp ok).2
      rcases fuel with _ | fuel
      · contradiction
      · rcases peek_at here ok ['|', ')', '&', ';'] (by decide) with ⟨first, peeked, atFirst⟩
        rcases gettoken_cons atFirst ok with ⟨token, second, got, atSecond, reads⟩
        have notBegun : begins ['|', ')', '&', ';']
            (.word arg :: (argv.map .word ++ (lexemes ++ follow))) = false := rfl
        have isWord : (Lexeme.word arg).kind = 'a' := rfl
        have room : ¬argc + 1 ≥ MAXARGS := by
          simp only [List.length_cons] at few
          omega
        -- the redirections come after the last word
        have redirected : ∃ before after third tokens fourth args more,
            parseredirs line fuel second = .ok (tokens, third) ∧
            parseargs line fuel (argc + 1) third = .ok ((args, more), fourth) ∧
            At line fourth follow ∧ List.Forall₂ (Token.Reads line) args argv ∧
            RedirsRead line tokens before ∧ RedirsRead line more after ∧
            before ++ after = redirs := by
          simp only [List.length_cons] at few enough
          have fewer : argc + 1 + argv.length < MAXARGS := by omega
          have enoughArgs : argv.length + redirs.length < fuel := by omega
          have enoughRedirs : redirs.length < fuel := by omega
          have enoughNone : ([] : List (List Char × Direction)).length < fuel := by simp; omega
          by_cases isLast : argv = []
          · subst isLast
            rw [List.map_nil, List.nil_append] at atSecond okRest
            rcases parseredirs_prints printed atSecond okRest stops.not_begins.1 enoughRedirs with
              ⟨tokens, third, parsedRedirs, atThird, readBefore⟩
            rcases ih .nil atThird (List.forall_mem_append.mp okRest).2
              fewer (fun _ => rfl) (by simpa using enoughNone) with
              ⟨args, more, fourth, parsedArgs, atFourth, argsRead, readAfter⟩
            exact ⟨redirs, [], third, tokens, fourth, args, more, parsedRedirs, parsedArgs, atFourth,
              argsRead, readBefore, readAfter, List.append_nil _⟩
          · have isWordNext : begins ['<', '>'] (argv.map .word ++ (lexemes ++ follow)) = false := by
              rcases List.exists_cons_of_ne_nil isLast with ⟨next, others, rfl⟩
              rfl
            rcases parseredirs_prints .nil atSecond okRest isWordNext enoughNone with
              ⟨tokens, third, parsedRedirs, atThird, readBefore⟩
            rcases ih printed atThird okRest fewer (fun none => absurd none isLast) enoughArgs with
              ⟨args, more, fourth, parsedArgs, atFourth, argsRead, readAfter⟩
            exact ⟨[], redirs, third, tokens, fourth, args, more, parsedRedirs, parsedArgs, atFourth,
              argsRead, readBefore, readAfter, rfl⟩
        rcases redirected with ⟨before, after, third, tokens, fourth, args, more, parsedRedirs,
          parsedArgs, atFourth, argsRead, readBefore, readAfter, rfl⟩
        refine ⟨token :: args, tokens ++ more, fourth, ?_, atFourth,
          .cons (reads arg rfl) argsRead, ?_⟩
        · simp [parseargs, peeked, notBegun, got, isWord, room, parsedRedirs, parsedArgs, bind,
            Except.bind, pure, Except.pure]
        · exact List.rel_append readBefore readAfter

theorem parseexec_prints {argv : List (List Char)} (printed : PrintsRedirs redirs lexemes)
    (here : At line s (argv.map .word ++ (lexemes ++ follow)))
    (ok : ∀ lexeme ∈ argv.map .word ++ (lexemes ++ follow), lexeme.Ok) (stops : Stops follow)
    (few : argv.length < MAXARGS) (enough : argv.length + redirs.length < fuel) :
    ∃ tree s', parseexec line (fuel + 1) s = .ok (tree, s') ∧ At line s' follow ∧
      Cmd.Reads line tree (wrap (.exec argv) redirs) := by
  have notBlock : begins ['('] (argv.map .word ++ (lexemes ++ follow)) = false := by
    cases argv with
    | cons arg argv => rfl
    | nil =>
        cases printed with
        | nil => exact stops.not_begins.2
        | input | output | append => rfl
  have fewer : 0 + argv.length < MAXARGS := by omega
  have enoughRedirs : redirs.length < fuel := by omega
  have enoughNone : ([] : List (List Char × Direction)).length < fuel := by simp; omega
  rcases peek_at here ok ['('] (by decide) with ⟨first, peeked, atFirst⟩
  rw [notBlock] at peeked
  by_cases none : argv = []
  · subst none
    rw [List.map_nil, List.nil_append] at atFirst ok
    rcases parseredirs_prints printed atFirst ok stops.not_begins.1 enoughRedirs with
      ⟨tokens, second, parsedRedirs, atSecond, readRedirs⟩
    rcases parseargs_prints .nil atSecond
      (List.forall_mem_append.mp ok).2 stops fewer (fun _ => rfl)
      (by simpa using enoughNone) with ⟨args, more, third, parsedArgs, atThird, argsRead, readMore⟩
    cases readMore
    refine ⟨Shell.wrap (.exec args) tokens, third, ?_, atThird, (Cmd.Reads.exec argsRead).wrap readRedirs⟩
    simp [parseexec, peeked, parsedRedirs, parsedArgs, bind, Except.bind, pure, Except.pure]
  · have isWordNext : begins ['<', '>'] (argv.map .word ++ (lexemes ++ follow)) = false := by
      rcases List.exists_cons_of_ne_nil none with ⟨arg, others, rfl⟩
      rfl
    rcases parseredirs_prints .nil atFirst ok isWordNext enoughNone with
      ⟨tokens, second, parsedRedirs, atSecond, readNone⟩
    cases readNone
    rcases parseargs_prints printed atSecond ok stops fewer (fun isNone => absurd isNone none) enough with
      ⟨args, more, third, parsedArgs, atThird, argsRead, readMore⟩
    refine ⟨Shell.wrap (.exec args) more, third, ?_, atThird, (Cmd.Reads.exec argsRead).wrap readMore⟩
    simp [parseexec, peeked, parsedRedirs, parsedArgs, bind, Except.bind, pure, Except.pure]

variable {tree : Cmd Token} {s' : ℕ}

theorem parsepipe_single (parsed : parseexec line fuel s = .ok (tree, s')) (here : At line s' follow)
    (ok : ∀ lexeme ∈ follow, lexeme.Ok) (stops : begins ['|'] follow = false) :
    ∃ s'', parsepipe line (fuel + 1) s = .ok (tree, s'') ∧ At line s'' follow := by
  rcases peek_at here ok ['|'] (by decide) with ⟨s'', peeked, next⟩
  refine ⟨s'', ?_, next⟩
  simp [parsepipe, parsed, peeked, stops, bind, Except.bind, pure, Except.pure]

theorem parseback_none (here : At line s follow) (ok : ∀ lexeme ∈ follow, lexeme.Ok)
    (stops : begins ['&'] follow = false) :
    ∃ s', parseback line (fuel + 1) tree s = .ok (tree, s') ∧ At line s' follow := by
  rcases peek_at here ok ['&'] (by decide) with ⟨s', peeked, next⟩
  refine ⟨s', ?_, next⟩
  simp [parseback, peeked, stops, pure, Except.pure]

theorem parseline_single (parsed : parsepipe line (fuel + 1) s = .ok (tree, s'))
    (here : At line s' follow) (ok : ∀ lexeme ∈ follow, lexeme.Ok)
    (notBack : begins ['&'] follow = false) (notList : begins [';'] follow = false) :
    ∃ s'', parseline line (fuel + 2) s = .ok (tree, s'') ∧ At line s'' follow := by
  have unchanged : ∃ s'', parseback line (fuel + 1) tree s' = .ok (tree, s'') ∧ At line s'' follow :=
    parseback_none here ok notBack
  rcases unchanged with ⟨middle, noBack, atMiddle⟩
  rcases peek_at atMiddle ok [';'] (by decide) with ⟨s'', peeked, next⟩
  refine ⟨s'', ?_, next⟩
  simp [parseline, parsed, noBack, peeked, notList, bind, Except.bind, pure, Except.pure]

/-- After a line there is the end, or the parenthesis that closes it. -/
def Ends (follow : List Lexeme) : Prop := follow = [] ∨ begins [')'] follow = true

theorem Ends.not_begins (ends : Ends follow) :
    Stops follow ∧ begins ['|'] follow = false ∧ begins ['&'] follow = false ∧
      begins [';'] follow = false := by
  rcases ends with rfl | begun
  · exact ⟨Or.inl rfl, rfl, rfl, rfl⟩
  · cases follow with
    | nil => exact ⟨Or.inl rfl, rfl, rfl, rfl⟩
    | cons lexeme rest =>
        cases lexeme <;> simp [begins, Lexeme.symbol, Lexeme.kind, Stops] at begun ⊢

/-- The parser gives back what has been printed in some place. Each lexeme takes at most four
nested calls. -/
def Parses (line : List Char) (cmd : Cmd (List Char)) (lexemes : List Lexeme) : Place → Prop
  | .operand => ∀ {follow s fuel}, At line s (lexemes ++ follow) →
      (∀ lexeme ∈ lexemes ++ follow, lexeme.Ok) → Stops follow → 4 * lexemes.length + 2 ≤ fuel →
      ∃ tree s', parseexec line fuel s = .ok (tree, s') ∧ At line s' follow ∧ Cmd.Reads line tree cmd
  | .line => ∀ {follow s fuel}, At line s (lexemes ++ follow) →
      (∀ lexeme ∈ lexemes ++ follow, lexeme.Ok) → Ends follow → 4 * lexemes.length + 6 ≤ fuel →
      ∃ tree s', parseline line fuel s = .ok (tree, s') ∧ At line s' follow ∧ Cmd.Reads line tree cmd

theorem PrintsRedirs.length_le (printed : PrintsRedirs redirs lexemes) :
    redirs.length ≤ lexemes.length := by
  induction printed with
  | nil => exact Nat.le_refl _
  | input isWord rest ih | output isWord rest ih | append isWord rest ih =>
      simp only [List.length_cons]
      omega

namespace Parses

variable {cmd : Cmd (List Char)} (parses : Parses line cmd lexemes .operand)
  (here : At line s (lexemes ++ follow)) (ok : ∀ lexeme ∈ lexemes ++ follow, lexeme.Ok)
  (stops : Stops follow) (notPipe : begins ['|'] follow = false)

include parses here ok stops notPipe

theorem parsepipe (enough : 4 * lexemes.length + 3 ≤ fuel) :
    ∃ tree s', parsepipe line fuel s = .ok (tree, s') ∧ At line s' follow ∧
      Cmd.Reads line tree cmd := by
  rcases Nat.exists_eq_add_of_le enough with ⟨extra, rfl⟩
  have inner : 4 * lexemes.length + 2 ≤ 4 * lexemes.length + 2 + extra := by omega
  rcases parses here ok stops inner with ⟨tree, s', parsed, next, reads⟩
  rcases parsepipe_single parsed next (List.forall_mem_append.mp ok).2
    notPipe with ⟨s'', piped, atLast⟩
  refine ⟨tree, s'', ?_, atLast, reads⟩
  rw [← piped]
  congr 1
  omega

theorem parseline (notBack : begins ['&'] follow = false) (notList : begins [';'] follow = false)
    (enough : 4 * lexemes.length + 4 ≤ fuel) :
    ∃ tree s', parseline line fuel s = .ok (tree, s') ∧ At line s' follow ∧
      Cmd.Reads line tree cmd := by
  rcases Nat.exists_eq_add_of_le enough with ⟨extra, rfl⟩
  have inner : 4 * lexemes.length + 3 ≤ 4 * lexemes.length + 2 + extra + 1 := by omega
  rcases parses.parsepipe here ok stops notPipe inner with ⟨tree, s', parsed, next, reads⟩
  rcases parseline_single parsed next (List.forall_mem_append.mp ok).2
    notBack notList with ⟨s'', whole, atLast⟩
  refine ⟨tree, s'', ?_, atLast, reads⟩
  rw [← whole]
  congr 1
  omega

end Parses

theorem parseline_pipe {left right : Cmd (List Char)} {first second : List Lexeme}
    (leftParses : Parses line left first .operand) (rightParses : Parses line right second .operand) :
    Parses line (.pipe left right) (first ++ .bar :: second) .line := by
  intro follow s fuel here ok ends enough
  rcases ends.not_begins with ⟨stops, notPipe, notBack, notList⟩
  rw [List.append_assoc, List.cons_append] at here ok
  simp only [List.length_append, List.length_cons] at enough
  rcases Nat.exists_eq_add_of_le' (Nat.le_of_add_left_le enough) with ⟨extra, rfl⟩
  have afterOk := (List.forall_mem_append.mp ok).2
  have rightOk := (List.forall_mem_cons.mp afterOk).2
  have enoughLeft : 4 * first.length + 2 ≤ extra + 4 := by omega
  have enoughRight : 4 * second.length + 3 ≤ extra + 4 := by omega
  rcases leftParses here ok (Or.inr rfl) enoughLeft with ⟨leftTree, s1, parsedLeft, atBar, leftReads⟩
  rcases peek_at atBar afterOk ['|'] (by decide) with ⟨s2, peeked, stillBar⟩
  rcases gettoken_cons stillBar afterOk with ⟨token, s3, taken, atRight, _⟩
  rcases rightParses.parsepipe atRight rightOk stops notPipe enoughRight with
    ⟨rightTree, s4, parsedRight, atEnd, rightReads⟩
  have piped : parsepipe line (extra + 5) s = .ok (.pipe leftTree rightTree, s4) := by
    simp [parsepipe, parsedLeft, peeked, begins, Lexeme.symbol, Lexeme.kind, taken, parsedRight, bind,
      Except.bind, pure, Except.pure]
  rcases parseline_single piped atEnd (List.forall_mem_append.mp rightOk).2
    notBack notList with ⟨s5, whole, atLast⟩
  exact ⟨_, s5, whole, atLast, .pipe leftReads rightReads⟩

theorem parseline_list {left right : Cmd (List Char)} {first second : List Lexeme}
    (leftParses : Parses line left first .operand) (rightParses : Parses line right second .operand) :
    Parses line (.list left right) (first ++ .semi :: second) .line := by
  intro follow s fuel here ok ends enough
  rcases ends.not_begins with ⟨stops, notPipe, notBack, notList⟩
  rw [List.append_assoc, List.cons_append] at here ok
  simp only [List.length_append, List.length_cons] at enough
  rcases Nat.exists_eq_add_of_le' (Nat.le_of_add_left_le enough) with ⟨extra, rfl⟩
  have afterOk := (List.forall_mem_append.mp ok).2
  have rightOk := (List.forall_mem_cons.mp afterOk).2
  have enoughLeft : 4 * first.length + 3 ≤ extra + 5 := by omega
  have enoughRight : 4 * second.length + 4 ≤ extra + 5 := by omega
  rcases leftParses.parsepipe here ok (Or.inr rfl) rfl enoughLeft with
    ⟨leftTree, s1, parsedLeft, atSemi, leftReads⟩
  have unchanged : ∃ s2, parseback line (extra + 5) leftTree s1 = .ok (leftTree, s2) ∧
      At line s2 (.semi :: (second ++ follow)) := parseback_none atSemi afterOk rfl
  rcases unchanged with ⟨s2, noBack, stillSemi⟩
  rcases peek_at stillSemi afterOk [';'] (by decide) with ⟨s3, peeked, atPeek⟩
  rcases gettoken_cons atPeek afterOk with ⟨token, s4, taken, atRight, _⟩
  rcases rightParses.parseline atRight rightOk stops notPipe notBack notList enoughRight with
    ⟨rightTree, s5, parsedRight, atEnd, rightReads⟩
  refine ⟨.list leftTree rightTree, s5, ?_, atEnd, .list leftReads rightReads⟩
  simp [parseline, parsedLeft, noBack, peeked, begins, Lexeme.symbol, Lexeme.kind, taken, parsedRight,
    bind, Except.bind, pure, Except.pure]

theorem parseline_back {cmd : Cmd (List Char)} (parses : Parses line cmd lexemes .operand) :
    Parses line (.back cmd) (lexemes ++ [.amp]) .line := by
  intro follow s fuel here ok ends enough
  rcases ends.not_begins with ⟨stops, notPipe, notBack, notList⟩
  rw [List.append_assoc, List.singleton_append] at here ok
  simp only [List.length_append, List.length_singleton] at enough
  rcases Nat.exists_eq_add_of_le' (Nat.le_of_add_left_le enough) with ⟨extra, rfl⟩
  have afterOk := (List.forall_mem_append.mp ok).2
  have followOk := (List.forall_mem_cons.mp afterOk).2
  have inner : 4 * lexemes.length + 3 ≤ extra + 5 := by omega
  rcases parses.parsepipe here ok (Or.inr rfl) rfl inner with ⟨tree, s1, parsed, atAmp, reads⟩
  rcases peek_at atAmp afterOk ['&'] (by decide) with ⟨s2, peeked, stillAmp⟩
  rcases gettoken_cons stillAmp afterOk with ⟨token, s3, taken, behind, _⟩
  have once : ∃ s4, parseback line (extra + 4) (.back tree) s3 = .ok (.back tree, s4) ∧
      At line s4 follow := parseback_none behind followOk notBack
  rcases once with ⟨s4, noMore, atFollow⟩
  rcases peek_at atFollow followOk [';'] (by decide) with ⟨s5, noList, atLast⟩
  rw [notList] at noList
  have backed : parseback line (extra + 5) tree s1 = .ok (.back tree, s4) := by
    rw [parseback]
    simp [peeked, begins, Lexeme.symbol, Lexeme.kind, taken, noMore]
  refine ⟨.back tree, s5, ?_, atLast, .back reads⟩
  simp [parseline, parsed, backed, noList, bind, Except.bind, pure, Except.pure]

theorem parseexec_block {cmd : Cmd (List Char)} {inside : List Lexeme}
    (parses : Parses line cmd inside .line) (redirected : PrintsRedirs redirs lexemes) :
    Parses line (wrap cmd redirs) (.opening :: (inside ++ .closing :: lexemes)) .operand := by
  intro follow s fuel here ok stops enough
  rw [List.cons_append, List.append_assoc, List.cons_append] at here ok
  simp only [List.length_cons, List.length_append] at enough
  rcases Nat.exists_eq_add_of_le' (Nat.le_of_add_left_le enough) with ⟨extra, rfl⟩
  have insideOk := (List.forall_mem_cons.mp ok).2
  have closingOk := (List.forall_mem_append.mp insideOk).2
  have redirsOk := (List.forall_mem_cons.mp closingOk).2
  have short := redirected.length_le
  have enoughInside : 4 * inside.length + 6 ≤ extra := by omega
  have enoughRedirs : redirs.length < extra := by omega
  -- `parseexec` peeks at the parenthesis, and `parseblock` once more
  rcases peek_at here ok ['('] (by decide) with ⟨s1, opened, atOpening⟩
  rcases peek_at atOpening ok ['('] (by decide) with ⟨s2, openedAgain, stillOpening⟩
  rcases gettoken_cons stillOpening ok with ⟨token, s3, taken, atInside, _⟩
  rcases parses atInside insideOk (Or.inr rfl) enoughInside with ⟨tree, s4, parsed, atClosing, reads⟩
  rcases peek_at atClosing closingOk [')'] (by decide) with ⟨s5, closed, stillClosing⟩
  rcases gettoken_cons stillClosing closingOk with ⟨last, s6, takenLast, atRedirs, _⟩
  rcases parseredirs_prints redirected atRedirs redirsOk stops.not_begins.1 enoughRedirs with
    ⟨tokens, s7, parsedRedirs, atFollow, readRedirs⟩
  have blocked : parseblock line (extra + 1) s1 = .ok (Shell.wrap tree tokens, s7) := by
    simp [parseblock, openedAgain, begins, Lexeme.symbol, Lexeme.kind, taken, parsed, closed, takenLast,
      parsedRedirs, bind, Except.bind, pure, Except.pure]
  refine ⟨Shell.wrap tree tokens, s7, ?_, atFollow, reads.wrap readRedirs⟩
  simp [parseexec, opened, begins, Lexeme.symbol, Lexeme.kind, blocked]

theorem Prints.parses {place : Place} {cmd : Cmd (List Char)} (printed : Prints place cmd lexemes) :
    Parses line cmd lexemes place := by
  induction printed with
  | exec few words redirected =>
      intro follow s fuel here ok stops enough
      rw [List.append_assoc] at here ok
      have short := redirected.length_le
      simp only [List.length_append, List.length_map] at enough
      rcases Nat.exists_eq_add_of_le' (Nat.le_of_add_left_le enough) with ⟨extra, rfl⟩
      exact parseexec_prints redirected here ok stops few (by omega)
  | block printed redirected ih => exact parseexec_block ih redirected
  | simple printed ih =>
      intro follow s fuel here ok ends enough
      rcases ends.not_begins with ⟨stops, notPipe, notBack, notList⟩
      exact Parses.parseline ih here ok stops notPipe notBack notList (by omega)
  | pipe printedLeft printedRight leftIh rightIh => exact parseline_pipe leftIh rightIh
  | list printedLeft printedRight leftIh rightIh => exact parseline_list leftIh rightIh
  | back printed ih => exact parseline_back ih

end Parse

/-! ## The zeros at the ends of the words -/

section Zeros

variable {line buffer : List Char} {token : Token} {text : List Char}

/-- The characters of the words are still in the line. -/
structure Kept (line buffer : List Char) : Prop where
  length : buffer.length = line.length + 1
  chars : ∀ (i : ℕ) (c : Char), (line)[i]? = some c → inWord c = true → buffer[i]? = some c

/-- Zeros have been stored between two states of the line, and what is read from then on. -/
structure Stored (line before after : List Char) (reads : List Char → Prop) : Prop where
  kept : Kept line after
  zeros : ∀ i : ℕ, before[i]? = some '\x00' → after[i]? = some '\x00'
  reads : ∀ later, Kept line later → (∀ i : ℕ, after[i]? = some '\x00' → later[i]? = some '\x00') →
    reads later

theorem Stored.trans {before middle after : List Char} {first second : List Char → Prop}
    (left : Stored line before middle first) (right : Stored line middle after second) :
    Stored line before after fun later => first later ∧ second later where
  kept := right.kept
  zeros i zero := right.zeros i (left.zeros i zero)
  reads later kept zeros :=
    ⟨left.reads later kept fun i zero => zeros i (right.zeros i zero), right.reads later kept zeros⟩

theorem Stored.imp {before after : List Char} {first second : List Char → Prop}
    (stored : Stored line before after first) (weaker : ∀ later, first later → second later) :
    Stored line before after second :=
  ⟨stored.kept, stored.zeros, fun later kept zeros => weaker later (stored.reads later kept zeros)⟩

theorem kept_append : Kept line (line ++ ['\x00']) := by
  refine ⟨by simp, ?_⟩
  intro i c current _
  rw [List.getElem?_append_left]
  · exact current
  · exact (List.getElem?_eq_some_iff.1 current).1

section

variable (reads : token.Reads line text)

include reads

theorem Token.Reads.getElem {i : ℕ} (inside : i < text.length) :
    (line)[token.q + i]? = some text[i] := by
  rcases reads.text with ⟨after, dropped, _⟩
  rw [← List.getElem?_drop, dropped, List.getElem?_append_left inside, List.getElem?_eq_getElem]

theorem Token.Reads.getElem_stop {c : Char} (current : (line)[token.eq]? = some c) :
    inWord c = false := by
  rcases reads.text with ⟨after, dropped, ends⟩
  rw [reads.stop, ← List.getElem?_drop, dropped, List.getElem?_append_right (Nat.le_refl _),
    Nat.sub_self] at current
  cases after with
  | nil => simp at current
  | cons d more =>
      cases current
      exact ends c more rfl

theorem Token.Reads.stop_le : token.eq ≤ line.length := by
  rcases reads.text with ⟨after, dropped, _⟩
  have lengths := congrArg List.length dropped
  have nonempty : 0 < text.length := List.length_pos_iff.2 reads.isWord.1
  simp only [List.length_drop, List.length_append] at lengths
  rw [reads.stop]
  omega

theorem Token.Reads.cstring (kept : Kept line buffer) (zero : buffer[token.eq]? = some '\x00') :
    cstring buffer token.q = text := by
  have word : (buffer.drop token.q).take text.length = text := by
    apply List.ext_getElem?
    intro i
    rw [List.getElem?_take, List.getElem?_drop]
    by_cases inside : i < text.length
    · rw [if_pos inside, List.getElem?_eq_getElem inside]
      exact kept.chars _ _ (reads.getElem inside) (reads.isWord.2 _ (List.getElem_mem inside))
    · rw [if_neg inside, List.getElem?_eq_none (Nat.le_of_not_lt inside)]
  have behind : (buffer.drop token.q).drop text.length = '\x00' :: buffer.drop (token.eq + 1) := by
    rw [List.drop_drop, ← reads.stop]
    rcases List.getElem?_eq_some_iff.1 zero with ⟨inside, isZero⟩
    rw [List.drop_eq_getElem_cons inside, isZero]
  have noZero : ∀ c ∈ text, decide (c ≠ '\x00') = true := by
    intro c mem
    rw [decide_eq_true_iff]
    rintro rfl
    exact absurd (reads.isWord.2 _ mem) (by decide)
  rw [Shell.cstring, ← List.take_append_drop text.length (buffer.drop token.q), word, behind,
    List.takeWhile_append_of_pos noZero]
  simp

theorem Token.Reads.stored (kept : Kept line buffer) :
    Stored line buffer (buffer.set token.eq '\x00') fun later => Shell.cstring later token.q = text := by
  have inside : token.eq < buffer.length := by
    have bound := reads.stop_le
    rw [kept.length]
    omega
  constructor
  · refine ⟨by rw [List.length_set, kept.length], ?_⟩
    intro i c current isChar
    rw [List.getElem?_set_ne]
    · exact kept.chars i c current isChar
    · rintro rfl
      rw [reads.getElem_stop current] at isChar
      contradiction
  · intro i zero
    rw [List.getElem?_set, zero]
    split <;> simp
  · intro later laterKept zeros
    exact reads.cstring laterKept (zeros _ (by simp [inside]))

end

theorem Cmd.Reads.stored {tree : Cmd Token} {cmd : Cmd (List Char)} (reads : Cmd.Reads line tree cmd)
    (kept : Kept line buffer) :
    Stored line buffer (nulterminate tree buffer) fun later => tree.read later = cmd := by
  induction reads generalizing buffer with
  | @exec tokens argv words =>
      have all : Stored line buffer (nulterminate (.exec tokens) buffer) fun later =>
          tokens.map (fun token => Shell.cstring later token.q) = argv := by
        rw [nulterminate]
        induction words generalizing buffer with
        | nil => exact ⟨kept, fun _ zero => zero, fun _ _ _ => rfl⟩
        | cons first rest ih =>
            have one := first.stored kept
            apply (one.trans (ih one.kept)).imp
            rintro later ⟨readFirst, readRest⟩
            rw [List.map_cons, readFirst, readRest]
      apply all.imp
      intro later read
      rw [Cmd.read, Cmd.map, read]
  | redir inner word ih =>
      have before := ih kept
      apply (before.trans (word.stored before.kept)).imp
      rintro later ⟨readInner, readFile⟩
      rw [Cmd.read] at readInner ⊢
      rw [Cmd.map, readInner, readFile]
  | pipe firstReads secondReads firstIh secondIh | list firstReads secondReads firstIh secondIh =>
      have before := firstIh kept
      apply (before.trans (secondIh before.kept)).imp
      rintro later ⟨readFirst, readSecond⟩
      rw [Cmd.read] at readFirst readSecond ⊢
      rw [Cmd.map, readFirst, readSecond]
  | back inner ih =>
      apply (ih kept).imp
      intro later read
      rw [Cmd.read] at read ⊢
      rw [Cmd.map, read]

end Zeros

/-! ## The round trip -/

theorem PrintsRedirs.ok {redirs : List (List Char × Direction)} {lexemes : List Lexeme}
    (printed : PrintsRedirs redirs lexemes) : ∀ lexeme ∈ lexemes, lexeme.Ok := by
  induction printed with
  | nil => simp
  | input isWord rest ih | output isWord rest ih | append isWord rest ih =>
      simp only [List.forall_mem_cons]
      exact ⟨trivial, isWord, ih⟩

theorem Prints.ok {place : Place} {cmd : Cmd (List Char)} {lexemes : List Lexeme}
    (printed : Prints place cmd lexemes) : ∀ lexeme ∈ lexemes, lexeme.Ok := by
  induction printed with
  | exec few words redirected =>
      rw [List.forall_mem_append, List.forall_mem_map]
      exact ⟨words, redirected.ok⟩
  | block printed redirected ih =>
      rw [List.forall_mem_cons, List.forall_mem_append, List.forall_mem_cons]
      exact ⟨trivial, ih, trivial, redirected.ok⟩
  | simple printed ih => exact ih
  | pipe printedLeft printedRight leftIh rightIh | list printedLeft printedRight leftIh rightIh =>
      rw [List.forall_mem_append, List.forall_mem_cons]
      exact ⟨leftIh, trivial, rightIh⟩
  | back printed ih =>
      rw [List.forall_mem_append, List.forall_mem_singleton]
      exact ⟨ih, trivial⟩

theorem Spaced.length_le {lexemes : List Lexeme} {text : List Char} (spaced : Spaced lexemes text)
    (ok : ∀ lexeme ∈ lexemes, lexeme.Ok) : lexemes.length ≤ text.length := by
  induction lexemes generalizing text with
  | nil => exact Nat.zero_le _
  | cons lexeme rest ih =>
      rcases spaced with ⟨before, after, rfl, _, _, more⟩
      have shorter := ih more fun each mem => ok each (List.mem_cons_of_mem _ mem)
      rcases (ok lexeme List.mem_cons_self).text_cons with ⟨c, tail, isCons, _⟩
      simp only [isCons, List.length_append, List.length_cons]
      omega

/-- Every command tree can be printed, and the parser gives it back, without a panic. -/
theorem parsecmd_printed (cmd : Cmd (List Char)) (formed : cmd.WellFormed) :
    (∃ lexemes text, Prints .line cmd lexemes ∧ Spaced lexemes text) ∧
    ∀ lexemes text, Prints .line cmd lexemes → Spaced lexemes text →
      ∀ fuel, 4 * text.length + 6 ≤ fuel →
        ∃ tree buffer, parsecmd fuel text = .ok (tree, buffer) ∧ tree.read buffer = cmd := by
  constructor
  · rcases exists_prints formed with ⟨lexemes, printed⟩
    exact ⟨lexemes, layout lexemes, .simple printed, spaced_layout lexemes⟩
  · intro lexemes text printed spaced fuel enough
    have here : At text 0 (lexemes ++ []) := by
      rw [List.append_nil]
      exact ⟨Nat.zero_le _, spaced⟩
    have ok : ∀ lexeme ∈ lexemes ++ [], lexeme.Ok := by
      rw [List.append_nil]
      exact printed.ok
    have short := spaced.length_le printed.ok
    have enoughFuel : 4 * lexemes.length + 6 ≤ fuel := by omega
    rcases printed.parses here ok (Or.inl rfl) enoughFuel with ⟨tree, s, parsed, atEnd, reads⟩
    have stored := reads.stored kept_append
    refine ⟨tree, nulterminate tree (text ++ ['\x00']), ?_,
      stored.reads _ stored.kept fun _ zero => zero⟩
    simp [parsecmd, parsed, peek_nil atEnd, bind, Except.bind, pure, Except.pure]

theorem parsecmd_of_pipeline :
    ∃ tree buffer, parsecmd 200 " ( a | b > f ) ; ( c & )".toList = .ok (tree, buffer) ∧
      tree.read buffer = .list (.pipe (.exec [['a']]) (.redir (.exec [['b']]) ['f'] .output))
        (.back (.exec [['c']])) := by
  have isWord : ∀ c : Char, inWord c = true → IsWord [c] := by
    intro c isChar
    exact ⟨by simp, by simpa using isChar⟩
  have word : ∀ c : Char, inWord c = true → Prints .operand (.exec [[c]]) [.word [c]] := by
    intro c isChar
    have few : [[c]].length < MAXARGS := show 1 < MAXARGS by decide
    exact .exec few (by simpa using isWord c isChar) .nil
  have second : Prints .operand (.redir (.exec [['b']]) ['f'] .output)
      [.word ['b'], .output, .word ['f']] :=
    .exec (by decide) (by simpa using isWord 'b' (by decide))
      (.output (isWord 'f' (by decide)) .nil)
  have whole := Prints.list (.block (.pipe (word 'a' (by decide)) second) .nil)
    (.block (.back (word 'c' (by decide))) .nil)
  have isText : " ( a | b > f ) ; ( c & )".toList = layout [.opening, .word ['a'], .bar, .word ['b'],
      .output, .word ['f'], .closing, .semi, .opening, .word ['c'], .amp, .closing] := by decide
  rw [isText]
  refine (parsecmd_printed _ ?_).2 _ _ whole (spaced_layout _) 200 (by decide)
  exact ⟨⟨⟨by decide, by simpa using isWord 'a' (by decide)⟩,
    ⟨by decide, by simpa using isWord 'b' (by decide)⟩, isWord 'f' (by decide)⟩,
    by decide, by simpa using isWord 'c' (by decide)⟩

end Xv6.Shell
