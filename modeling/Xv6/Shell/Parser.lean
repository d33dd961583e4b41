import Mathlib

/-!
# The parser of the shell

`sh.c` parses a line with a cursor and six functions that call each other. Pointers into the line
are positions; the words of a parsed command are pairs of pointers, until `nulterminate` stores a
zero at the end of each.
-/

namespace Xv6.Shell

abbrev MAXARGS : ℕ := 10

def whitespace : List Char := " \t\r\n\x0b".toList

def symbols : List Char := "<|>&;()".toList

/-- `strchr`. A zero, which ends the line in memory and so is no character of it, counts as found here; the
source's function does not find it. -/
def strchr (s : List Char) (c : Char) : Bool := c = '\x00' || s.contains c

def inWord (c : Char) : Bool := !strchr whitespace c && !strchr symbols c

/-- What a redirection does: `<`, or `>` and `>>`, which open the file in the same way. -/
inductive Direction where
  | input
  | output
  deriving DecidableEq, Repr

/-- The mode and the descriptor of `struct redircmd`. -/
def Direction.mode : Direction → ℕ
  | .input => 0x000
  | .output => 0x001 ||| 0x200

def Direction.fd : Direction → ℕ
  | .input => 0
  | .output => 1

/-- `struct cmd`, with words and file names of some type. -/
inductive Cmd (α : Type) where
  | exec (argv : List α)
  | redir (cmd : Cmd α) (file : α) (direction : Direction)
  | pipe (left right : Cmd α)
  | list (left right : Cmd α)
  | back (cmd : Cmd α)
  deriving DecidableEq, Repr

/-- The pointers `q` and `eq` to the ends of a word. -/
structure Token where
  q : ℕ
  eq : ℕ
  deriving DecidableEq, Repr

/-- Why there is no command: a panic with its message, or a loop that has not ended. -/
inductive ParseError where
  | panic (message : String)
  | stillRunning
  deriving DecidableEq, Repr

section

variable (line : List Char)

/-- `while(s < es && strchr(whitespace, *s)) s++;` -/
def skip (s : ℕ) : ℕ := s + ((line.drop s).takeWhile (strchr whitespace)).length

/-- `gettoken`: what it returns, the pointers `q` and `eq`, and the cursor. -/
def gettoken (s : ℕ) : Char × Token × ℕ :=
  let q := skip line s
  match (line)[q]? with
  | none => ('\x00', ⟨q, q⟩, skip line q)
  | some c =>
      if c = '|' ∨ c = '(' ∨ c = ')' ∨ c = ';' ∨ c = '&' ∨ c = '<' then
        (c, ⟨q, q + 1⟩, skip line (q + 1))
      else if c = '>' then
        if (line)[q + 1]? = some '>' then ('+', ⟨q, q + 2⟩, skip line (q + 2))
        else ('>', ⟨q, q + 1⟩, skip line (q + 1))
      else
        let eq := q + ((line.drop q).takeWhile inWord).length
        ('a', ⟨q, eq⟩, skip line eq)

def peek (s : ℕ) (toks : List Char) : Bool × ℕ :=
  let s := skip line s
  match (line)[s]? with
  | none => (false, s)
  | some c => (strchr toks c, s)

/-- The redirections at the cursor, in the order in which `parseredirs` wraps the command. -/
def parseredirs : ℕ → ℕ → Except ParseError (List (Token × Direction) × ℕ)
  | 0, _ => .error .stillRunning
  | fuel + 1, s =>
      let (more, s) := peek line s ['<', '>']
      if more then
        let (tok, _, s) := gettoken line s
        let (kind, file, s) := gettoken line s
        if kind ≠ 'a' then .error (.panic "missing file for redirection")
        else do
          let (redirs, s) ← parseredirs fuel s
          return ((file, if tok = '<' then .input else .output) :: redirs, s)
      else return ([], s)

/-- `redircmd` for each of the redirections. -/
def wrap {α : Type} (cmd : Cmd α) (redirs : List (α × Direction)) : Cmd α :=
  redirs.foldl (fun cmd redir => .redir cmd redir.1 redir.2) cmd

/-- The loop of `parseexec`: the words from number `argc` on, and the redirections between them.
The command is filled in after it has been wrapped. -/
def parseargs : ℕ → ℕ → ℕ → Except ParseError ((List Token × List (Token × Direction)) × ℕ)
  | 0, _, _ => .error .stillRunning
  | fuel + 1, argc, s =>
      let (stop, s) := peek line s ['|', ')', '&', ';']
      if stop then return (([], []), s)
      else
        let (tok, arg, s) := gettoken line s
        if tok = '\x00' then return (([], []), s)
        else if tok ≠ 'a' then .error (.panic "syntax")
        else if argc + 1 ≥ MAXARGS then .error (.panic "too many args")
        else do
          let (redirs, s) ← parseredirs line fuel s
          let ((args, more), s) ← parseargs fuel (argc + 1) s
          return ((arg :: args, redirs ++ more), s)

def parseback : ℕ → Cmd Token → ℕ → Except ParseError (Cmd Token × ℕ)
  | 0, _, _ => .error .stillRunning
  | fuel + 1, cmd, s =>
      let (more, s) := peek line s ['&']
      if more then
        let (_, _, s) := gettoken line s
        parseback fuel (.back cmd) s
      else return (cmd, s)

mutual

def parseline : ℕ → ℕ → Except ParseError (Cmd Token × ℕ)
  | 0, _ => .error .stillRunning
  | fuel + 1, s => do
      let (cmd, s) ← parsepipe fuel s
      let (cmd, s) ← parseback line fuel cmd s
      let (more, s) := peek line s [';']
      if more then
        let (_, _, s) := gettoken line s
        let (right, s) ← parseline fuel s
        return (.list cmd right, s)
      else return (cmd, s)

def parsepipe : ℕ → ℕ → Except ParseError (Cmd Token × ℕ)
  | 0, _ => .error .stillRunning
  | fuel + 1, s => do
      let (cmd, s) ← parseexec fuel s
      let (more, s) := peek line s ['|']
      if more then
        let (_, _, s) := gettoken line s
        let (right, s) ← parsepipe fuel s
        return (.pipe cmd right, s)
      else return (cmd, s)

def parseexec : ℕ → ℕ → Except ParseError (Cmd Token × ℕ)
  | 0, _ => .error .stillRunning
  | fuel + 1, s =>
      let (block, s) := peek line s ['(']
      if block then parseblock fuel s
      else do
        let (redirs, s) ← parseredirs line fuel s
        let ((args, more), s) ← parseargs line fuel 0 s
        return (wrap (.exec args) (redirs ++ more), s)

def parseblock : ℕ → ℕ → Except ParseError (Cmd Token × ℕ)
  | 0, _ => .error .stillRunning
  | fuel + 1, s =>
      let (block, s) := peek line s ['(']
      if !block then .error (.panic "parseblock")
      else do
        let (_, _, s) := gettoken line s
        let (cmd, s) ← parseline fuel s
        let (closed, s) := peek line s [')']
        if !closed then .error (.panic "syntax - missing )")
        else
          let (_, _, s) := gettoken line s
          let (redirs, s) ← parseredirs line fuel s
          return (wrap cmd redirs, s)

end

end

/-- `nulterminate`: store a zero at the end of each word. -/
def nulterminate : Cmd Token → List Char → List Char
  | .exec argv, buffer => argv.foldl (fun buffer arg => buffer.set arg.eq '\x00') buffer
  | .redir cmd file _, buffer => (nulterminate cmd buffer).set file.eq '\x00'
  | .pipe left right, buffer => nulterminate right (nulterminate left buffer)
  | .list left right, buffer => nulterminate right (nulterminate left buffer)
  | .back cmd, buffer => nulterminate cmd buffer

/-- `parsecmd`: the command, and the line as `nulterminate` leaves it, with the zero at its end. -/
def parsecmd (fuel : ℕ) (line : List Char) : Except ParseError (Cmd Token × List Char) := do
  let (cmd, s) ← parseline line fuel 0
  let (_, s) := peek line s []
  if s ≠ line.length then .error (.panic "syntax")
  else return (cmd, nulterminate cmd (line ++ ['\x00']))

def cstring (buffer : List Char) (p : ℕ) : List Char := (buffer.drop p).takeWhile (· ≠ '\x00')

/-- The words of a command in another form. -/
def Cmd.map {α β : Type} (f : α → β) : Cmd α → Cmd β
  | .exec argv => .exec (argv.map f)
  | .redir cmd file direction => .redir (cmd.map f) (f file) direction
  | .pipe left right => .pipe (left.map f) (right.map f)
  | .list left right => .list (left.map f) (right.map f)
  | .back cmd => .back (cmd.map f)

/-- The command with its words, as they are read from the line. -/
def Cmd.read (cmd : Cmd Token) (buffer : List Char) : Cmd (List Char) :=
  cmd.map fun token => cstring buffer token.q

end Xv6.Shell
