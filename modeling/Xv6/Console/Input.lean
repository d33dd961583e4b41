import Mathlib

/-!
# Input from the console

`console.c` from `consoleintr` on: the ring of input bytes with the line that is being edited at its
end, and the history of command lines. A result of `none` is an access outside of an array. What is
printed on the screen is not modelled; a beep leaves the state as it is. The two totals of the history
are of type `int`, and counting them beyond that type is not modelled.
-/

namespace Xv6.Console

abbrev INPUT_BUF : ℕ := 128

abbrev HIST_SIZE : ℕ := 15

instance : NeZero HIST_SIZE := ⟨by decide⟩

/-- `input`; only indices of `buf` below `INPUT_BUF` are used. -/
structure Input where
  buf : ℕ → UInt8
  r : UInt32
  w : UInt32
  e : UInt32

abbrev Line := Fin INPUT_BUF → UInt8

/-- `hist`. The two indices are always taken modulo `HIST_SIZE`. -/
structure Hist where
  queueIdx : Fin HIST_SIZE
  cmdBuf : Fin HIST_SIZE → Line
  lastUsedIdx : UInt32
  lastArrowIdx : Fin HIST_SIZE
  isSuggestionUsed : Bool
  originalCmd : Line
  originalCmdSize : ℕ
  totalCount : ℤ
  lastArrowTotal : ℤ

structure State where
  input : Input
  hist : Hist

/-- The string in an array: the bytes before the first zero. -/
def cstr (s : Line) : List UInt8 := (List.ofFn s).takeWhile (· ≠ 0)

/-- The array that starts with some bytes and is zero behind them. -/
def padded (bytes : List UInt8) : Line := fun i => bytes.getD i 0

namespace Input

/-- `input.buf[input.e++ % INPUT_BUF] = c`. -/
def put (input : Input) (c : UInt8) : Input :=
  { input with
    buf := Function.update input.buf (input.e.toNat % INPUT_BUF) c
    e := input.e + 1 }

/-- The number of bytes of the line, `input.e - input.w`. -/
def size (input : Input) : ℕ := (input.e - input.w).toNat

def consputs (input : Input) (s : List UInt8) : Input := s.foldl put input

/-- The loop of `consclear`; the line has as many bytes as the first argument says. -/
def clearLoop : ℕ → Input → Input
  | 0, input => input
  | fuel + 1, input =>
      if input.e ≠ input.w ∧ input.buf ((input.e - 1).toNat % INPUT_BUF) ≠ 10 then
        clearLoop fuel { input with e := input.e - 1 }
      else input

def consclear (input : Input) : Input := clearLoop input.size input

/-- The bytes that `memmove` reads from `input.buf + input.w`, if they are all in the array. -/
def slice (input : Input) (n : ℕ) : Option (List UInt8) :=
  if n = 0 ∨ input.w.toNat + n ≤ INPUT_BUF then
    some ((List.range n).map fun i => input.buf (input.w.toNat + i))
  else none

end Input

/-! ## History -/

/-- `strncmp(p, q, n) == 0`, for arrays of `INPUT_BUF` bytes. -/
def strncmpZero (p q : ℕ → UInt8) : ℕ → Bool
  | 0 => true
  | n + 1 =>
      if p 0 ≠ 0 ∧ p 0 = q 0 then strncmpZero (fun i => p (i + 1)) (fun i => q (i + 1)) n
      else p 0 = q 0

/-- The bytes of an array; none of those behind its end is used. -/
def Line.byte (s : Line) (i : ℕ) : UInt8 := if inside : i < INPUT_BUF then s ⟨i, inside⟩ else 0

namespace Hist

/-- The slot that is tried in an iteration of the loop of `get_suggestion`. -/
def candidate (hist : Hist) (i : ℕ) : Fin HIST_SIZE :=
  ⟨(UInt32.ofNat i + hist.lastUsedIdx).toNat % HIST_SIZE, Nat.mod_lt _ (by decide)⟩

def isMatch (hist : Hist) (cmd : Line) (cmdSize : ℕ) (idx : Fin HIST_SIZE) : Bool :=
  strncmpZero cmd.byte (hist.cmdBuf idx).byte cmdSize

def getSuggestion (hist : Hist) (cmd : Line) (cmdSize : ℕ) : Option (Fin HIST_SIZE) :=
  ((List.range HIST_SIZE).map hist.candidate).find? (hist.isMatch cmd cmdSize)

def slot (k : ℕ) : Fin HIST_SIZE := ⟨k % HIST_SIZE, Nat.mod_lt _ (by decide)⟩

/-- The stores of `push_current_hist`. -/
def push (hist : Hist) (cmd : List UInt8) : Hist :=
  let next := slot (hist.queueIdx + 1)
  { hist with
    cmdBuf := Function.update hist.cmdBuf hist.queueIdx (padded cmd)
    queueIdx := next
    lastArrowIdx := next
    totalCount := hist.totalCount + 1
    lastArrowTotal := hist.totalCount + 1
    isSuggestionUsed := false
    lastUsedIdx := 0
    originalCmd := fun _ => 0 }

end Hist

namespace State

/-- `consclear` and then `consputs` of a string. -/
def replace (s : State) (line : List UInt8) : Input := s.input.consclear.consputs line

/-- The line as it is at the first of several suggestions; `hist.original_cmd` has `INPUT_BUF` bytes. -/
def capture (s : State) : Option Hist :=
  if s.hist.isSuggestionUsed then some s.hist
  else do
    let cmd ← s.input.slice s.input.size
    if cmd.length ≤ INPUT_BUF then
      return { s.hist with
        originalCmdSize := s.input.size
        originalCmd := fun i => cmd.getD i (s.hist.originalCmd i) }
    else none

def suggestCmd (s : State) : Option State := do
  let hist ← s.capture
  match hist.getSuggestion hist.originalCmd hist.originalCmdSize with
  | some idx =>
      return { input := s.replace (cstr (hist.cmdBuf idx))
               hist := { hist with isSuggestionUsed := true, lastUsedIdx := UInt32.ofNat idx.val + 1 } }
  | none => return { s with hist := hist }

def pushCurrentHist (s : State) : Option State :=
  if s.input.size = 1 then some s
  else do
    let cmd ← s.input.slice (s.input.e - s.input.w - 1).toNat
    if cmd.length ≤ INPUT_BUF then return { s with hist := s.hist.push cmd } else none

def histUp (s : State) : State :=
  if 0 < s.hist.lastArrowTotal ∧ s.hist.totalCount - HIST_SIZE < s.hist.lastArrowTotal then
    let idx := Hist.slot (s.hist.lastArrowIdx + (HIST_SIZE - 1))
    { input := s.replace (cstr (s.hist.cmdBuf idx))
      hist := { s.hist with lastArrowTotal := s.hist.lastArrowTotal - 1, lastArrowIdx := idx } }
  else s

def histDown (s : State) : State :=
  if s.hist.lastArrowTotal < s.hist.totalCount then
    let idx := Hist.slot (s.hist.lastArrowIdx + 1)
    { input := s.replace (cstr (s.hist.cmdBuf idx))
      hist := { s.hist with lastArrowTotal := s.hist.lastArrowTotal + 1, lastArrowIdx := idx } }
  else s

/-! ## Editing the line -/

/-- The loop of `revstr`, with its two indices; as many iterations as the string has bytes are enough. -/
def revLoop : ℕ → ℕ → ℕ → (ℕ → UInt8) → ℕ → UInt8
  | 0, _, _, src => src
  | fuel + 1, i, j, src =>
      if i < j then
        revLoop fuel (i + 1) (j - 1) (Function.update (Function.update src i (src j)) j (src i))
      else src

def revstr (src : ℕ → UInt8) (len : ℕ) : ℕ → UInt8 := revLoop len 0 (len - 1) src

/-- The local array is of `INPUT_BUF` bytes; those behind the zero at its end are not used. -/
def revline (s : State) : Option State := do
  let cmd ← s.input.slice s.input.size
  if cmd.length < INPUT_BUF then
    let bytes := revstr (fun i => cmd.getD i 0) s.input.size
    return { s with input := s.replace (cstr fun i => bytes i) }
  else none

def isDigit (c : UInt8) : Bool := 48 ≤ c && c ≤ 57

/-- The loop of `remnums` goes round the ring, as the other functions do not. -/
def remnums (s : State) : Option State :=
  let line := (List.range s.input.size).map fun i =>
    s.input.buf ((s.input.w + UInt32.ofNat i).toNat % INPUT_BUF)
  let cmd := line.filter fun c => !isDigit c
  if cmd.length < INPUT_BUF then some { s with input := s.replace (cstr (padded cmd)) } else none

def backspace (s : State) : State :=
  if s.input.e ≠ s.input.w then
    { input := { s.input with e := s.input.e - 1 }, hist := { s.hist with isSuggestionUsed := false } }
  else s

/-- The default case, once there is room for the character. -/
def store (s : State) (c : UInt8) : Option State :=
  let s := { s with input := s.input.put c }
  if c = 10 ∨ c = 4 ∨ s.input.e = s.input.r + 128 then
    s.pushCurrentHist.map fun s => { s with input := { s.input with w := s.input.e } }
  else some s

/-- The character that is stored, for one that was read or for the -1 of `getc`. -/
def charOf (c : Option UInt8) : UInt8 := if c = some 13 then 10 else c.getD 255

def insert (s : State) (c : Option UInt8) : Option State :=
  if c ≠ some 0 ∧ (s.input.e - s.input.r).toNat < INPUT_BUF then s.store (charOf c) else some s

end State

/-! ## Keys -/

/-- What an iteration of the loop of `consoleintr` reads: a byte, an arrow, or another sequence that begins
with ESC, or with ESC and `[`, and the byte behind that, if there is one. -/
inductive Key where
  | byte (c : UInt8)
  | up
  | down
  | escape (c : Option UInt8)
  | bracket (c : Option UInt8)
  deriving DecidableEq

def State.key (s : State) : Key → Option State
  | .up => some s.histUp
  | .down => some s.histDown
  | .escape c => { s with input := s.input.put 27 }.insert c
  | .bracket c => { s with input := (s.input.put 27).put 91 }.insert c
  | .byte c =>
      if c = 16 then some s
      else if c = 21 then some { s with input := s.input.consclear }
      else if c = 8 ∨ c = 127 then some s.backspace
      else if c = 18 then s.revline
      else if c = 14 then s.remnums
      else if c = 9 then s.suggestCmd
      else s.insert (some c)

/-- The bytes that `getc` yields, as the loop reads them. -/
def keys : List UInt8 → List Key
  | [] => []
  | c :: cs =>
      if c ≠ 27 then .byte c :: keys cs
      else
        match cs with
        | [] => [.escape none]
        | c₁ :: cs₁ =>
            if c₁ ≠ 91 then .escape (some c₁) :: keys cs₁
            else
              match cs₁ with
              | [] => [.bracket none]
              | c₂ :: cs₂ =>
                  (if c₂ = 65 then .up else if c₂ = 66 then .down else .bracket (some c₂)) :: keys cs₂

def consoleintr (bytes : List UInt8) (s : State) : Option State := (keys bytes).foldlM State.key s

/-! ## Reading -/

/-- A call of `consoleread`: the number of bytes asked for, and those it has got. -/
structure Reader where
  target : ℕ
  got : List UInt8

/-- An iteration of the loop of `consoleread`, and whether it is the last one. Without a byte to read the
process sleeps. -/
def Input.readByte (input : Input) (reader : Reader) : Option (Input × Reader × Bool) :=
  if input.r = input.w then none
  else
    let c := input.buf (input.r.toNat % INPUT_BUF)
    if c = 4 then
      if reader.got.length = 0 then some ({ input with r := input.r + 1 }, reader, true)
      else some (input, reader, true)
    else
      let reader := { reader with got := reader.got ++ [c] }
      some ({ input with r := input.r + 1 }, reader,
        c = 10 || reader.got.length = reader.target)

/-- As the loader leaves it: all bytes zero. -/
def boot : State where
  input := { buf := fun _ => 0, r := 0, w := 0, e := 0 }
  hist :=
    { queueIdx := 0, cmdBuf := fun _ _ => 0, lastUsedIdx := 0, lastArrowIdx := 0
      isSuggestionUsed := false, originalCmd := fun _ => 0, originalCmdSize := 0
      totalCount := 0, lastArrowTotal := 0 }

end Xv6.Console
