import Xv6.Console.Print

/-!
# Printing by user programs

`printint` and `printf` of `printf.c`, as functions to the characters they write. Where `cprintf`
looks one character ahead, `printf` is a machine with two states; both expand a format in the same
way, but for `%c` and for the letters of hexadecimal digits.
-/

namespace Xv6.User

open Console (Word Arg)

def digits : List Char := "0123456789ABCDEF".toList

/-- The loop of `printint`, lowest digit first, as in `Console.printintLoop`. -/
def printintLoop (base : ℕ) : ℕ → ℕ → List Char
  | 0, _ => []
  | fuel + 1, x =>
      digits[x % base]?.toList ++ if x / base = 0 then [] else printintLoop base fuel (x / base)

def printint (xx : Word) (base : ℕ) (sgn : Bool) : List Char :=
  let neg := sgn && xx.msb
  let x := if neg then (-xx).toNat else xx.toNat
  let buf := printintLoop base 32 x
  (if neg then buf ++ ['-'] else buf).reverse

/-- The loop of `printf`, with `true` for the state `'%'`; there is no result if an argument is
missing or of the wrong kind. -/
def printfLoop : Bool → List Char → List Arg → Option (List Char)
  | _, [], _ => some []
  | false, c :: fmt, args =>
      if c = '%' then printfLoop true fmt args else (printfLoop false fmt args).map (c :: ·)
  | true, c :: fmt, args =>
      if c = 'd' then
        match args with
        | .word xx :: args => (printfLoop false fmt args).map (printint xx 10 true ++ ·)
        | _ => none
      else if c = 'x' ∨ c = 'p' then
        match args with
        | .word xx :: args => (printfLoop false fmt args).map (printint xx 16 false ++ ·)
        | _ => none
      else if c = 's' then
        match args with
        | .text s :: args => (printfLoop false fmt args).map (s.getD "(null)".toList ++ ·)
        | _ => none
      else if c = 'c' then
        match args with
        | .word xx :: args => (printfLoop false fmt args).map (Char.ofNat (xx.toNat % 256) :: ·)
        | _ => none
      else if c = '%' then (printfLoop false fmt args).map (c :: ·)
      else (printfLoop false fmt args).map ('%' :: c :: ·)

def printf (fmt : List Char) (args : List Arg) : Option (List Char) := printfLoop false fmt args

/-! ## What a format stands for -/

/-- What a directive stands for, and the arguments left, where `hex` writes hexadecimal numbers. -/
def directive (hex : ℕ → List Char) (c : Char) (args : List Arg) :
    Option (List Char × List Arg) :=
  match c, args with
  | 'd', .word xx :: args => some (Console.decimal xx.toInt, args)
  | 'x', .word xx :: args | 'p', .word xx :: args => some (hex xx.toNat, args)
  | 's', .text s :: args => some (s.getD "(null)".toList, args)
  | 'd', _ | 'x', _ | 'p', _ | 's', _ => none
  | '%', args => some (['%'], args)
  | c, args => some (['%', c], args)

/-- The text of a format: plain characters stand for themselves. -/
def formatted (hex : ℕ → List Char) : List Char → List Arg → Option (List Char)
  | [], _ | ['%'], _ => some []
  | '%' :: c :: fmt, args =>
      (directive hex c args).bind fun (text, args) => (formatted hex fmt args).map (text ++ ·)
  | c :: fmt, args => (formatted hex fmt args).map (c :: ·)

/-- No directive of the format is `%c`. -/
def NoChar : List Char → Prop
  | [] | ['%'] => True
  | '%' :: c :: fmt => c ≠ 'c' ∧ NoChar fmt
  | _ :: fmt => NoChar fmt

def lowerHex (value : ℕ) : List Char := Nat.toDigits 16 value

def upperHex (value : ℕ) : List Char := (lowerHex value).map Char.toUpper

/-! ## Both formatters expand a format -/

theorem printintLoop_map {base : ℕ} {f : Char → Char} (positive : 0 < base)
    (same : ∀ d < base, digits[d]? = Console.digits[d]?.map f) (fuel x : ℕ) :
    printintLoop base fuel x = (Console.printintLoop base fuel x).map f := by
  induction fuel generalizing x with
  | zero => rfl
  | succ fuel ih =>
      rw [printintLoop, Console.printintLoop, same _ (Nat.mod_lt x positive), ih]
      split <;> cases Console.digits[x % base]? <;> simp

theorem printint_ten (xx : Word) : printint xx 10 true = Console.printint xx 10 true := by
  have same : ∀ d < 10, digits[d]? = Console.digits[d]?.map id := by decide
  simp only [printint, printintLoop_map (by omega) same, List.map_id]
  rfl

theorem console_printint_hex (xx : Word) : Console.printint xx 16 false = lowerHex xx.toNat :=
  Console.printintLoop_eq (by omega) (by omega) 32 xx.toNat xx.isLt (by omega)

theorem printint_hex (xx : Word) : printint xx 16 false = upperHex xx.toNat := by
  have same : ∀ d < 16, digits[d]? = Console.digits[d]?.map Char.toUpper := by decide
  rw [upperHex, ← console_printint_hex]
  simp [printint, Console.printint, printintLoop_map (by omega) same]

theorem cprintf_eq_formatted (fmt : List Char) (args : List Arg) :
    Console.cprintf fmt args = formatted lowerHex fmt args := by
  fun_induction Console.cprintf fmt args <;>
    simp_all [formatted, directive, Console.printint_decimal, console_printint_hex]

theorem printfLoop_eq_formatted (fmt : List Char) (args : List Arg) (noChar : NoChar fmt) :
    printfLoop false fmt args = formatted upperHex fmt args := by
  fun_induction formatted upperHex fmt args with
  | case1 args => rfl
  | case2 args => rfl
  | case3 c fmt args ih =>
      simp only [NoChar] at noChar
      have rest : ∀ args, printfLoop false fmt args = formatted upperHex fmt args := by
        intro args
        apply ih _ noChar.2
      simp only [printfLoop, if_true, rest]
      by_cases isD : c = 'd'
      · subst isD
        rcases args with _ | ⟨_ | _, args⟩ <;>
          simp [directive, printint_ten, Console.printint_decimal]
      by_cases isX : c = 'x' ∨ c = 'p'
      · rcases isX with rfl | rfl <;> rcases args with _ | ⟨_ | _, args⟩ <;>
          simp [directive, printint_hex]
      by_cases isS : c = 's'
      · subst isS
        rcases args with _ | ⟨_ | _, args⟩ <;> simp [directive]
      by_cases isPercent : c = '%'
      · simp [isPercent, directive]
      · simp_all [directive]
  | case4 c fmt args notLast notPercent ih =>
      have plain : c ≠ '%' := by
        rintro rfl
        cases fmt with
        | nil => exact notLast rfl rfl
        | cons c fmt => exact notPercent c fmt rfl rfl
      simp_all [NoChar, printfLoop]

/-- The array `buf` of `printint` has place for the digits of a word and a sign. -/
theorem console_printint_length {base : ℕ} (ten : 10 ≤ base) (sixteen : base ≤ 16) (xx : Word)
    (sign : Bool) : (Console.printint xx base sign).length ≤ 16 := by
  have loop : ∀ y : Word, (Console.printintLoop base 32 y.toNat).length ≤ 10 := by
    intro y
    have enough : y.toNat < base ^ 10 := by
      calc y.toNat < 10 ^ 10 := by omega
        _ ≤ base ^ 10 := Nat.pow_le_pow_left ten 10
    rw [← List.length_reverse, Console.printintLoop_eq (by omega) sixteen 32 _ y.isLt (by omega)]
    exact Nat.toDigits_length base _ 10 (by omega) enough
  have positive := loop xx
  have negative := loop (-xx)
  by_cases isNegative : (sign && xx.msb) = true
  · simp only [Console.printint, if_pos isNegative, List.length_reverse, List.length_append,
      List.length_singleton]
    omega
  · simp only [Console.printint, if_neg isNegative, List.length_reverse]
    omega

/-- `cprintf` and `printf` write the same text, with small and with large letters in hexadecimal
numbers. -/
theorem formatters_agree (fmt : List Char) (args : List Arg) (noChar : NoChar fmt) :
    Console.cprintf fmt args = formatted lowerHex fmt args ∧
      printf fmt args = formatted upperHex fmt args ∧
      ∀ xx : Word, ((Console.printint xx 10 true).length ≤ 16 ∧
        (Console.printint xx 16 false).length ≤ 16) ∧
        (printint xx 10 true).length ≤ 16 ∧ (printint xx 16 false).length ≤ 16 := by
  refine ⟨cprintf_eq_formatted fmt args, printfLoop_eq_formatted fmt args noChar, ?_⟩
  intro xx
  have ten := console_printint_length (le_refl 10) (by omega) xx true
  have sixteen := console_printint_length (by omega) (le_refl 16) xx false
  refine ⟨⟨ten, sixteen⟩, printint_ten xx ▸ ten, ?_⟩
  rw [printint_hex, upperHex, List.length_map, ← console_printint_hex]
  exact sixteen

theorem formatters_agree_least :
    Console.cprintf "%d %x%%%y".toList [.word (BitVec.intMin 32), .word 171] =
        some "-2147483648 ab%%y".toList ∧
      printf "%d %x%%%y".toList [.word (BitVec.intMin 32), .word 171] =
        some "-2147483648 AB%%y".toList := by
  have agree := formatters_agree "%d %x%%%y".toList [.word (BitVec.intMin 32), .word 171]
    (by simp [NoChar])
  rw [agree.1, agree.2.1]
  decide

end Xv6.User
