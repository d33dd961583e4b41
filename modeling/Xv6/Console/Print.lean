import Mathlib

/-!
# Printing to the console

`printint` and `cprintf` of `console.c`, as functions to the characters they hand to `consputc`.
-/

namespace Xv6.Console

abbrev Word := BitVec 32

/-- An argument of `cprintf`: a word, or the string that a pointer points to. -/
inductive Arg where
  | word (value : Word)
  | text (string : Option (List Char))
  deriving DecidableEq

def digits : List Char := "0123456789abcdef".toList

/-- The loop of `printint`, lowest digit first. A word has at most 32 digits in any base. -/
def printintLoop (base : ℕ) : ℕ → ℕ → List Char
  | 0, _ => []
  | fuel + 1, x =>
      digits[x % base]?.toList ++ if x / base = 0 then [] else printintLoop base fuel (x / base)

def printint (xx : Word) (base : ℕ) (sign : Bool) : List Char :=
  let negative := sign && xx.msb
  let x := if negative then (-xx).toNat else xx.toNat
  let buf := printintLoop base 32 x
  (if negative then buf ++ ['-'] else buf).reverse

/-- `cprintf`; there is no result if an argument is missing or of the wrong kind. -/
def cprintf : List Char → List Arg → Option (List Char)
  | [], _ => some []
  | '%' :: [], _ => some []
  | '%' :: 'd' :: fmt, .word xx :: args => (cprintf fmt args).map (printint xx 10 true ++ ·)
  | '%' :: 'x' :: fmt, .word xx :: args => (cprintf fmt args).map (printint xx 16 false ++ ·)
  | '%' :: 'p' :: fmt, .word xx :: args => (cprintf fmt args).map (printint xx 16 false ++ ·)
  | '%' :: 's' :: fmt, .text s :: args =>
      (cprintf fmt args).map (s.getD "(null)".toList ++ ·)
  | '%' :: 'd' :: _, _ => none
  | '%' :: 'x' :: _, _ => none
  | '%' :: 'p' :: _, _ => none
  | '%' :: 's' :: _, _ => none
  | '%' :: '%' :: fmt, args => (cprintf fmt args).map ('%' :: ·)
  | '%' :: c :: fmt, args => (cprintf fmt args).map ('%' :: c :: ·)
  | c :: fmt, args => (cprintf fmt args).map (c :: ·)

def decimal (value : ℤ) : List Char := (toString value).toList

theorem digits_getElem {d : ℕ} (isDigit : d < 16) : digits[d]? = some (Nat.digitChar d) := by
  interval_cases d <;> rfl

theorem printintLoop_eq {base : ℕ} (two : 2 ≤ base) (sixteen : base ≤ 16) (fuel x : ℕ)
    (enough : x < 2 ^ fuel) (started : 0 < fuel) :
    (printintLoop base fuel x).reverse = Nat.toDigits base x := by
  induction fuel generalizing x with
  | zero => contradiction
  | succ fuel ih =>
      have digit : x % base < 16 := (Nat.mod_lt x (by omega)).trans_le sixteen
      simp only [printintLoop, digits_getElem digit, Option.toList_some]
      by_cases small : x < base
      · rw [if_pos (Nat.div_eq_of_lt small), Nat.mod_eq_of_lt small, Nat.toDigits_of_lt_base small]
        rfl
      · have more : x / base ≠ 0 := (Nat.div_pos (by omega) (by omega)).ne'
        have shorter : x / base < 2 ^ fuel := by
          apply Nat.div_lt_of_lt_mul
          calc x < 2 ^ fuel * 2 := by rwa [← Nat.pow_succ]
            _ ≤ base * 2 ^ fuel := by
              rw [Nat.mul_comm]
              exact Nat.mul_le_mul_right _ two
        have again : 0 < fuel := by
          rcases Nat.eq_zero_or_pos fuel with rfl | positive
          · omega
          · exact positive
        rw [if_neg more, List.reverse_append, ih (x / base) shorter again,
          Nat.toDigits_of_base_le (by omega) (not_lt.mp small)]
        rfl

theorem printint_decimal (xx : Word) : printint xx 10 true = decimal xx.toInt := by
  have loop : ∀ y : Word, (printintLoop 10 32 y.toNat).reverse = Nat.toDigits 10 y.toNat :=
    fun y => printintLoop_eq (by omega) (by omega) 32 y.toNat y.isLt (by omega)
  have value := xx.toInt_eq_msb_cond
  have shown : decimal xx.toInt = (Int.repr xx.toInt).toList := rfl
  rw [shown, Int.repr_eq_if]
  cases sign : xx.msb with
  | false =>
      simp only [sign, Bool.false_eq_true, if_false] at value
      have positive : 0 ≤ xx.toInt := by omega
      simp [printint, sign, loop, value, Nat.toList_repr]
  | true =>
      simp only [sign, if_true] at value
      have bound := xx.isLt
      have high : 2 ^ 31 ≤ xx.toNat := by simpa [BitVec.msb_eq_decide] using sign
      have negative : ¬0 ≤ xx.toInt := by omega
      have magnitude : (-xx.toInt).toNat = (-xx).toNat := by
        rw [BitVec.toNat_neg]
        omega
      simp [-BitVec.toNat_neg, printint, sign, loop, negative, magnitude, Nat.toList_repr]

theorem cprintf_append {text : List Char} (plain : '%' ∉ text) (fmt : List Char) (args : List Arg) :
    cprintf (text ++ fmt) args = (cprintf fmt args).map (text ++ ·) := by
  induction text with
  | nil => simp
  | cons c text ih =>
      rw [List.mem_cons, not_or] at plain
      have different : c ≠ '%' := fun same => plain.1 same.symm
      rw [List.cons_append, cprintf, ih plain.2, Option.map_map]
      · rfl
      all_goals simp [different]

theorem cprintf_decimal (xx : Word) (fmt : List Char) (args : List Arg) :
    cprintf ('%' :: 'd' :: fmt) (.word xx :: args) =
      (cprintf fmt args).map (decimal xx.toInt ++ ·) := by
  rw [cprintf, printint_decimal]

end Xv6.Console
