import Xv6.User.Printf

/-!
# Listing prime numbers

`writePrimes` of `prime_numbers.c`: trial division of every odd number, in wrapping arithmetic.
From 46341 on the square of a divisor wraps. That does no harm: no divisor of a composite number is
looked for so far, and for a prime number some square is large enough before the number itself is
tried. But where the last number is the greatest one there is none that lies behind it.
-/

namespace Xv6.User

open Console (decimal)

/-- The loop that looks for a divisor `j` of `i`. -/
def isPrimeLoop (i : Int32) : ℕ → Int32 → Option Bool
  | 0, _ => none
  | fuel + 1, j =>
      if j * j ≤ i then if i % j = 0 then some false else isPrimeLoop i fuel (j + 1)
      else some true

/-- The loop over the candidates; there is no result while it runs. -/
def primesLoop (last : Int32) : ℕ → Int32 → Option (List Char)
  | 0, _ => none
  | fuel + 1, i =>
      if i ≤ last then do
        let isPrime ← isPrimeLoop i fuel 2
        let text ← if isPrime then printf "%d ".toList [.word i.toBitVec] else some []
        let rest ← primesLoop last fuel (i + 2)
        some (text ++ rest)
      else some []

def writePrimes (fuel : ℕ) (first last : Int32) : Option (List Char) :=
  let text := if first ≤ 2 ∧ 2 ≤ last then "2 ".toList else []
  let first := if first ≤ 2 then 3 else first
  let first := if first &&& 1 = 0 then first + 1 else first
  (primesLoop last fuel first).map (text ++ ·)

section Numbers

variable {n d : ℕ}

theorem ofNat_le_ofNat (small : d < 2 ^ 31) (bound : n < 2 ^ 31) :
    Int32.ofNat d ≤ Int32.ofNat n ↔ d ≤ n := by
  rw [Int32.le_iff_toInt_le, Int32.toInt_ofNat_of_lt small, Int32.toInt_ofNat_of_lt bound]
  exact Int.ofNat_le

theorem ofNat_mod_ofNat (small : d < 2 ^ 31) (bound : n < 2 ^ 31) :
    Int32.ofNat n % Int32.ofNat d = 0 ↔ d ∣ n := by
  rw [← Int32.toInt_inj, Int32.toInt_mod, Int32.toInt_ofNat_of_lt small,
    Int32.toInt_ofNat_of_lt bound]
  exact Int.dvd_iff_tmod_eq_zero.symm.trans Int.natCast_dvd_natCast

theorem and_one_eq_zero (bound : n < 2 ^ 31) : Int32.ofNat n &&& 1 = 0 ↔ n % 2 = 0 := by
  rw [← Int32.toBitVec_inj, ← BitVec.toNat_inj, Int32.toBitVec_and, BitVec.toNat_and]
  have value : (Int32.ofNat n).toBitVec.toNat = n := by
    exact Nat.mod_eq_of_lt (by omega)
  rw [value]
  exact Nat.and_one_is_mod n ▸ Iff.rfl

theorem isPrimeLoop_ofNat (small : d < 2 ^ 31) (bound : n < 2 ^ 31) (fuel : ℕ) :
    isPrimeLoop (Int32.ofNat n) (fuel + 1) (Int32.ofNat d) =
      if Int32.ofNat (d * d) ≤ Int32.ofNat n then
        if d ∣ n then some false else isPrimeLoop (Int32.ofNat n) fuel (Int32.ofNat (d + 1))
      else some true := by
  simp only [isPrimeLoop, Int32.ofNat_mul, Int32.ofNat_add, ofNat_mod_ofNat small bound]
  rfl

/-- The loop comes to `stop` with the answer there, or finds before that the number is prime. -/
theorem isPrimeLoop_stops {stop : ℕ} {answer : Bool} (bound : n < 2 ^ 31) (far : stop < 2 ^ 31)
    (before : ∀ d, 2 ≤ d → d < stop →
      ¬d ∣ n ∧ (Int32.ofNat (d * d) ≤ Int32.ofNat n ∨ answer = true))
    (found : if Int32.ofNat (stop * stop) ≤ Int32.ofNat n then stop ∣ n ∧ answer = false
      else answer = true) (gap : ℕ) :
    ∀ {fuel d}, 2 ≤ d → d + gap = stop → gap < fuel →
      isPrimeLoop (Int32.ofNat n) fuel (Int32.ofNat d) = some answer := by
  induction gap with
  | zero =>
      rintro (_ | fuel) d two isStop enough
      · contradiction
      · have isStop : d = stop := isStop
        rw [isPrimeLoop_ofNat (by omega) bound, isStop]
        split at found
        · rename_i small
          rw [if_pos small, if_pos found.1, found.2]
        · rename_i large
          rw [if_neg large, found]
  | succ gap ih =>
      rintro (_ | fuel) d two isStop enough
      · contradiction
      · rcases before d two (by omega) with ⟨notDivisor, squared⟩
        rw [isPrimeLoop_ofNat (by omega) bound, if_neg notDivisor,
          ih (by omega) (by omega) (by omega)]
        rcases squared with small | isTrue
        · rw [if_pos small]
        · rw [isTrue, ite_self]

/-- A number below a prime number whose square, as it is computed, is greater. -/
theorem exists_stop (prime : n.Prime) (odd : 3 ≤ n) (bound : n < 2 ^ 31 - 1) :
    ∃ stop, 2 ≤ stop ∧ stop < n ∧ ¬Int32.ofNat (stop * stop) ≤ Int32.ofNat n := by
  by_cases small : n < 46340 * 46340
  · refine ⟨min (n - 1) 46340, by omega, by omega, ?_⟩
    have square : min (n - 1) 46340 * min (n - 1) 46340 ≤ 46340 * 46340 :=
      Nat.mul_le_mul (min_le_right _ _) (min_le_right _ _)
    rw [ofNat_le_ofNat (by omega) (by omega), not_le]
    rcases le_total (n - 1) 46340 with below | above
    · rw [min_eq_left below]
      calc n < 2 * (n - 1) := by omega
        _ ≤ (n - 1) * (n - 1) := Nat.mul_le_mul_right _ (by omega)
    · rwa [min_eq_right above]
  · -- The greatest square below `2 ^ 31`, and no prime number in between.
    refine ⟨593968971, by omega, by omega, ?_⟩
    have square : Int32.ofNat (593968971 * 593968971) = Int32.ofNat 2147483641 := by decide
    rw [square, ofNat_le_ofNat (by omega) (by omega)]
    intro above
    have cases : n = 2147483641 ∨ n = 2147483642 ∨ n = 2147483643 ∨ n = 2147483644 ∨
        n = 2147483645 ∨ n = 2147483646 := by omega
    rcases cases with rfl | rfl | rfl | rfl | rfl | rfl <;> norm_num at prime

theorem isPrimeLoop_eq {fuel : ℕ} (odd : 3 ≤ n) (bound : n < 2 ^ 31 - 1) (enough : 2 ^ 31 ≤ fuel) :
    isPrimeLoop (Int32.ofNat n) fuel 2 = some (decide n.Prime) := by
  by_cases prime : n.Prime
  · rcases exists_stop prime odd bound with ⟨stop, two, below, large⟩
    refine @isPrimeLoop_stops n stop _ (by omega) (by omega) ?_ ?_ (stop - 2) fuel 2 (le_refl 2)
      (by omega) (by omega)
    · intro d two' smaller
      refine ⟨?_, Or.inr (decide_eq_true prime)⟩
      intro divides
      rcases (Nat.dvd_prime prime).mp divides with isOne | isAll <;> omega
    · rw [if_neg large, decide_eq_true prime]
  · have square := Nat.minFac_sq_le_self (by omega) prime
    have small : ∀ d ≤ n.minFac, Int32.ofNat (d * d) ≤ Int32.ofNat n := by
      intro d below
      have product : d * d ≤ n := (Nat.mul_le_mul below below).trans (by rwa [← sq])
      exact (ofNat_le_ofNat (by omega) (by omega)).mpr product
    have two := (Nat.minFac_prime (by omega : n ≠ 1)).two_le
    have below := Nat.minFac_le (by omega : 0 < n)
    refine @isPrimeLoop_stops n n.minFac _ (by omega) (by omega) ?_ ?_ (n.minFac - 2) fuel 2
      (le_refl 2) (by omega) (by omega)
    · intro d two' smaller
      refine ⟨?_, Or.inl (small d smaller.le)⟩
      intro divides
      exact absurd (Nat.minFac_le_of_dvd two' divides) (by omega)
    · rw [if_pos (small _ (le_refl _))]
      exact ⟨Nat.minFac_dvd n, decide_eq_false prime⟩

end Numbers

/-! ## The list -/

/-- The prime numbers from `low` to `high`, in increasing order. -/
def primesIn (low : ℕ) (high : ℤ) : List ℕ :=
  (List.range' low ((high + 1).toNat - low)).filter Nat.Prime

def written (p : ℕ) : List Char := decimal p ++ [' ']

theorem primesIn_eq (low : ℕ) (high : ℤ) :
    primesIn low high =
      (if low ≤ high ∧ low.Prime then [low] else []) ++ primesIn (low + 1) high := by
  by_cases below : low ≤ high
  · have more : (high + 1).toNat - low = (high + 1).toNat - (low + 1) + 1 := by omega
    by_cases prime : low.Prime <;>
      simp [primesIn, more, List.range'_succ, below, prime]
  · have none : (high + 1).toNat - low = 0 := by omega
    simp [primesIn, below, none, (by omega : (high + 1).toNat - (low + 1) = 0)]

theorem primesIn_step {low : ℕ} (high : ℤ) (notPrime : ¬low.Prime) :
    primesIn low high = primesIn (low + 1) high := by
  rw [primesIn_eq, if_neg fun both => notPrime both.2, List.nil_append]

theorem printf_written {n : ℕ} (bound : n < 2 ^ 31) :
    printf "%d ".toList [.word (Int32.ofNat n).toBitVec] = some (written n) := by
  have value : (Int32.ofNat n).toBitVec.toInt = n := Int32.toInt_ofNat_of_lt bound
  generalize (Int32.ofNat n).toBitVec = word at value
  simp [printf, printfLoop, printint_ten, Console.printint_decimal, value, written]

theorem primesLoop_eq {last : Int32} (notGreatest : last.toInt < 2 ^ 31 - 1) (count : ℕ) :
    ∀ {n fuel : ℕ}, 3 ≤ n → n % 2 = 1 → n < 2 ^ 31 → last.toInt < n + 2 * count →
      2 ^ 31 + count < fuel →
      primesLoop last fuel (Int32.ofNat n) = some ((primesIn n last.toInt).flatMap written) := by
  induction count with
  | zero =>
      rintro n (_ | fuel) three odd bound behind enough
      · contradiction
      · rw [primesLoop, if_neg]
        · simp [primesIn, (by omega : (last.toInt + 1).toNat - n = 0)]
        · rw [Int32.le_iff_toInt_le, Int32.toInt_ofNat_of_lt bound]
          omega
  | succ count ih =>
      rintro n (_ | fuel) three odd bound behind enough
      · contradiction
      · by_cases below : n ≤ last.toInt
        · have isBelow : Int32.ofNat n ≤ last := by
            rwa [Int32.le_iff_toInt_le, Int32.toInt_ofNat_of_lt bound]
          have even : ¬(n + 1).Prime := by
            intro prime
            have isOdd := prime.eq_two_or_odd
            omega
          have rest : primesLoop last fuel (Int32.ofNat n + 2) = _ :=
            Int32.ofNat_add n 2 ▸ ih (by omega : 3 ≤ n + 2) (by omega) (by omega) (by omega) (by omega)
          rw [primesLoop, if_pos isBelow, isPrimeLoop_eq three (by omega) (by omega), rest,
            primesIn_eq n, primesIn_step _ even]
          by_cases prime : n.Prime
          · simp only [prime, below, and_true, if_true, decide_true, printf_written bound]
            rfl
          · simp [prime]
        · exact ih three odd bound (by omega) (by omega)

theorem writePrimes_of_ne (first last : Int32) (notGreatest : last ≠ 2147483647) (fuel : ℕ)
    (enough : 2 ^ 32 ≤ fuel) :
    writePrimes fuel first last =
      some ((primesIn first.toInt.toNat last.toInt).flatMap written) := by
  have bound : last.toInt < 2 ^ 31 - 1 := by
    have limit := last.toInt_lt
    have different : last.toInt ≠ 2147483647 := fun same => notGreatest (Int32.toInt_inj.mp same)
    omega
  have loop : ∀ {n : ℕ}, 3 ≤ n → n % 2 = 1 → n < 2 ^ 31 →
      primesLoop last fuel (Int32.ofNat n) = some ((primesIn n last.toInt).flatMap written) :=
    fun three odd small => primesLoop_eq bound (2 ^ 30) three odd small (by omega) (by omega)
  have limit := first.toInt_lt
  have isTwo : (2 : Int32).toInt = 2 := rfl
  by_cases low : first ≤ 2
  · have fromTwo : primesIn first.toInt.toNat last.toInt = primesIn 2 last.toInt := by
      rw [Int32.le_iff_toInt_le, isTwo] at low
      have small : first.toInt.toNat ≤ 2 := by omega
      interval_cases first.toInt.toNat
      · rw [primesIn_step _ Nat.not_prime_zero, primesIn_step _ Nat.not_prime_one]
      · rw [primesIn_step _ Nat.not_prime_one]
      · rfl
    have odd : ¬(3 : Int32) &&& 1 = 0 := by decide
    have rest : primesLoop last fuel 3 = _ := @loop 3 (le_refl 3) rfl (by omega)
    have high : 2 ≤ last ↔ (2 : ℕ) ≤ last.toInt ∧ Nat.Prime 2 :=
      Int32.le_iff_toInt_le.trans (and_iff_left Nat.prime_two).symm
    simp only [writePrimes, low, if_true, true_and, if_neg odd, rest, fromTwo, primesIn_eq 2, ← high]
    split <;> rfl
  · have above : 2 < first.toInt := by rwa [Int32.le_iff_toInt_le, isTwo, not_le] at low
    have isFirst : first = Int32.ofNat first.toInt.toNat := by
      rw [← Int32.toInt_inj, Int32.toInt_ofNat_of_lt (by omega)]
      omega
    have even := and_one_eq_zero (by omega : first.toInt.toNat < 2 ^ 31)
    rw [← isFirst] at even
    rcases Nat.mod_two_eq_zero_or_one first.toInt.toNat with isEven | isOdd
    · have notPrime : ¬first.toInt.toNat.Prime := by
        intro prime
        have odd := prime.eq_two_or_odd
        omega
      have rest := loop (by omega : 3 ≤ first.toInt.toNat + 1) (by omega) (by omega)
      rw [Int32.ofNat_add, ← isFirst] at rest
      rw [primesIn_step _ notPrime]
      simpa [writePrimes, low, even.mpr isEven] using rest
    · have odd : ¬first &&& 1 = 0 := by
        rw [even]
        omega
      have rest := loop (by omega : 3 ≤ first.toInt.toNat) isOdd (by omega)
      rw [← isFirst] at rest
      simpa [writePrimes, low, odd] using rest

/-- No number is greater than the last one. -/
theorem primesLoop_greatest (fuel : ℕ) (i : Int32) : primesLoop 2147483647 fuel i = none := by
  induction fuel generalizing i with
  | zero => rfl
  | succ fuel ih => simp [primesLoop, ih]

/-- `writePrimes` ends and writes the prime numbers in the range exactly if the last number is not
the greatest one. -/
theorem writePrimes_ends_iff (first last : Int32) :
    (∃ enough, ∀ fuel ≥ enough, writePrimes fuel first last =
      some ((primesIn first.toInt.toNat last.toInt).flatMap written)) ↔ last ≠ 2147483647 := by
  constructor
  · rintro ⟨enough, ends⟩ rfl
    have ended := ends enough le_rfl
    simp [writePrimes, primesLoop_greatest] at ended
  · intro notGreatest
    exact ⟨2 ^ 32, fun fuel => writePrimes_of_ne first last notGreatest fuel⟩

example : writePrimes (2 ^ 32) (-3) 8 = some "2 3 5 7 ".toList := by
  rw [writePrimes_of_ne (-3) 8 (by decide) (2 ^ 32) le_rfl]
  decide +kernel

/-- With the greatest number as the last one `writePrimes` never ends. -/
theorem writePrimes_never_ends : ¬∃ fuel, writePrimes fuel 2147483646 2147483647 ≠ none := by
  simp [writePrimes, primesLoop_greatest]

end Xv6.User
