import Mathlib

/-!
# Memory as bytes

A memory gives each address a byte. Ranges of bytes are copied in and out; numbers are stored
with the least significant byte first; a bit map is an array of bits, eight to a byte.
-/

namespace Bytes

abbrev Memory := ℕ → UInt8

variable {memory other : Memory} {start length i j : ℕ} {bytes : ℕ → UInt8}

/-- Copy a range of bytes into the memory. -/
def store (memory : Memory) (start length : ℕ) (bytes : ℕ → UInt8) : Memory :=
  fun i => if start ≤ i ∧ i < start + length then bytes (i - start) else memory i

/-- Copy a range of bytes out of the memory. -/
def load (memory : Memory) (start length : ℕ) : List UInt8 :=
  (List.range length).map fun i => memory (start + i)

theorem store_of_mem (inside : i < length) :
    store memory start length bytes (start + i) = bytes i := by
  have range : start ≤ start + i ∧ start + i < start + length := by omega
  simp only [store, if_pos range, Nat.add_sub_cancel_left]

theorem store_of_not_mem (outside : i < start ∨ start + length ≤ i) :
    store memory start length bytes i = memory i := by
  have notRange : ¬(start ≤ i ∧ i < start + length) := by omega
  simp only [store, if_neg notRange]

theorem store_congr {bytes' : ℕ → UInt8} (agree : ∀ i < length, bytes i = bytes' i) :
    store memory start length bytes = store memory start length bytes' := by
  funext i
  rw [store, store]
  by_cases inside : start ≤ i ∧ i < start + length
  · rw [if_pos inside, if_pos inside, agree _ (by omega)]
  · rw [if_neg inside, if_neg inside]

/-! ## Numbers -/

def byte (value i : ℕ) : UInt8 := UInt8.ofNat (value / 256 ^ i)

def number (memory : Memory) (start : ℕ) : ℕ → ℕ
  | 0 => 0
  | length + 1 => number memory start length + 256 ^ length * (memory (start + length)).toNat

theorem number_congr {start' : ℕ} (agree : ∀ i < length, memory (start + i) = other (start' + i)) :
    number memory start length = number other start' length := by
  induction length with
  | zero => rfl
  | succ length ih =>
      simp only [number, agree length (by omega)]
      rw [ih fun i below => agree i (by omega)]

theorem number_of_bytes {value : ℕ} (stored : ∀ i < length, memory (start + i) = byte value i) :
    number memory start length = value % 256 ^ length := by
  induction length with
  | zero => simp [number, Nat.mod_one]
  | succ length ih =>
      simp only [number, stored length (by omega)]
      rw [ih fun i below => stored i (by omega), Nat.mod_pow_succ, byte, UInt8.toNat_ofNat']

/-! ## Bits -/

/-- The bit of a byte that stands for an index. -/
def mask (i : ℕ) : UInt8 := 1 <<< UInt8.ofNat (i % 8)

def bit (memory : Memory) (i : ℕ) : Bool := memory (i / 8) &&& mask i ≠ 0

def setBit (memory : Memory) (i : ℕ) : Memory :=
  Function.update memory (i / 8) (memory (i / 8) ||| mask i)

def clearBit (memory : Memory) (i : ℕ) : Memory :=
  Function.update memory (i / 8) (memory (i / 8) &&& ~~~mask i)

theorem toNat_mask (i : ℕ) : (mask i).toNat = 2 ^ (i % 8) := by
  have small : 2 ^ (i % 8) < 2 ^ 8 := Nat.pow_lt_pow_right (by omega) (Nat.mod_lt _ (by omega))
  have isShift : (UInt8.ofNat (i % 8)).toNat % 8 = i % 8 := by
    rw [UInt8.toNat_ofNat']
    omega
  have isOne : (1 : UInt8).toNat = 1 := rfl
  simp only [mask, UInt8.toNat_shiftLeft, isShift, isOne, Nat.shiftLeft_eq, one_mul]
  exact Nat.mod_eq_of_lt small

theorem bit_eq_testBit (memory : Memory) (i : ℕ) :
    bit memory i = (memory (i / 8)).toNat.testBit (i % 8) := by
  have nonzero : memory (i / 8) &&& mask i ≠ 0 ↔
      (memory (i / 8)).toNat.testBit (i % 8) = true := by
    rw [← UInt8.toNat_inj.ne, UInt8.toNat_and, toNat_mask, Nat.and_two_pow]
    cases (memory (i / 8)).toNat.testBit (i % 8) <;> simp
  rw [Bool.eq_iff_iff, bit, decide_eq_true_eq]
  exact nonzero

theorem bit_setBit : bit (setBit memory i) j = (decide (j = i) || bit memory j) := by
  rw [bit_eq_testBit, bit_eq_testBit]
  by_cases sameByte : j / 8 = i / 8
  · simp only [setBit, sameByte, Function.update_self, UInt8.toNat_or, toNat_mask,
      Nat.testBit_or, Nat.testBit_two_pow]
    have sameBit : (i % 8 = j % 8) = (j = i) := by
      apply propext
      omega
    simp only [sameBit, Bool.or_comm]
  · have different : j ≠ i := by
      rintro rfl
      exact sameByte rfl
    simp [setBit, Function.update_of_ne sameByte, different]

end Bytes
