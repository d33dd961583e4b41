import Mathlib

/-!
# Windows on a stream

A buffer of `size` cells holds the end of a stream of items: position `i` of the stream is in
cell `i % size`, for all positions from `low` on. The window moves when an item is put at the
end of the stream, when the last one is taken back, and when the position `low` moves up.
-/

namespace Window

variable {α : Type*} {size low : ℕ} {cells : ℕ → α} {stream : List α} {item : α}

/-- The cells hold the stream from position `low` on. -/
structure Holds (size : ℕ) (cells : ℕ → α) (low : ℕ) (stream : List α) : Prop where
  low_le : low ≤ stream.length
  fits : stream.length ≤ low + size
  cell : ∀ i, low ≤ i → i < stream.length → stream[i]? = some (cells (i % size))

theorem mod_ne {i last : ℕ} (inside : low ≤ i) (before : i < last) (room : last < low + size) :
    i % size ≠ last % size := by
  intro same
  have congruent : 0 ≡ last - i [MOD size] := by
    apply Nat.ModEq.add_left_cancel' i
    rw [Nat.add_zero, Nat.add_sub_of_le before.le]
    exact same
  have divides : size ∣ last - i := (Nat.modEq_zero_iff_dvd).mp congruent.symm
  have atLeast := Nat.le_of_dvd (by omega) divides
  omega

namespace Holds

theorem nil : Holds size cells 0 [] where
  low_le := le_refl 0
  fits := Nat.zero_le _
  cell := by simp

section

variable (holds : Holds size cells low stream)

include holds

theorem push (room : stream.length < low + size) :
    Holds size (Function.update cells (stream.length % size) item) low (stream ++ [item]) where
  low_le := by
    have below := holds.low_le
    simp only [List.length_append, List.length_singleton]
    omega
  fits := by
    simp only [List.length_append, List.length_singleton]
    omega
  cell := by
    intro i inside bound
    simp only [List.length_append, List.length_singleton] at bound
    rcases Nat.lt_succ_iff_lt_or_eq.mp bound with older | rfl
    · rw [List.getElem?_append_left older, Function.update_of_ne (mod_ne inside older room)]
      exact holds.cell i inside older
    · simp

theorem first (inside : low < stream.length) : stream[low]? = some (cells (low % size)) :=
  holds.cell low (le_refl low) inside

theorem advance (inside : low < stream.length) : Holds size cells (low + 1) stream where
  low_le := inside
  fits := by
    have fits := holds.fits
    omega
  cell := fun i above bound => holds.cell i (by omega) bound

theorem take_succ (inside : low < stream.length) :
    stream.take (low + 1) = stream.take low ++ [cells (low % size)] := by
  rw [List.take_add_one, holds.first inside]
  rfl

end

end Holds

end Window
