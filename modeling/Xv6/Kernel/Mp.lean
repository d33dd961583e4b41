import Mathlib

/-!
# The table of processors

`mpinit` of `mp.c` looks for the configuration table that the BIOS has left in memory and goes
through its entries. An entry of unknown type is not passed over: the `break` leaves the `switch`
but not the loop.
-/

namespace Xv6.Mp

abbrev NCPU : ℕ := 8

abbrev Memory := UInt32 → UInt8

def P2V (a : UInt32) : UInt32 := a + 0x80000000

def bytes (memory : Memory) (addr : UInt32) (len : ℕ) : List UInt8 :=
  (List.range len).map fun i => memory (addr + UInt32.ofNat i)

/-- A number in memory, lowest byte first. -/
def number (memory : Memory) (addr : UInt32) (len : ℕ) : UInt32 :=
  (bytes memory addr len).foldr (fun byte high => byte.toUInt32 + 256 * high) 0

def sum (memory : Memory) (addr : UInt32) (len : ℕ) : UInt8 :=
  (bytes memory addr len).foldl (· + ·) 0

def memcmp (memory : Memory) (addr : UInt32) (text : String) : Bool :=
  bytes memory addr text.length == text.toList.map fun c => UInt8.ofNat c.toNat

/-- The loop of `mpsearch1`, with the number of places that are left. -/
def mpsearch1Loop (memory : Memory) : ℕ → UInt32 → Option UInt32
  | 0, _ => none
  | count + 1, p =>
      if memcmp memory p "_MP_" ∧ sum memory p 16 = 0 then some p
      else mpsearch1Loop memory count (p + 16)

def mpsearch1 (memory : Memory) (a : UInt32) (len : ℕ) : Option UInt32 :=
  mpsearch1Loop memory (len / 16) (P2V a)

def mpsearch (memory : Memory) : Option UInt32 :=
  let bda := P2V 0x400
  let p := number memory (bda + 0x0E) 2 * 16
  let found :=
    if p ≠ 0 then mpsearch1 memory p 1024
    else mpsearch1 memory (number memory (bda + 0x13) 2 * 1024 - 1024) 1024
  found <|> mpsearch1 memory 0xF0000 0x10000

/-- `conf->length`. -/
def confLength (memory : Memory) (conf : UInt32) : UInt32 := number memory (conf + 4) 2

/-- `mpconfig`, with the addresses of the two structures as the result. -/
def mpconfig (memory : Memory) : Option (UInt32 × UInt32) :=
  (mpsearch memory).bind fun mp =>
    let physaddr := number memory (mp + 4) 4
    let conf := P2V physaddr
    let version := memory (conf + 6)
    if physaddr = 0 then none
    else if !memcmp memory conf "PCMP" then none
    else if version ≠ 1 ∧ version ≠ 4 then none
    else if sum memory conf (confLength memory conf).toNat ≠ 0 then none
    else some (mp, conf)

/-- The variables of `mpinit` and those it sets. -/
structure State where
  p : UInt32
  ismp : Bool := true
  lapic : UInt32
  ncpu : ℕ := 0
  apicid : ℕ → UInt8 := fun _ => 0
  ioapicid : UInt8 := 0

inductive Outcome where
  | running
  | panic (message : String)
  | done (state : State) (imcrp : Bool)

/-- One turn of the loop. -/
def step (memory : Memory) (e : UInt32) (state : State) : State :=
  if state.p < e then
    match (memory state.p).toNat with
    | 0 =>
        if state.ncpu < NCPU then
          { state with
            p := state.p + 20
            ncpu := state.ncpu + 1
            apicid := Function.update state.apicid state.ncpu (memory (state.p + 1)) }
        else { state with p := state.p + 20 }
    | 2 => { state with p := state.p + 8, ioapicid := memory (state.p + 1) }
    | 1 | 3 | 4 => { state with p := state.p + 8 }
    | _ => { state with ismp := false }
  else state

/-- The loop after `n` turns. -/
def walk (memory : Memory) (conf : UInt32) (n : ℕ) : State :=
  (step memory (conf + confLength memory conf))^[n]
    { p := conf + 44, lapic := number memory (conf + 36) 4 }

def mpinit (memory : Memory) (n : ℕ) : Outcome :=
  match mpconfig memory with
  | none => .panic "Expect to run on an SMP"
  | some (mp, conf) =>
      if (walk memory conf n).p < conf + confLength memory conf then .running
      else if (walk memory conf n).ismp then .done (walk memory conf n) (memory (mp + 12) ≠ 0)
      else .panic "Didn't find a suitable machine"

section Walk

variable {memory : Memory} {e conf : UInt32} {state : State}

theorem step_of_known (inside : state.p < e) (known : (memory state.p).toNat ≤ 4) :
    (step memory e state).ismp = state.ismp ∧
      ((step memory e state).p = state.p + 8 ∨ (step memory e state).p = state.p + 20) := by
  have cases : (memory state.p).toNat = 0 ∨ (memory state.p).toNat = 1 ∨
      (memory state.p).toNat = 2 ∨ (memory state.p).toNat = 3 ∨ (memory state.p).toNat = 4 := by
    omega
  rcases cases with isType | isType | isType | isType | isType <;>
    simp only [step, if_pos inside, isType] <;> first | simp | (split <;> simp)

theorem step_ncpu (few : state.ncpu ≤ NCPU) : (step memory e state).ncpu ≤ NCPU := by
  unfold step
  split
  · split
    · split
      · assumption
      · exact few
    all_goals exact few
  · exact few

theorem walk_succ (n : ℕ) :
    walk memory conf (n + 1) = step memory (conf + confLength memory conf) (walk memory conf n) :=
  Function.iterate_succ_apply' _ _ _

theorem walk_ncpu (n : ℕ) : (walk memory conf n).ncpu ≤ NCPU := by
  induction n with
  | zero => exact Nat.zero_le _
  | succ n ih => exact walk_succ n ▸ step_ncpu ih

/-- Every entry that the loop comes to is of a type that it knows. -/
def Known (memory : Memory) (conf : UInt32) : Prop :=
  ∀ n, (walk memory conf n).p < conf + confLength memory conf →
    (memory (walk memory conf n).p).toNat ≤ 4

theorem walk_ismp (known : Known memory conf) (n : ℕ) : (walk memory conf n).ismp = true := by
  induction n with
  | zero => rfl
  | succ n ih =>
      rw [walk_succ]
      by_cases inside : (walk memory conf n).p < conf + confLength memory conf
      · rw [(step_of_known inside (known n inside)).1, ih]
      · rw [step, if_neg inside, ih]

/-- Every turn passes at least eight bytes of the table. -/
theorem walk_far (known : Known memory conf)
    (fits : conf.toNat + (confLength memory conf).toNat + 20 ≤ 2 ^ 32) (n : ℕ)
    (inside : (walk memory conf n).p < conf + confLength memory conf) :
    8 * n ≤ (walk memory conf n).p.toNat := by
  induction n with
  | zero => exact Nat.zero_le _
  | succ n ih =>
      rw [walk_succ] at inside ⊢
      by_cases before : (walk memory conf n).p < conf + confLength memory conf
      · have far := ih before
        have below := UInt32.lt_iff_toNat_lt.mp before
        rw [UInt32.toNat_add] at below
        rcases (step_of_known before (known n before)).2 with isNext | isNext
        all_goals
          rw [isNext, UInt32.toNat_add]
          simp only [UInt32.reduceToNat]
          omega
      · rw [step, if_neg before] at inside
        exact absurd inside before

/-- The loop has come to its end. -/
def Ends (memory : Memory) (conf : UInt32) (n : ℕ) : Prop :=
  ¬(walk memory conf n).p < conf + confLength memory conf

/-- The loop comes to no address in the table twice. -/
def Onward (memory : Memory) (conf : UInt32) : Prop :=
  ∀ m n, m < n → ¬Ends memory conf n → (walk memory conf m).p ≠ (walk memory conf n).p

theorem step_p {other : State} (same : state.p = other.p) :
    (step memory e state).p = (step memory e other).p := by
  unfold step
  rw [same]
  split
  · split <;> first | rfl | exact same | (split <;> split <;> rfl)
  · exact same

/-- From the same address on, the walk is the same. -/
theorem walk_add {m n : ℕ} (same : (walk memory conf m).p = (walk memory conf n).p) (k : ℕ) :
    (walk memory conf (m + k)).p = (walk memory conf (n + k)).p := by
  induction k with
  | zero => exact same
  | succ k ih =>
      rw [← Nat.add_assoc, ← Nat.add_assoc, walk_succ, walk_succ]
      exact step_p ih

theorem Ends.later {n : ℕ} (ended : Ends memory conf n) (k : ℕ) : Ends memory conf (n + k) := by
  induction k with
  | zero => exact ended
  | succ k ih => rwa [← Nat.add_assoc, Ends, walk_succ, step, if_neg ih]

theorem exists_ends_iff : (∃ n, Ends memory conf n) ↔ Onward memory conf := by
  constructor
  · rintro ⟨last, ended⟩ m n less inside same
    -- the walk comes back to the same address again and again
    have again : ∀ turns, (walk memory conf (m + (n - m) * turns)).p = (walk memory conf m).p := by
      intro turns
      induction turns with
      | zero => rfl
      | succ turns ih =>
          have isNext : m + (n - m) * (turns + 1) = n + (n - m) * turns := by
            rw [Nat.mul_add_one]
            omega
          rw [isNext, ← walk_add same, ih]
    have far : last ≤ m + (n - m) * last :=
      (Nat.le_mul_of_pos_left last (by omega)).trans (Nat.le_add_left _ _)
    have stillEnded := ended.later (m + (n - m) * last - last)
    rw [Nat.add_sub_cancel' far, Ends, again, same] at stillEnded
    exact inside stillEnded
  · intro onward
    by_contra never
    rw [not_exists] at never
    rcases Finite.exists_ne_map_eq_of_infinite fun n => (walk memory conf n).p with ⟨m, n, differ, same⟩
    rcases Nat.lt_or_gt_of_ne differ with less | less
    · exact onward m n less (never n) same
    · exact onward n m less (never m) same.symm

/-- An entry of unknown type is not passed over. -/
theorem Onward.known (onward : Onward memory conf) : Known memory conf := by
  intro n inside
  by_contra unknown
  have stays : (walk memory conf (n + 1)).p = (walk memory conf n).p := by
    rw [walk_succ, step, if_pos inside]
    split <;> first | omega | rfl
  refine onward n (n + 1) (Nat.lt_succ_self n) ?_ stays.symm
  rw [Ends, stays]
  exact not_not.mpr inside

theorem Known.onward (known : Known memory conf)
    (fits : conf.toNat + (confLength memory conf).toNat + 20 ≤ 2 ^ 32) : Onward memory conf := by
  apply exists_ends_iff.mp
  refine ⟨2 ^ 29, fun inside => ?_⟩
  have far := walk_far known fits _ inside
  have limit := (walk memory conf (2 ^ 29)).p.toNat_lt
  omega

end Walk

/-- The walk through the table ends exactly if it comes to no address twice, and there are never more
processors than there is place for. If no address is past the end of memory, this is to say that every
entry is of a known type. -/
theorem mpinit_ends_iff (memory : Memory) (mp conf : UInt32)
    (accepted : mpconfig memory = some (mp, conf)) :
    (∀ n, (walk memory conf n).ncpu ≤ NCPU ∧ (mpinit memory n = .running ∨
      mpinit memory n = .done (walk memory conf n) (memory (mp + 12) ≠ 0))) ∧
    ((∃ n, mpinit memory n ≠ .running) ↔ Onward memory conf) ∧
    (conf.toNat + (confLength memory conf).toNat + 20 ≤ 2 ^ 32 →
      (Onward memory conf ↔ Known memory conf)) := by
  have ended : ∀ n, Ends memory conf n →
      mpinit memory n = .done (walk memory conf n) (memory (mp + 12) ≠ 0) := by
    intro n ends
    have isMp := walk_ismp (exists_ends_iff.mp ⟨n, ends⟩).known n
    simp only [mpinit, accepted, if_neg ends, if_pos isMp]
  have running : ∀ n, ¬Ends memory conf n → mpinit memory n = .running := by
    intro n inside
    simp only [mpinit, accepted, if_pos (not_not.mp inside)]
  refine ⟨?_, ?_, fun fits => ⟨Onward.known, fun known => known.onward fits⟩⟩
  · intro n
    refine ⟨walk_ncpu n, ?_⟩
    by_cases ends : Ends memory conf n
    · exact Or.inr (ended n ends)
    · exact Or.inl (running n ends)
  · rw [← exists_ends_iff]
    apply exists_congr
    intro n
    by_cases ends : Ends memory conf n
    · simp [ends, ended n ends]
    · simp [ends, running n ends]

/-! ## A table with one entry -/

/-- A memory with the two structures and one entry of the given type. -/
def bios (type : UInt8) : Memory := fun addr =>
  (List.lookup addr
    [(0x8000040E, 1), (0x80000010, 95), (0x80000011, 77), (0x80000012, 80), (0x80000013, 95),
      (0x80000015, 1), (0x80000018, 1), (0x80000019, 4), (0x8000001A, 159), (0x80000100, 80),
      (0x80000101, 67), (0x80000102, 77), (0x80000103, 80), (0x80000104, 64), (0x80000106, 4),
      (0x80000107, 140 - type), (0x8000012C, type)]).getD 0

/-- One processor. -/
theorem mpinit_ends_processor : ∃ n, mpinit (bios 0) n ≠ .running := by
  have behind : ∀ n, (walk (bios 0) 0x80000100 (n + 1)).p = 0x80000140 := by
    intro n
    induction n with
    | zero => decide +kernel
    | succ n ih =>
        rw [walk_succ, step, if_neg]
        · exact ih
        · rw [ih]
          decide +kernel
  have known : Known (bios 0) 0x80000100 := by
    rintro (_ | n) inside
    · decide +kernel
    · rw [behind]
      decide +kernel
  have ends := mpinit_ends_iff (bios 0) 0x80000010 0x80000100 (by decide +kernel)
  exact ends.2.1.mpr ((ends.2.2 (by decide +kernel)).mpr known)

/-- An entry of unknown type. -/
theorem mpinit_never_ends : mpconfig (bios 5) = some (0x80000010, 0x80000100) ∧
    ¬∃ n, mpinit (bios 5) n ≠ .running := by
  have accepted : mpconfig (bios 5) = some (0x80000010, 0x80000100) := by decide +kernel
  have stays : (walk (bios 5) 0x80000100 0).p = (walk (bios 5) 0x80000100 1).p := by decide +kernel
  have inside : (walk (bios 5) 0x80000100 1).p < 0x80000100 + confLength (bios 5) 0x80000100 := by
    decide +kernel
  refine ⟨accepted, ?_⟩
  rintro ⟨n, ends⟩
  refine exists_ends_iff.mp ⟨n, fun below => ?_⟩ 0 1 Nat.one_pos (not_not.mpr inside) stays
  simp [mpinit, accepted, below] at ends

end Xv6.Mp
