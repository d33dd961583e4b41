import Xv6.Fs.Icache
import Xv6.Fs.Transfer

/-!
# Directories

A directory is a file of entries, each with an inode number and a name of `DIRSIZ` bytes that
ends before the first zero. `dirlookup` and `dirlink` go through the entries with `readi`.
-/

namespace Xv6

/-! ## Strings -/

/-- What a pointer to characters points to. -/
abbrev CString := ℕ → UInt8

def strncmp : ℕ → CString → CString → ℤ
  | 0, _, _ => 0
  | n + 1, p, q =>
      if p 0 ≠ 0 ∧ p 0 = q 0 then strncmp n (fun i => p (i + 1)) fun i => q (i + 1)
      else (p 0).toNat - (q 0).toNat

/-- The bytes that `strncpy` stores: after the end of the string, zeros. -/
def strncpy : ℕ → CString → CString
  | 0, _ => fun _ => 0
  | n + 1, t => fun i =>
      if t 0 = 0 then 0
      else match i with
        | 0 => t 0
        | i + 1 => strncpy n (fun i => t (i + 1)) i

/-- The characters of a string before its end, at most `n`. -/
def chars : ℕ → CString → List UInt8
  | 0, _ => []
  | n + 1, s => if s 0 = 0 then [] else s 0 :: chars n fun i => s (i + 1)

theorem strncmp_eq_zero {n : ℕ} {p q : CString} : strncmp n p q = 0 ↔ chars n p = chars n q := by
  induction n generalizing p q with
  | zero => simp [strncmp, chars]
  | succ n ih =>
      rw [strncmp, chars, chars]
      by_cases same : p 0 ≠ 0 ∧ p 0 = q 0
      · rw [if_pos same, ih, if_neg same.1, if_neg (by rw [← same.2]; exact same.1), ← same.2]
        simp
      · rw [if_neg same]
        have differ : ((p 0).toNat : ℤ) - (q 0).toNat = 0 ↔ p 0 = q 0 := by
          rw [Int.sub_eq_zero, Int.ofNat_inj, UInt8.toNat_inj]
        rw [differ]
        by_cases ended : p 0 = 0
        · rw [if_pos ended, ended]
          by_cases endedToo : q 0 = 0
          · simp [endedToo]
          · simp [endedToo, Ne.symm endedToo]
        · rw [if_neg ended]
          have different : p 0 ≠ q 0 := fun isSame => same ⟨ended, isSame⟩
          by_cases endedToo : q 0 = 0
          · simp [endedToo, ended]
          · simp [endedToo, different]

theorem chars_strncpy {n : ℕ} {t : CString} : chars n (strncpy n t) = chars n t := by
  induction n generalizing t with
  | zero => rfl
  | succ n ih =>
      rw [chars, chars]
      by_cases ended : t 0 = 0
      · simp [strncpy, ended]
      · simp only [strncpy, if_neg ended]
        exact congrArg _ ih

theorem chars_congr {n : ℕ} {s t : CString} (agree : ∀ i < n, s i = t i) : chars n s = chars n t := by
  induction n generalizing s t with
  | zero => rfl
  | succ n ih =>
      rw [chars, chars, agree 0 (by omega), ih fun i below => agree (i + 1) (by omega)]

/-! ## The functions -/

abbrev DIRENTSIZE : ℕ := 2 + DIRSIZ

structure Dirent where
  inum : ℕ
  name : CString

namespace Dirent

def read (bytes : List UInt8) : Dirent where
  inum := (bytes.getD 0 0).toNat + 256 * (bytes.getD 1 0).toNat
  name := fun i => bytes.getD (2 + i) 0

def byte (de : Dirent) (i : ℕ) : UInt8 :=
  if i < 2 then Bytes.byte de.inum i else de.name (i - 2)

end Dirent

def namecmp (s t : CString) : ℤ := strncmp DIRSIZ s t

namespace Inode

variable (sb : Superblock) (devsw : Devsw)

/-- A loop over the entries from an offset on: the first entry that passes the test, with its
offset, or the offset at which the loop ends. -/
def scan (test : Dirent → Bool) (message : String) :
    ℕ → ℕ → Inode → Device → Except FsStop ((ℕ × Option Dirent) × Inode × Device)
  | 0, _, _, _ => .error .looping
  | fuel + 1, off, dp, device =>
      if off < dp.size.toNat then
        match dp.readi sb devsw off DIRENTSIZE device with
        | none => .error .blocks
        | some ((r, bytes), dp, device) =>
            if r ≠ DIRENTSIZE then .error (.panic message)
            else
              let de := Dirent.read bytes
              if test de then .ok ((off, some de), dp, device)
              else scan test message fuel ((off + DIRENTSIZE) % 2 ^ 32) dp device
      else .ok ((off, none), dp, device)

/-- As many steps as there are entries, and one. -/
def steps (dp : Inode) : ℕ := dp.size.toNat / DIRENTSIZE + 1

def findEntry (dp : Inode) (name : CString) (device : Device) :
    Except FsStop ((ℕ × Option Dirent) × Inode × Device) :=
  scan sb devsw (fun de => de.inum ≠ 0 ∧ namecmp name de.name = 0) "dirlookup read" dp.steps 0 dp device

def findSlot (dp : Inode) (device : Device) :
    Except FsStop ((ℕ × Option Dirent) × Inode × Device) :=
  scan sb devsw (fun de => de.inum = 0) "dirlink read" dp.steps 0 dp device

end Inode

namespace FsState

variable (sb : Superblock) (devsw : Devsw)

/-- `dirlookup`: the inode and, for `*poff`, the offset of its entry. -/
def dirlookup (state : FsState) (d : InodeId) (name : CString) :
    Except FsStop (Option (InodeId × ℕ) × FsState) :=
  if (state.icache d).type ≠ T_DIR then .error (.panic "dirlookup not DIR")
  else do
    let ((off, found), dp, device) ← (state.icache d).findEntry sb devsw name (state.deviceOf d)
    let state := state.store d dp device
    match found with
    | none => return (none, state)
    | some de =>
        let (i, state) ← state.iget dp.dev de.inum
        return (some (i, off), state)

/-- The rest of `dirlink`: look for an empty entry, and store the new one there or at the end. -/
def addEntry (state : FsState) (d : InodeId) (name : CString) (inum : ℕ) :
    Except FsStop (ℤ × FsState) := do
  let ((off, _), dp, device) ← (state.icache d).findSlot sb devsw (state.deviceOf d)
  let de : Dirent := { inum := inum % 2 ^ 16, name := strncpy DIRSIZ name }
  match dp.writei sb devsw de.byte off DIRENTSIZE device with
  | none => .error .blocks
  | some (r, dp, device) =>
      if r ≠ DIRENTSIZE then .error (.panic "dirlink")
      else return (0, state.store d dp device)

def dirlink (state : FsState) (p : Slot) (d : InodeId) (name : CString) (inum : ℕ) :
    Except FsStop (ℤ × FsState) := do
  let (found, state) ← state.dirlookup sb devsw d name
  match found with
  | some (i, _) =>
      let state ← state.iput sb p i
      return (-1, state)
  | none => state.addEntry sb devsw d name inum

end FsState

end Xv6
