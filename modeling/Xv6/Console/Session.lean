import Xv6.Console.Editing
import Xv6.Lib.Run

/-!
# The console in use

Keys come in, and processes call `consoleread`, in any order.
-/

namespace Xv6.Console

open Transition

/-- A key is handled; a process calls `consoleread`, goes on in its loop, or gives up as it was killed. -/
inductive Event where
  | key (k : Key)
  | read (p n : ℕ)
  | next (p : ℕ)
  | killed (p : ℕ)

structure Session where
  state : State
  readers : ℕ → Option Reader

namespace Session

def step (s : Session) : Event → Option Session
  | .key k => (s.state.key k).map fun next => { s with state := next }
  | .read p n =>
      if (s.readers p).isNone ∧ 0 < n then
        some { s with readers := Function.update s.readers p (some { target := n, got := [] }) }
      else none
  | .next p => do
      let reader ← s.readers p
      let (input, after, last) ← s.state.input.readByte reader
      return { state := { s.state with input := input }
               readers := Function.update s.readers p (if last then none else some after) }
  | .killed p =>
      if (s.readers p).isSome ∧ s.state.input.r = s.state.input.w then
        some { s with readers := Function.update s.readers p none }
      else none

def boot : Session where
  state := Console.boot
  readers := fun _ => none

variable {s next : Session} {trace : Trace Session Event}

theorem next_cases {p : ℕ} (stepped : s.step (.next p) = some next) :
    s.state.input.r ≠ s.state.input.w ∧ (next.state = s.state ∨
      next.state = { s.state with input := { s.state.input with r := s.state.input.r + 1 } }) := by
  rcases Option.bind_eq_some_iff.1 stepped with ⟨reader, isReader, rest⟩
  rcases Option.bind_eq_some_iff.1 rest with ⟨⟨input, after, last⟩, read, isNext⟩
  simp only [Input.readByte] at read
  split_ifs at read with isEmpty isEnd isFirst
  all_goals
    cases read
    cases isNext
  · exact ⟨isEmpty, Or.inr rfl⟩
  · exact ⟨isEmpty, Or.inl rfl⟩
  · exact ⟨isEmpty, Or.inr rfl⟩

theorem tidy_boot : Console.boot.Tidy where
  behind := by decide
  clean := by
    intro b mem
    rw [Input.line_of_empty rfl] at mem
    exact absurd mem List.not_mem_nil
  stored := by
    intro idx mem
    exact absurd mem (by decide +revert)
  used := Nat.zero_le _

theorem tidy_step {event : Event} (tidy : s.state.Tidy) (stepped : s.step event = some next) :
    next.state.Tidy := by
  cases event with
  | key k =>
      rcases Option.map_eq_some_iff.1 stepped with ⟨after, keyed, rfl⟩
      exact tidy.key keyed
  | read | killed =>
      rw [step] at stepped
      split_ifs at stepped
      cases stepped
      exact tidy
  | next p =>
      rcases next_cases stepped with ⟨notEmpty, isState | isState⟩
      · rw [isState]
        exact tidy
      · rw [isState]
        refine ⟨?_, tidy.clean, tidy.stored, tidy.used⟩
        have differ : s.state.input.r.toNat ≠ s.state.input.w.toNat :=
          fun same => notEmpty (UInt32.toNat_inj.1 same)
        have isR : (s.state.input.r + 1).toNat = (s.state.input.r.toNat + 1) % 2 ^ 32 := UInt32.toNat_add ..
        have behind := tidy.behind
        simp only [UInt32.toNat_sub, isR, INPUT_BUF] at behind ⊢
        have isW := s.state.input.w.toNat_lt
        have isUint := s.state.input.r.toNat_lt
        omega

theorem tidy_run (run : Run step boot trace s) : s.state.Tidy :=
  Run.stateInvariant (fun s : Session => s.state.Tidy) tidy_boot
    (fun tidy _ stepped => tidy_step tidy stepped) run (Trace.all_true trace)

end Session

/-! ## Taking the line out of the ring -/

/-- `r`, `w` and the bytes between them stay as they are. -/
structure Input.Keeps (before after : Input) : Prop where
  r : after.r = before.r
  w : after.w = before.w
  unread : ∀ i < (before.w - before.r).toNat, after.buf ((before.r.toNat + i) % INPUT_BUF) =
    before.buf ((before.r.toNat + i) % INPUT_BUF)

theorem State.Tidy.keeps {s : State} {cmd : List UInt8} (tidy : s.Tidy)
    (room : (s.input.w - s.input.r).toNat + cmd.length ≤ INPUT_BUF) : s.input.Keeps (s.replace cmd) := by
  rw [tidy.replace_eq]
  refine ⟨Input.consputs_r, Input.consputs_w, ?_⟩
  intro i below
  apply Input.consputs_buf
  intro j inside
  have isR := s.input.r.toNat_lt
  simp only [UInt32.toNat_sub, INPUT_BUF] at room below ⊢
  omega

/-- Ctrl-R, Ctrl-N, Tab and Enter take the line as it is in the ring: all but Ctrl-N as long as it does not
go round, and where there is room for what they put into the ring. -/
theorem line_taken_out {trace : Trace Session Event} {s : Session}
    (run : Run Session.step Session.boot trace s) :
    let input := s.state.input
    let unread := (input.w - input.r).toNat
    let inside := input.w.toNat + input.line.length ≤ INPUT_BUF
    let rest := input.line.filter fun c => !State.isDigit c
    (inside → input.line.length < INPUT_BUF → unread + input.line.length ≤ INPUT_BUF →
      ∃ next, s.state.key (.byte 18) = some next ∧ next.input.line = input.line.reverse ∧
        input.Keeps next.input) ∧
    (rest.length < INPUT_BUF → unread + rest.length ≤ INPUT_BUF →
      ∃ next, s.state.key (.byte 14) = some next ∧ next.input.line = rest ∧ input.Keeps next.input) ∧
    (inside → s.state.hist.isSuggestionUsed = false →
      ∃ next, s.state.key (.byte 9) = some next ∧ next.hist.originalCmdSize = input.line.length ∧
        (List.ofFn next.hist.originalCmd).take input.line.length = input.line ∧
        (unread + next.input.line.length ≤ INPUT_BUF → input.Keeps next.input)) ∧
    ∀ c, c = 10 ∨ c = 13 → inside → input.line ≠ [] → (input.e - input.r).toNat < INPUT_BUF →
      ∃ next, s.state.key (.byte c) = some next ∧ next.hist.cmdBuf =
        Function.update s.state.hist.cmdBuf s.state.hist.queueIdx (padded input.line) := by
  have tidy := Session.tidy_run run
  generalize s.state = state at tidy
  refine ⟨?_, ?_, ?_, ?_⟩
  · intro inside short room
    rw [Input.length_line] at inside
    have reversed : state.key (.byte 18) = some _ :=
      tidy.revline_eq (Input.slice_line inside le_rfl) (by simpa using short)
    refine ⟨_, reversed, tidy.line_replace ?_, tidy.keeps ?_⟩
    · simpa using short.le
    · simpa using room
  · intro short room
    have removed : state.key (.byte 14) = some _ := tidy.remnums_eq short
    exact ⟨_, removed, tidy.line_replace short.le, tidy.keeps room⟩
  · intro inside notUsed
    rw [Input.length_line] at inside
    have captured := State.capture_eq inside notUsed
    have original : ((List.ofFn fun i : Fin INPUT_BUF =>
        state.input.line.getD i (state.hist.originalCmd i)).take state.input.line.length) =
        state.input.line := by
      apply List.ext_getElem
      · rw [List.length_take, List.length_ofFn, Input.length_line]
        omega
      · intro i _ below
        rw [List.getElem_take, List.getElem_ofFn]
        exact List.getD_eq_getElem _ _ below
    rw [Input.length_line] at original
    have tab : state.key (.byte 9) = state.suggestCmd := rfl
    simp only [tab, State.suggestCmd, captured, Option.bind_eq_bind, Option.bind_some, Input.length_line]
    split
    · refine ⟨_, rfl, rfl, original, fun room => tidy.keeps ?_⟩
      rwa [← tidy.line_replace (length_cstr_le _), Input.length_line]
    · exact ⟨_, rfl, rfl, original, fun _ => ⟨rfl, rfl, fun _ _ => rfl⟩⟩
  · intro c isEnter inside notEmpty hasRoom
    rw [Input.length_line] at inside
    have isLong : 0 < state.input.size := by
      rw [← Input.length_line]
      exact List.length_pos_iff.2 notEmpty
    have fits : state.input.size < INPUT_BUF := by
      have behind := tidy.behind
      simp only [Input.size, UInt32.toNat_sub, INPUT_BUF] at inside hasRoom behind ⊢
      omega
    have pushed := @State.pushCurrentHist_eq state 10 fits isLong inside
    have stored : state.store 10 = { state with input := state.input.put 10 }.pushCurrentHist.map
        fun t : State => { t with input := { t.input with w := t.input.e } } := by
      simp only [State.store, true_or, if_true]
    have isKey : state.key (.byte c) = state.store 10 := by
      rcases isEnter with rfl | rfl <;> exact if_pos ⟨by decide, hasRoom⟩
    rw [pushed] at stored
    exact ⟨_, isKey.trans stored, rfl⟩

/-- The line `a1` after boot. -/
theorem line_taken_out_twoBytes : ∃ trace s, Run Session.step Session.boot trace s ∧
    s.state.input.line = [97, 49] ∧
    (∃ next, s.state.key (.byte 18) = some next ∧ next.input.line = [49, 97]) ∧
    (∃ next, s.state.key (.byte 14) = some next ∧ next.input.line = [97]) := by
  have found : ∃ trace s, Run Session.step Session.boot trace s ∧
      s.state.input.line = [97, 49] ∧ s.state.input.w = 0 ∧ s.state.input.r = 0 :=
    exists_run [.key (.byte 97), .key (.byte 49)] (by decide +kernel)
  rcases found with ⟨trace, s, run, isLine, isW, isR⟩
  rcases line_taken_out run with ⟨reversed, removed, _⟩
  rw [isLine, isW, isR] at reversed removed
  rcases reversed (by decide) (by decide) (by decide) with ⟨next, isNext, lineNext, _⟩
  rcases removed (by decide) (by decide) with ⟨other, isOther, lineOther, _⟩
  exact ⟨trace, s, run, isLine, ⟨next, isNext, lineNext⟩, other, isOther, lineOther⟩

/-- A command of 100 characters is read, and 30 more are typed: they go round the ring, and Ctrl-R, Tab and
Enter go on to read behind the array. -/
theorem line_round_ring : ∃ trace s, Run Session.step Session.boot trace s ∧
    s.state.input.line = List.replicate 30 98 ∧ s.state.key (.byte 18) = none ∧
    s.state.key (.byte 9) = none ∧ s.state.key (.byte 10) = none := by
  simp only [← Option.isNone_iff_eq_none]
  exact exists_run (List.replicate 100 (.key (.byte 97)) ++ [.key (.byte 10), .read 0 128] ++
    List.replicate 101 (.next 0) ++ List.replicate 30 (.key (.byte 98))) (by decide +kernel)

/-! ## Batches -/

/-- The bytes end behind ESC, or behind ESC and `[`. -/
def cutsEscape : List UInt8 → Bool
  | [] => false
  | c :: cs =>
      if c ≠ 27 then cutsEscape cs
      else
        match cs with
        | [] => true
        | c₁ :: cs₁ =>
            if c₁ ≠ 91 then cutsEscape cs₁
            else
              match cs₁ with
              | [] => true
              | _ :: cs₂ => cutsEscape cs₂

theorem keys_byte {c : UInt8} (notEscape : c ≠ 27) (cs : List UInt8) : keys (c :: cs) = .byte c :: keys cs := by
  rw [keys.eq_def]
  simp [notEscape]

theorem keys_escape {c : UInt8} (notBracket : c ≠ 91) (cs : List UInt8) :
    keys (27 :: c :: cs) = .escape (some c) :: keys cs := by
  rw [keys.eq_def]
  simp [notBracket]

theorem keys_bracket (c : UInt8) (cs : List UInt8) : keys (27 :: 91 :: c :: cs) =
    (if c = 65 then .up else if c = 66 then .down else .bracket (some c)) :: keys cs := by
  rw [keys.eq_def]
  simp

/-- The bytes that are read as whole keys, and those of an escape sequence that is cut. -/
theorem exists_whole (xs : List UInt8) : ∃ front tail, xs = front ++ tail ∧
    (∀ ys, keys (front ++ ys) = keys front ++ keys ys) ∧
    (cutsEscape xs = false ∧ tail = [] ∨ cutsEscape xs = true ∧ (tail = [27] ∨ tail = [27, 91])) := by
  fun_induction cutsEscape xs with
  | case1 => exact ⟨[], [], rfl, fun _ => rfl, Or.inl ⟨rfl, rfl⟩⟩
  | case2 c cs notEscape ih =>
      rcases ih with ⟨front, tail, rfl, splits, isTail⟩
      refine ⟨c :: front, tail, rfl, fun ys => ?_, isTail⟩
      rw [List.cons_append, keys_byte notEscape, keys_byte notEscape, splits, List.cons_append]
  | case3 c isEscape =>
      rw [not_not.1 isEscape]
      exact ⟨[], [27], rfl, fun _ => rfl, Or.inr ⟨rfl, Or.inl rfl⟩⟩
  | case4 c isEscape c₁ cs₁ notBracket ih =>
      rcases ih with ⟨front, tail, rfl, splits, isTail⟩
      rw [not_not.1 isEscape]
      refine ⟨27 :: c₁ :: front, tail, rfl, fun ys => ?_, isTail⟩
      rw [List.cons_append, List.cons_append, keys_escape notBracket, keys_escape notBracket, splits,
        List.cons_append]
  | case5 c isEscape c₁ isBracket =>
      rw [not_not.1 isEscape, not_not.1 isBracket]
      exact ⟨[], [27, 91], rfl, fun _ => rfl, Or.inr ⟨rfl, Or.inr rfl⟩⟩
  | case6 c isEscape c₁ isBracket c₂ cs₂ ih =>
      rcases ih with ⟨front, tail, rfl, splits, isTail⟩
      rw [not_not.1 isEscape, not_not.1 isBracket]
      refine ⟨27 :: 91 :: c₂ :: front, tail, rfl, fun ys => ?_, isTail⟩
      rw [List.cons_append, List.cons_append, List.cons_append, keys_bracket, keys_bracket, splits,
        List.cons_append]

/-- Some bytes have been typed: they are behind the line, and it may have gone to the history. -/
def State.Typed (s : State) (next : State) (most : ℕ) : Prop :=
  (∃ n ≤ most, next.input.e = s.input.e + UInt32.ofNat n) ∧
    (next.hist = s.hist ∨ s.hist.totalCount < next.hist.totalCount)

namespace State.Typed

variable {s t next : State} {most more : ℕ}

theorem of_insert {c : Option UInt8} (inserted : s.insert c = some next) : s.Typed next 1 := by
  rcases insert_cases inserted with rfl | ⟨_, _, stored⟩
  · exact ⟨⟨0, Nat.zero_le _, (UInt32.add_zero _).symm⟩, Or.inl rfl⟩
  · rcases store_cases stored with ⟨_, rfl⟩ | ⟨t, pushed, rfl⟩
    · exact ⟨⟨1, le_rfl, rfl⟩, Or.inl rfl⟩
    · rcases pushCurrentHist_cases pushed with ⟨_, rfl⟩ | ⟨_, cmd, _, _, rfl⟩
      · exact ⟨⟨1, le_rfl, rfl⟩, Or.inl rfl⟩
      · exact ⟨⟨1, le_rfl, rfl⟩, Or.inr (lt_add_one _)⟩

theorem trans (first : s.Typed t most) (second : t.Typed next more) : s.Typed next (most + more) := by
  rcases first with ⟨⟨n, few, isE⟩, isHist⟩
  rcases second with ⟨⟨m, fewer, isNext⟩, isNextHist⟩
  refine ⟨⟨n + m, by omega, ?_⟩, ?_⟩
  · rw [isNext, isE, UInt32.ofNat_add, UInt32.add_assoc]
  · rcases isHist with same | longer
    · rwa [same] at isNextHist
    · exact Or.inr (isNextHist.elim (fun same => same ▸ longer) longer.trans)

/-- The up arrow does not come to the same as bytes that are typed. -/
theorem ne_histUp {n : ℕ} (typed : t.Typed next most) (isE : t.input.e = s.input.e + UInt32.ofNat n)
    (sameHist : t.hist = s.hist) (positive : 0 < n) (few : n + most < 2 ^ 32) : next ≠ s.histUp := by
  rcases typed with ⟨⟨m, fewer, isNext⟩, isHist⟩
  rw [sameHist] at isHist
  rintro rfl
  rw [histUp] at isNext isHist
  split at isHist
  · rcases isHist with same | longer
    · have impossible := congrArg Hist.lastArrowTotal same
      simp only at impossible
      omega
    · exact absurd longer (lt_irrefl _)
  · rename_i beeps
    have isNat := congrArg UInt32.toNat isNext
    have bound := s.input.e.toNat_lt
    simp only [if_neg beeps, isE, UInt32.toNat_add, UInt32.toNat_ofNat'] at isNat
    omega

end State.Typed

/-- The bytes of an arrow that is cut are typed. -/
theorem cut_arrow_ne (t : State) {tail ys : List UInt8}
    (cut : tail = [27] ∧ ys = [91, 65] ∨ tail = [27, 91] ∧ ys = [65]) :
    consoleintr (tail ++ ys) t ≠ (consoleintr tail t).bind (consoleintr ys) := by
  intro same
  have run : (keys tail ++ keys ys).foldlM State.key t = consoleintr (tail ++ ys) t := by
    rw [List.foldlM_append]
    exact same.symm
  rcases cut with ⟨rfl, rfl⟩ | ⟨rfl, rfl⟩
  · rcases Option.bind_eq_some_iff.1 run with ⟨first, isFirst, run⟩
    rcases Option.bind_eq_some_iff.1 run with ⟨second, isSecond, run⟩
    rcases Option.bind_eq_some_iff.1 run with ⟨third, isThird, isUp⟩
    have typed := ((State.Typed.of_insert isFirst).trans (.of_insert isSecond)).trans
      (.of_insert isThird)
    exact typed.ne_histUp (s := t) (n := 1) rfl rfl (by decide) (by decide) (Option.some.inj isUp)
  · rcases Option.bind_eq_some_iff.1 run with ⟨first, isFirst, run⟩
    rcases Option.bind_eq_some_iff.1 run with ⟨second, isSecond, isUp⟩
    have typed := (State.Typed.of_insert isFirst).trans (.of_insert isSecond)
    exact typed.ne_histUp (s := t) (n := 2) (UInt32.add_assoc ..) rfl (by decide) (by decide)
      (Option.some.inj isUp)

/-- Interrupts may cut the input anywhere but in an escape sequence, unless the keys before it have led to an
access outside of an array already. -/
theorem consoleintr_append_iff (xs : List UInt8) (s : State) :
    (∀ ys, consoleintr (xs ++ ys) s = (consoleintr xs s).bind (consoleintr ys)) ↔
      cutsEscape xs = false ∨ (keys xs).dropLast.foldlM State.key s = none := by
  rcases exists_whole xs with ⟨front, tail, rfl, splits, isTail⟩
  have split : ∀ ys, consoleintr (front ++ ys) s =
      ((keys front).foldlM State.key s).bind (consoleintr ys) := by
    intro ys
    rw [consoleintr, splits, List.foldlM_append]
    rfl
  rcases isTail with ⟨whole, rfl⟩ | ⟨cut, isTail⟩
  · simp only [List.append_nil] at whole ⊢
    exact iff_of_true split (Or.inl whole)
  · have isLast : (keys (front ++ tail)).dropLast = keys front := by
      rcases isTail with rfl | rfl <;> rw [splits] <;> exact List.dropLast_concat
    rw [isLast, cut]
    simp only [List.append_assoc, split]
    cases (keys front).foldlM State.key s with
    | none => simp
    | some t =>
        refine iff_of_false (fun same => ?_) (by simp)
        rcases isTail with rfl | rfl
        · exact cut_arrow_ne t (Or.inl ⟨rfl, rfl⟩) (same _)
        · exact cut_arrow_ne t (Or.inr ⟨rfl, rfl⟩) (same _)

/-- An arrow in two parts: its bytes are in the line, with the -1 between them. -/
theorem consoleintr_cut_arrow : (consoleintr ([27] ++ [91, 65]) boot).map (fun s => s.input.line) = some [] ∧
    ((consoleintr [27] boot).bind (consoleintr [91, 65])).map (fun s => s.input.line) =
      some [27, 255, 91, 65] := by
  decide +kernel

end Xv6.Console
