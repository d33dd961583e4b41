import Xv6.Buffer.Operations

/-!
# How many buffers are needed

A buffer cannot be recycled while a process has it or the log needs it. If an operation writes
at most `k` blocks and at most `p` processes have buffers at a time, where
`k + p ≤ MAXOPBLOCKS`, then `bget` finds a buffer.
-/

namespace Xv6

open Transition Function

/-! ## Who has which buffers -/

/-- The buffers that a process has, or is about to get or to give back. -/
def BufState.buffersOf (bufs : BufState) (pid : Slot) : Finset BufId :=
  Finset.univ.filter fun b => (bufs.cache.buf b).holder = some pid ∨ (bufs.phase pid).On b

/-- The other processes that have buffers. -/
def BufState.others (bufs : BufState) (pid : Slot) : Finset Slot :=
  Finset.univ.filter fun other => other ≠ pid ∧ (bufs.buffersOf other).Nonempty

def asksBuffer (state : OpState) (label : Slot × OpAct) : Bool :=
  match label.2 with
  | .call (.bget _ _) => true
  | .commit =>
      match state.todo label.1 with
      | .bget _ :: _ => true
      | _ => false
  | _ => false

/-- Operations pass at most `k` blocks to `log_write`, and a process that asks for a buffer has
one already at most, while fewer than `p` others have buffers. -/
def within (k p : ℕ) (state : OpState) (label : Slot × OpAct) : Bool :=
  (match label.2, state.op label.1 with
    | .call (.logWrite b), some blocks =>
        (OpState.record (state.bufs.cache.buf b).blockno blocks).length ≤ k
    | _, _ => true) &&
  (!asksBuffer state label ||
    ((state.bufs.buffersOf label.1).card ≤ 1 ∧ (state.bufs.others label.1).card < p : Bool))

/-- The cache, with what the processes have of it. -/
structure BufPart (bufs : BufState) : Prop where
  cache : ∃ trace, CacheInv trace bufs
  device : ∀ b, (bufs.cache.buf b).refcnt ≠ 0 ∨ (bufs.cache.buf b).dirty = true →
    (bufs.cache.buf b).dev = ROOTDEV
  two : ∀ pid, (bufs.buffersOf pid).card ≤ 2

section Buffers

variable {bufs next : BufState} {pid q : Slot} {call : BufCall} {b : BufId} {p : ℕ}
  {list : List BufId}

theorem mem_buffersOf : b ∈ bufs.buffersOf pid ↔
    (bufs.cache.buf b).holder = some pid ∨ (bufs.phase pid).On b := by
  simp [BufState.buffersOf]

theorem exists_mem_buffersOf (refs : ∀ b, (bufs.cache.buf b).refcnt = bufs.refs b) :
    (bufs.cache.buf b).refcnt ≠ 0 ↔ ∃ pid, b ∈ bufs.buffersOf pid := by
  rw [refs b, BufState.refs]
  simp only [mem_buffersOf]
  constructor
  · intro positive
    cases holder : (bufs.cache.buf b).holder with
    | some pid => exact ⟨pid, Or.inl rfl⟩
    | none =>
        simp only [holder, if_true, add_zero, ne_eq, Finset.card_eq_zero] at positive
        rcases Finset.nonempty_iff_ne_empty.mpr positive with ⟨pid, mem⟩
        exact ⟨pid, Or.inr (by simpa [BufState.inCall] using mem)⟩
  · rintro ⟨pid, holds | inCall⟩
    · simp [holds]
    · have mem : pid ∈ bufs.inCall b := by simpa [BufState.inCall] using inCall
      have positive := Finset.card_pos.mpr ⟨pid, mem⟩
      omega

theorem BufEffect.holder {after : Buf} (effect : BufEffect bufs list pid call b after)
    (holds : after.holder = some q) :
    (bufs.cache.buf b).holder = some q ∨ q = pid ∧ bufs.phase pid = .acquiring b := by
  cases effect with
  | locked isCall waits isNow =>
      rw [isNow] at holds
      exact Or.inr ⟨(Option.some.inj holds).symm, waits⟩
  | unlocked isCall isNow => simp [isNow] at holds
  | same _ isNow | found _ _ _ isNow | recycled _ _ _ _ _ isNow | filled _ isNow
  | written _ isNow | logged _ _ isNow | released _ isNow =>
      left
      rw [isNow] at holds
      exact holds

theorem BufState.Steps.phase (steps : bufs.Steps pid call next) (isOn : (next.phase q).On b) :
    (bufs.phase q).On b ∨ q = pid ∧ ((bufs.cache.buf b).holder = some pid ∨
      ∃ dev blockno cache, call = .bget dev blockno ∧
        bufs.cache.bget dev blockno = some (b, cache)) := by
  have moved : ∀ {phase : BufPhase}, ((update bufs.phase pid phase) q).On b →
      (bufs.phase q).On b ∨ q = pid ∧ phase.On b := by
    intro phase isOn
    by_cases same : q = pid
    · rw [same, update_self] at isOn
      exact Or.inr ⟨same, isOn⟩
    · rw [update_of_ne same] at isOn
      exact Or.inl isOn
  cases steps with
  | @bget dev blockno result idle got =>
      refine (moved isOn).imp_right fun here => ⟨here.1, Or.inr ?_⟩
      have isResult := BufPhase.on_acquiring.mp here.2
      exact ⟨dev, blockno, result.2, rfl, by rw [got, isResult]⟩
  | @releasesleep c holds =>
      refine (moved isOn).imp_right fun here => ⟨here.1, Or.inl ?_⟩
      rw [BufPhase.on_releasing.mp here.2]
      exact holds.2
  | acquiresleep | brelse =>
      refine (moved isOn).imp_right fun here => ?_
      exact absurd here.2 BufPhase.on_between
  | bread | bwrite | logWrite => exact Or.inl isOn

theorem mem_buffersOf_step (mru : bufs.cache.Mru list) (steps : bufs.Steps pid call next)
    (mem : b ∈ next.buffersOf q) :
    b ∈ bufs.buffersOf q ∨ q = pid ∧ ∃ dev blockno cache, call = .bget dev blockno ∧
      bufs.cache.bget dev blockno = some (b, cache) := by
  rw [mem_buffersOf] at mem ⊢
  rcases mem with holds | isOn
  · left
    rcases (steps.effect mru b).holder holds with held | ⟨rfl, waits⟩
    · exact Or.inl held
    · right
      rw [waits]
      simp
  · rcases steps.phase isOn with was | ⟨rfl, held | got⟩
    · exact Or.inl (Or.inr was)
    · exact Or.inl (Or.inl held)
    · exact Or.inr ⟨rfl, got⟩

/-- A buffer is dirty because `log_write` has marked it, and not any more once it is written. -/
theorem BufEffect.dirty {after : Buf} (effect : BufEffect bufs list pid call b after)
    (isDirty : after.dirty = true) :
    after.dev = (bufs.cache.buf b).dev ∧ after.blockno = (bufs.cache.buf b).blockno ∧
      ((bufs.cache.buf b).dirty = true ∧ call ≠ .bwrite b ∨
        call = .logWrite b ∧ (bufs.cache.buf b).holder = some pid) := by
  cases effect with
  | recycled _ _ _ _ _ isNow => simp [isNow] at isDirty
  | filled _ isNow | written _ isNow => simp [isNow, Buf.iderw] at isDirty
  | logged isCall holds isNow =>
      rw [isNow]
      exact ⟨rfl, rfl, Or.inr ⟨isCall, holds.2⟩⟩
  | same notWritten isNow =>
      rw [isNow] at isDirty ⊢
      exact ⟨rfl, rfl, Or.inl ⟨isDirty, notWritten⟩⟩
  | found isCall _ _ isNow | locked isCall _ isNow | unlocked isCall isNow
  | released isCall isNow =>
      rw [isNow] at isDirty ⊢
      exact ⟨rfl, rfl, Or.inl ⟨isDirty, by simp [isCall]⟩⟩

theorem BufEffect.device {after : Buf} (effect : BufEffect bufs list pid call b after)
    (part : BufPart bufs) (onDevice : ∀ dev blockno, call = .bget dev blockno → dev = ROOTDEV)
    (used : after.refcnt ≠ 0 ∨ after.dirty = true) : after.dev = ROOTDEV := by
  cases effect with
  | found isCall _ isDev isNow =>
      rw [isNow]
      exact isDev.trans (onDevice _ _ isCall)
  | recycled isCall _ _ _ _ isNow =>
      rw [isNow]
      exact onDevice _ _ isCall
  | logged _ holds isNow =>
      rw [isNow]
      rcases part.cache with ⟨_, inv⟩
      apply part.device
      exact Or.inl ((exists_mem_buffersOf inv.refs).mpr ⟨pid, mem_buffersOf.mpr (Or.inl holds.2)⟩)
  | filled _ isNow | written _ isNow =>
      rw [isNow] at used ⊢
      exact part.device b (used.imp id fun isDirty => by simp [Buf.iderw] at isDirty)
  | released _ isNow =>
      rw [isNow] at used ⊢
      exact part.device b (used.imp (fun positive none => positive (by simp [none])) id)
  | same _ isNow | locked _ _ isNow | unlocked _ isNow =>
      rw [isNow] at used ⊢
      exact part.device b used

theorem BufPart.step (part : BufPart bufs) (stepped : bufs.step pid call = some next)
    (asks : ∀ dev blockno, call = .bget dev blockno → dev = ROOTDEV ∧
      (bufs.buffersOf pid).card ≤ 1) : BufPart next := by
  rcases part.cache with ⟨trace, inv⟩
  rcases inv.list with ⟨list, mru, _⟩
  have steps := BufState.step_cases stepped
  refine ⟨⟨_, inv.step stepped⟩, ?_, ?_⟩
  · intro b used
    apply (steps.effect mru b).device part _ used
    exact fun dev blockno isCall => (asks dev blockno isCall).1
  · intro q
    by_cases isBget : q = pid ∧ ∃ c dev blockno cache, call = .bget dev blockno ∧
        bufs.cache.bget dev blockno = some (c, cache)
    · rcases isBget with ⟨rfl, c, dev, blockno, cache, isCall, got⟩
      have subset : next.buffersOf q ⊆ insert c (bufs.buffersOf q) := by
        intro b mem
        rcases mem_buffersOf_step mru steps mem with was | ⟨_, dev', blockno', _, isCall', got'⟩
        · exact Finset.mem_insert_of_mem was
        · cases isCall.symm.trans isCall'
          cases got.symm.trans got'
          exact Finset.mem_insert_self _ _
      have grows := (Finset.card_le_card subset).trans (Finset.card_insert_le _ _)
      have one := (asks dev blockno isCall).2
      omega
    · refine (Finset.card_le_card ?_).trans (part.two q)
      intro b mem
      apply (mem_buffersOf_step mru steps mem).resolve_right
      exact fun new => isBget ⟨new.1, b, new.2⟩

theorem BufPart.card_dirty (part : BufPart bufs) {blockno : ℕ}
    (panics : bufs.cache.bget ROOTDEV blockno = none) (one : (bufs.buffersOf pid).card ≤ 1)
    (few : (bufs.others pid).card < p) :
    NBUF + 1 ≤ (Finset.univ.filter fun b => (bufs.cache.buf b).dirty = true).card + 2 * p := by
  rcases part.cache with ⟨trace, inv⟩
  rcases inv.list with ⟨list, mru, _⟩
  have covered : (Finset.univ : Finset BufId) ⊆
      (Finset.univ.filter fun b => (bufs.cache.buf b).dirty = true) ∪
        (bufs.buffersOf pid ∪ (bufs.others pid).biUnion bufs.buffersOf) := by
    intro b _
    simp only [Finset.mem_union, Finset.mem_filter, Finset.mem_biUnion, Finset.mem_univ, true_and]
    by_cases isDirty : (bufs.cache.buf b).dirty = true
    · exact Or.inl isDirty
    · have inUse : (bufs.cache.buf b).refcnt ≠ 0 := by
        intro unused
        exact mru.bget_none panics b ⟨unused, by simpa using isDirty⟩
      rcases (exists_mem_buffersOf inv.refs).mp inUse with ⟨q, mem⟩
      by_cases same : q = pid
      · rw [same] at mem
        exact Or.inr (Or.inl mem)
      · refine Or.inr (Or.inr ⟨q, ?_, mem⟩)
        exact Finset.mem_filter.mpr ⟨Finset.mem_univ q, same, b, mem⟩
  have held : ((bufs.others pid).biUnion bufs.buffersOf).card ≤ (bufs.others pid).card * 2 :=
    Finset.card_biUnion_le_card_mul _ _ _ fun q _ => part.two q
  have total := (Finset.card_le_card covered).trans (Finset.card_union_le _ _)
  have rest := Finset.card_union_le (bufs.buffersOf pid)
    ((bufs.others pid).biUnion bufs.buffersOf)
  rw [Finset.card_univ, Fintype.card_fin] at total
  omega

end Buffers

/-! ## The blocks that are pinned -/

/-- The blocks that a commit writes before it empties the log. -/
def pendingWrites : List CommitCall → List ℕ
  | [] => []
  | .clear :: _ => []
  | .bwrite blockno :: rest => blockno :: pendingWrites rest
  | _ :: rest => pendingWrites rest

section Pending

variable {start blockno : ℕ} {now : CommitCall} {front rest : List CommitCall}

theorem mem_pendingWrites_cons (mem : blockno ∈ pendingWrites (now :: rest)) :
    now ≠ .clear ∧ (now = .bwrite blockno ∨ blockno ∈ pendingWrites rest) := by
  cases now with
  | clear => simp [pendingWrites] at mem
  | bwrite other =>
      rcases List.mem_cons.mp mem with rfl | later
      · exact ⟨by simp, Or.inl rfl⟩
      · exact ⟨by simp, Or.inr later⟩
  | _ => exact ⟨by simp, Or.inr mem⟩

theorem pendingWrites_append (going : .clear ∉ front) :
    pendingWrites (front ++ rest) = pendingWrites front ++ pendingWrites rest := by
  induction front with
  | nil => rfl
  | cons now front ih =>
      rw [List.mem_cons, not_or] at going
      cases now with
      | clear => exact absurd rfl going.1
      | bwrite blockno => exact congrArg (blockno :: ·) (ih going.2)
      | _ => exact ih going.2

theorem not_mem_calls (now : CommitCall) (isEnd : now = .clear ∨ now = .finish) :
    (∀ tail block, now ∉ writeLogCalls start tail block) ∧ now ∉ writeHeadCalls start ∧
      ∀ tail block, now ∉ installTransCalls start tail block := by
  refine ⟨?_, ?_, ?_⟩
  · intro tail block
    induction block generalizing tail with
    | nil => simp [writeLogCalls]
    | cons blockno block ih =>
        rcases isEnd with rfl | rfl <;> simp [writeLogCalls, breadCalls, brelseCalls, ih]
  · rcases isEnd with rfl | rfl <;> simp [writeHeadCalls, breadCalls, brelseCalls]
  · intro tail block
    induction block generalizing tail with
    | nil => simp [installTransCalls]
    | cons blockno block ih =>
        rcases isEnd with rfl | rfl <;> simp [installTransCalls, breadCalls, brelseCalls, ih]

theorem mem_pendingWrites_installTransCalls {block : List ℕ} (mem : blockno ∈ block) (tail : ℕ) :
    blockno ∈ pendingWrites (installTransCalls start tail block) := by
  induction block generalizing tail with
  | nil => simp at mem
  | cons first block ih =>
      simp only [installTransCalls, breadCalls, brelseCalls, List.cons_append, List.nil_append,
        pendingWrites, List.mem_cons]
      rcases List.mem_cons.mp mem with rfl | later
      · exact Or.inl rfl
      · exact Or.inr (ih later _)

theorem mem_pendingWrites_commitCalls {block : List ℕ} (mem : blockno ∈ block) :
    blockno ∈ pendingWrites (commitCalls start block) := by
  have going := @not_mem_calls start .clear (Or.inl rfl)
  have prepared : .clear ∉ writeLogCalls start 0 block ++ writeHeadCalls start := by
    simp [going]
  simp only [commitCalls, if_neg (List.ne_nil_of_mem mem), List.append_assoc]
  rw [← List.append_assoc, pendingWrites_append prepared, pendingWrites_append (going.2.2 0 block)]
  apply List.mem_append_right
  exact List.mem_append_left _ (mem_pendingWrites_installTransCalls mem 0)

theorem commitCalls_eq (block : List ℕ) :
    ∃ front, commitCalls start block = front ++ [.finish] ∧ .finish ∉ front ∧
      (.clear ∉ front → block = []) := by
  refine ⟨_, rfl, ?_⟩
  split
  · rename_i isEmpty
    exact ⟨by simp, fun _ => isEmpty⟩
  · have going := @not_mem_calls start .finish (Or.inr rfl)
    refine ⟨by simp [going], ?_⟩
    simp

end Pending

/-! ## What operations keep -/

/-- How many more blocks a process may pass to `log_write` in its operation. -/
def slack (k : ℕ) : Option (List ℕ) → ℕ
  | none => 0
  | some blocks => k - blocks.length

@[simp]
theorem slack_none (k : ℕ) : slack k none = 0 := rfl

@[simp]
theorem slack_some (k : ℕ) (blocks : List ℕ) : slack k (some blocks) = k - blocks.length := rfl

/-- The log has room for what the running operations may still write. -/
structure LogPart (k : ℕ) (state : OpState) : Prop where
  counted : state.outstanding = (Finset.univ.filter fun pid => state.op pid ≠ none).card
  recorded : ∀ pid blocks, state.op pid = some blocks → blocks ⊆ state.block
  room : state.block.length + ∑ pid, slack k (state.op pid) ≤ MAXOPBLOCKS + 2 * k
  quiet : state.outstanding = 0 → state.committing = false → state.block = []
  still : state.committing = true → state.outstanding = 0

/-- A commit with these calls left writes the dirty buffers before it empties the log. -/
structure Commits (state : OpState) (todo : List CommitCall) : Prop where
  busy : state.committing = true
  ends : ∃ front, todo = front ++ [.finish] ∧ .finish ∉ front ∧
    (.clear ∉ front → state.block = [])
  pending : ∀ b, (state.bufs.cache.buf b).dirty = true →
    (state.bufs.cache.buf b).blockno ∈ pendingWrites todo

/-- Dirty buffers are those of the log, and one process at most is in a commit. -/
structure CommitPart (state : OpState) : Prop where
  pinned : ∀ b, (state.bufs.cache.buf b).dirty = true →
    (state.bufs.cache.buf b).blockno ∈ state.block
  alone : ∀ pid q, state.todo pid ≠ [] → q ≠ pid → state.todo q = []
  commits : ∀ pid, state.todo pid ≠ [] → Commits state (state.todo pid)

theorem CommitPart.of_update {todo : Slot → List CommitCall} {state : OpState} {pid : Slot}
    {rest : List CommitCall} (isTodo : state.todo = update todo pid rest)
    (idle : ∀ q ≠ pid, todo q = [])
    (pinned : ∀ b, (state.bufs.cache.buf b).dirty = true →
      (state.bufs.cache.buf b).blockno ∈ state.block)
    (commits : rest ≠ [] → Commits state rest) : CommitPart state := by
  have only : ∀ q, state.todo q ≠ [] → q = pid := by
    intro q started
    by_contra different
    rw [isTodo, update_of_ne different] at started
    exact started (idle q different)
  refine ⟨pinned, ?_, ?_⟩
  · intro q r started different
    by_contra other
    exact different ((only r other).trans (only q started).symm)
  · intro q started
    have isPid := only q started
    rw [isTodo, isPid, update_self] at started ⊢
    exact commits started

structure OpInv (k : ℕ) (state : OpState) : Prop where
  bufs : BufPart state.bufs
  log : LogPart k state
  commit : CommitPart state

namespace OpInv

variable {start size k p : ℕ} {state next : OpState} {pid : Slot} {act : OpAct}

theorem opInv_init : OpInv k opInit := by
  refine ⟨⟨⟨[], CacheInv.cacheInv_init⟩, ?_, ?_⟩, ⟨?_, ?_, ?_, ?_, ?_⟩, ⟨?_, ?_, ?_⟩⟩ <;>
    simp [opInit, bufInit, Bcache.binit, Buf.empty, BufState.buffersOf, slack]

section

variable (inv : OpInv k state)

include inv

theorem bufs_step (steps : OpSteps start size state pid act next)
    (asks : asksBuffer state (pid, act) = true → (state.bufs.buffersOf pid).card ≤ 1) :
    BufPart next.bufs := by
  cases steps with
  | beginOp | leave | last | clear | finish => exact inv.bufs
  | logWrite running stepped => exact inv.bufs.step stepped (by simp)
  | call outside reads onDevice stepped =>
      refine inv.bufs.step stepped fun dev blockno isCall => ⟨onDevice dev blockno isCall, ?_⟩
      apply asks
      rw [isCall]
      rfl
  | @commit now rest call bufs isTodo isCall stepped =>
      refine inv.bufs.step stepped ?_
      rintro dev blockno rfl
      cases now with
      | bget asked =>
          cases isCall
          exact ⟨rfl, asks (by simp [asksBuffer, isTodo])⟩
      | acquiresleep | brelse =>
          simp only [OpState.commitBufCall] at isCall
          split at isCall <;> simp at isCall
      | bread | bwrite | releasesleep | clear | finish => simp [OpState.commitBufCall] at isCall

theorem outstanding_pos {blocks : List ℕ} (running : state.op pid = some blocks) :
    state.outstanding ≠ 0 := by
  rw [inv.log.counted]
  apply Finset.card_ne_zero_of_mem (a := pid)
  simp [running]

theorem not_committing {blocks : List ℕ} (running : state.op pid = some blocks) :
    state.committing = false := by
  rw [← Bool.not_eq_true]
  exact fun committing => inv.outstanding_pos running (inv.log.still committing)

theorem todo_nil (calm : state.committing = false) (q : Slot) : state.todo q = [] := by
  by_contra started
  simp [(inv.commit.commits q started).busy] at calm

theorem sum_slack_le : ∑ q, slack k (state.op q) ≤ state.outstanding * k := by
  rw [inv.log.counted, Finset.card_filter, Finset.sum_mul]
  apply Finset.sum_le_sum
  intro q _
  cases state.op q with
  | none => simp
  | some blocks => simp

theorem room_beginOp (small : k ≤ MAXOPBLOCKS) (idle : state.op pid = none)
    (calm : state.committing = false)
    (room : state.block.length + (state.outstanding + 1) * MAXOPBLOCKS ≤ LOGSIZE) :
    state.block.length + ∑ q, slack k (update state.op pid (some []) q) ≤
      MAXOPBLOCKS + 2 * k := by
  have sum := Count.sum_update (slack k) state.op pid (some [])
  have bound := inv.sum_slack_le
  simp only [idle, slack_none, slack_some, List.length_nil, Nat.sub_zero, Nat.add_zero] at sum
  rw [sum]
  simp only [LOGSIZE, MAXOPBLOCKS] at room small ⊢
  have cases : state.outstanding = 0 ∨ state.outstanding = 1 ∨ state.outstanding = 2 := by omega
  rcases cases with none | one | two
  · rw [inv.log.quiet none calm, List.length_nil]
    rw [none] at bound
    omega
  · rw [one] at bound room
    omega
  · rw [two] at bound room
    omega

theorem room_leave : state.block.length + ∑ q, slack k (update state.op pid none q) ≤
    MAXOPBLOCKS + 2 * k := by
  have sum := Count.sum_update (slack k) state.op pid none
  have room := inv.log.room
  rw [slack_none] at sum
  omega

theorem room_logWrite {blocks : List ℕ} {blockno : ℕ} (running : state.op pid = some blocks)
    (small : (OpState.record blockno blocks).length ≤ k) :
    (OpState.record blockno state.block).length +
        ∑ q, slack k (update state.op pid (some (OpState.record blockno blocks)) q) ≤
      MAXOPBLOCKS + 2 * k := by
  have sum := Count.sum_update (slack k) state.op pid (some (OpState.record blockno blocks))
  have room := inv.log.room
  simp only [running, slack_some] at sum
  by_cases isLogged : blockno ∈ state.block
  · have grows : blocks.length ≤ (OpState.record blockno blocks).length := by
      unfold OpState.record
      split
      · exact le_rfl
      · simp
    simp only [OpState.record, if_pos isLogged] at sum grows ⊢
    omega
  · have isNew : blockno ∉ blocks := fun mem => isLogged (inv.log.recorded pid blocks running mem)
    simp only [OpState.record, if_neg isLogged, if_neg isNew, List.length_append,
      List.length_singleton] at sum small ⊢
    omega

end

theorem subset_record (blockno : ℕ) {blocks block : List ℕ} (subset : blocks ⊆ block) :
    blocks ⊆ OpState.record blockno block := by
  unfold OpState.record
  split
  · exact subset
  · exact fun other mem => List.mem_append_left _ (subset mem)

theorem mem_record {blockno other : ℕ} {blocks : List ℕ} :
    other ∈ OpState.record blockno blocks ↔ other = blockno ∨ other ∈ blocks := by
  unfold OpState.record
  split
  · rename_i mem
    constructor
    · exact Or.inr
    · rintro (rfl | there)
      · exact mem
      · exact there
  · simp [or_comm]

theorem recorded_update {blocks : Option (List ℕ)} {block : List ℕ}
    (kept : ∀ q other, state.op q = some other → other ⊆ block)
    (changed : ∀ other, blocks = some other → other ⊆ block) (q : Slot) (other : List ℕ)
    (isOp : update state.op pid blocks q = some other) : other ⊆ block := by
  by_cases same : q = pid
  · rw [same, update_self] at isOp
    exact changed other isOp
  · rw [update_of_ne same] at isOp
    exact kept q other isOp

section

variable (inv : OpInv k state)

include inv

theorem log_step (small : k ≤ MAXOPBLOCKS) (steps : OpSteps start size state pid act next)
    (fits : ∀ b blocks, act = .call (.logWrite b) → state.op pid = some blocks →
      (OpState.record (state.bufs.cache.buf b).blockno blocks).length ≤ k) :
    LogPart k next := by
  have counted := inv.log.counted
  have count := Count.card_filter_update (fun op => op ≠ none) state.op pid
  cases steps with
  | beginOp free idle calm room =>
      refine ⟨?_, recorded_update inv.log.recorded (by simp),
        inv.room_beginOp small idle calm room, by simp, by simp [calm]⟩
      simpa [idle, counted] using (count (some [])).symm
  | leave running others =>
      refine ⟨?_, recorded_update inv.log.recorded (by simp), inv.room_leave,
        fun none => absurd none others, by simp [inv.not_committing running]⟩
      exact Nat.sub_eq_of_eq_add (by simpa [running, counted] using (count none).symm)
  | last running calm alone =>
      refine ⟨?_, recorded_update inv.log.recorded (by simp), inv.room_leave, by simp,
        fun _ => alone⟩
      exact Nat.sub_eq_of_eq_add (by simpa [running, counted] using (count none).symm)
  | @logWrite b blocks bufs running stepped =>
      refine ⟨?_, ?_, inv.room_logWrite running (fits b blocks rfl running), ?_, inv.log.still⟩
      · have same := count (some (OpState.record (state.bufs.cache.buf b).blockno blocks))
        simpa [running, counted] using same.symm
      · apply recorded_update
        · exact fun q other isOp => subset_record _ (inv.log.recorded q other isOp)
        · intro other isOp
          cases isOp
          intro blockno mem
          have mine := @inv.log.recorded pid blocks running blockno
          exact mem_record.mpr ((mem_record.mp mem).imp_right mine)
      · exact fun none => absurd none (inv.outstanding_pos running)
  | call | commit =>
      exact ⟨counted, inv.log.recorded, inv.log.room, inv.log.quiet, inv.log.still⟩
  | clear isTodo =>
      have committing := (inv.commit.commits pid (by simp [isTodo])).busy
      have room := inv.log.room
      refine ⟨counted, ?_, ?_, fun _ _ => rfl, inv.log.still⟩
      · intro q blocks running
        simp [inv.not_committing running] at committing
      · simp only [List.length_nil]
        omega
  | finish isTodo =>
      refine ⟨counted, inv.log.recorded, inv.log.room, ?_, by simp⟩
      intro _ _
      rcases (inv.commit.commits pid (by simp [isTodo])).ends with
        ⟨front, isFront, unfinished, emptied⟩
      apply emptied
      cases front with
      | nil => simp
      | cons now front =>
          rw [isTodo] at isFront
          cases isFront
          simp at unfinished

theorem todo_step {now : CommitCall} {rest : List CommitCall}
    (isTodo : state.todo pid = now :: rest) (started : rest ≠ []) :
    now ≠ .finish ∧ ∃ front, rest = front ++ [.finish] ∧ .finish ∉ front ∧
      (now ≠ .clear → .clear ∉ front → state.block = []) := by
  rcases (inv.commit.commits pid (by simp [isTodo])).ends with
    ⟨front, isFront, unfinished, emptied⟩
  rw [isTodo] at isFront
  cases front with
  | nil =>
      cases isFront
      exact absurd rfl started
  | cons first front =>
      cases isFront
      rw [List.mem_cons, not_or] at unfinished
      refine ⟨Ne.symm unfinished.1, front, rfl, unfinished.2, ?_⟩
      intro notClear going
      exact emptied (by simp [going, Ne.symm notClear])

theorem bwrite_dirty {blockno : ℕ} {call : BufCall} {b : BufId}
    (isCall : state.commitBufCall pid (.bwrite blockno) = some call)
    (isDirty : (state.bufs.cache.buf b).dirty = true)
    (isBlock : (state.bufs.cache.buf b).blockno = blockno) : call = .bwrite b := by
  simp only [OpState.commitBufCall, Option.map_eq_some_iff] at isCall
  rcases isCall with ⟨c, isHeld, rfl⟩
  have found := List.find?_some isHeld
  rw [decide_eq_true_eq] at found
  rcases inv.bufs.cache with ⟨_, cache⟩
  have inUse : (state.bufs.cache.buf c).refcnt ≠ 0 :=
    (exists_mem_buffersOf cache.refs).mpr ⟨pid, mem_buffersOf.mpr (Or.inl found.1)⟩
  have devB := inv.bufs.device b (Or.inr isDirty)
  have devC := inv.bufs.device c (Or.inl inUse)
  have same := cache.unique b c (by simp [devB]) (devB.trans devC.symm)
    (isBlock.trans found.2.symm)
  rw [same]

theorem dirty_step {call : BufCall} {bufs : BufState} {b : BufId}
    (stepped : state.bufs.step pid call = some bufs) (isDirty : (bufs.cache.buf b).dirty = true) :
    (bufs.cache.buf b).blockno = (state.bufs.cache.buf b).blockno ∧
      ((state.bufs.cache.buf b).dirty = true ∧ call ≠ .bwrite b ∨ call = .logWrite b) := by
  rcases inv.bufs.cache with ⟨_, cache⟩
  rcases cache.list with ⟨list, mru, _⟩
  rcases ((BufState.step_cases stepped).effect mru b).dirty isDirty with ⟨_, isBlock, was⟩
  exact ⟨isBlock, was.imp_right And.left⟩

theorem commit_step (steps : OpSteps start size state pid act next) : CommitPart next := by
  have before := inv.commit
  have others : ∀ {now rest}, state.todo pid = now :: rest → ∀ q ≠ pid, state.todo q = [] :=
    fun isTodo q => before.alone pid q (by simp [isTodo])
  cases steps with
  | beginOp | leave =>
      refine ⟨before.pinned, before.alone, fun q started => ?_⟩
      have commits := before.commits q started
      exact ⟨commits.busy, commits.ends, commits.pending⟩
  | last running calm alone =>
      refine .of_update rfl (fun q _ => inv.todo_nil calm q) before.pinned fun _ => ?_
      refine ⟨rfl, commitCalls_eq state.block, fun b isDirty => ?_⟩
      exact mem_pendingWrites_commitCalls (before.pinned b isDirty)
  | @logWrite c blocks bufs running stepped =>
      have idle := inv.todo_nil (inv.not_committing running)
      refine ⟨?_, before.alone, fun q started => absurd (idle q) started⟩
      intro b isDirty
      rcases inv.dirty_step stepped isDirty with ⟨isBlock, was | isCall⟩
      · simp only [isBlock]
        exact mem_record.mpr (Or.inr (before.pinned b was.1))
      · cases isCall
        exact mem_record.mpr (Or.inl isBlock)
  | @call call bufs outside reads onDevice stepped =>
      have clean : ∀ b, (bufs.cache.buf b).dirty = true →
          (bufs.cache.buf b).blockno = (state.bufs.cache.buf b).blockno ∧
            (state.bufs.cache.buf b).dirty = true := by
        intro b isDirty
        rcases inv.dirty_step stepped isDirty with ⟨isBlock, was | isCall⟩
        · exact ⟨isBlock, was.1⟩
        · exact absurd isCall (reads b)
      refine ⟨?_, before.alone, ?_⟩
      · intro b isDirty
        simp only [(clean b isDirty).1]
        exact before.pinned b (clean b isDirty).2
      · intro q started
        have commits := before.commits q started
        refine ⟨commits.busy, commits.ends, fun b isDirty => ?_⟩
        simp only [(clean b isDirty).1]
        exact commits.pending b (clean b isDirty).2
  | clear isTodo =>
      have commits := before.commits pid (by simp [isTodo])
      have clean : ∀ b, (state.bufs.cache.buf b).dirty ≠ true := by
        intro b isDirty
        have pending := commits.pending b isDirty
        rw [isTodo] at pending
        exact (mem_pendingWrites_cons pending).1 rfl
      refine .of_update rfl (others isTodo) (fun b isDirty => absurd isDirty (clean b))
        fun started => ?_
      rcases inv.todo_step isTodo started with ⟨_, front, isFront, unfinished, _⟩
      exact ⟨commits.busy, ⟨front, isFront, unfinished, fun _ => rfl⟩,
        fun b isDirty => absurd isDirty (clean b)⟩
  | finish isTodo =>
      refine .of_update rfl (others isTodo) before.pinned fun started => ?_
      exact absurd rfl (inv.todo_step isTodo started).1
  | @commit now rest call bufs isTodo isCall stepped =>
      have notClear : now ≠ .clear := by
        rintro rfl
        simp [OpState.commitBufCall] at isCall
      have clean : ∀ b, (bufs.cache.buf b).dirty = true →
          (bufs.cache.buf b).blockno = (state.bufs.cache.buf b).blockno ∧
            (state.bufs.cache.buf b).dirty = true ∧ call ≠ .bwrite b := by
        intro b isDirty
        rcases inv.dirty_step stepped isDirty with ⟨isBlock, was | isLog⟩
        · exact ⟨isBlock, was⟩
        · subst isLog
          cases now <;> simp only [OpState.commitBufCall] at isCall <;>
            first
            | (split at isCall <;> simp at isCall)
            | simp at isCall
      have commits := before.commits pid (by simp [isTodo])
      refine .of_update rfl (others isTodo) ?_ fun started => ?_
      · intro b isDirty
        simp only [(clean b isDirty).1]
        exact before.pinned b (clean b isDirty).2.1
      · rcases inv.todo_step isTodo started with ⟨_, front, isFront, unfinished, emptied⟩
        refine ⟨commits.busy, ⟨front, isFront, unfinished, emptied notClear⟩, ?_⟩
        intro b isDirty
        rcases clean b isDirty with ⟨isBlock, was, notWritten⟩
        have pending := commits.pending b was
        simp only [isBlock]
        rw [isTodo] at pending
        apply (mem_pendingWrites_cons pending).2.resolve_left
        intro isWrite
        rw [isWrite] at isCall
        exact notWritten (inv.bwrite_dirty isCall was rfl)

theorem step (small : k ≤ MAXOPBLOCKS) (stepped : opStep start size state (pid, act) = some next)
    (good : within k p state (pid, act) = true) : OpInv k next := by
  have steps := opStep_cases stepped
  simp only [within, Bool.and_eq_true, Bool.or_eq_true, Bool.not_eq_true', decide_eq_true_eq]
    at good
  refine ⟨inv.bufs_step steps ?_, inv.log_step small steps ?_, inv.commit_step steps⟩
  · intro asks
    rcases good.2 with silent | few
    · simp [asks] at silent
    · exact few.1
  · rintro b blocks rfl running
    simpa [running] using good.1

theorem card_dirty_le : (Finset.univ.filter fun b => (state.bufs.cache.buf b).dirty = true).card ≤
      state.block.length := by
  rcases inv.bufs.cache with ⟨_, cache⟩
  refine (Finset.card_le_card_of_injOn (fun b => (state.bufs.cache.buf b).blockno) ?_ ?_).trans
    (List.toFinset_card_le state.block)
  · intro b mem
    exact List.mem_toFinset.mpr (inv.commit.pinned b (Finset.mem_filter.mp mem).2)
  · intro b memB c memC sameBlock
    have devB := inv.bufs.device b (Or.inr (Finset.mem_filter.mp memB).2)
    have devC := inv.bufs.device c (Or.inr (Finset.mem_filter.mp memC).2)
    exact cache.unique b c (by simp [devB]) (devB.trans devC.symm) sameBlock

end

end OpInv

/-- If operations write at most `k` blocks each and at most `p` processes have buffers at a
time, two each, `bget` finds a buffer. -/
theorem bget_never_panics {start size k p : ℕ} (enough : k + p ≤ MAXOPBLOCKS)
    {trace : Trace OpState (Slot × OpAct)} {state : OpState}
    (run : Run (opStep start size) opInit trace state)
    (all : Trace.All (fun state label => within k p state label = true) trace)
    {pid : Slot} (one : (state.bufs.buffersOf pid).card ≤ 1)
    (few : (state.bufs.others pid).card < p) (blockno : ℕ) :
    state.bufs.cache.bget ROOTDEV blockno ≠ none := by
  have small : k ≤ MAXOPBLOCKS := by omega
  have inv : OpInv k state :=
    run.stateInvariant (OpInv k) OpInv.opInv_init
      (fun inv good stepped => inv.step small stepped good) all
  intro panics
  have used := inv.bufs.card_dirty panics one few
  have pinned := inv.card_dirty_le
  have room := inv.log.room
  simp only [NBUF, MAXOPBLOCKS] at used room enough
  omega

section Schedules

/-- A process reads a block into a buffer, logs it and releases it. -/
def pinBlock (pid : Slot) (blockno : ℕ) (b : BufId) : List (Slot × OpAct) :=
  [(pid, .call (.bget ROOTDEV blockno)), (pid, .call (.acquiresleep b)),
    (pid, .call (.logWrite b)), (pid, .call (.releasesleep b)), (pid, .call (.brelse b))]

def pinBlocks (pid : Slot) (bufs : List BufId) : List (Slot × OpAct) :=
  bufs.flatMap fun b => pinBlock pid (100 + b.val) b

-- A process logs two blocks while another one has a buffer.
theorem third_block_gets_buffer : ∃ trace state, Run (opStep 2 30) opInit trace state ∧
    Trace.All (fun state label => within 2 8 state label = true) trace ∧
    (state.bufs.cache.buf 1).dirty = true ∧ state.bufs.cache.bget ROOTDEV 201 ≠ none := by
  obtain ⟨trace, state, run, all, one, few, isDirty⟩ :
      ∃ trace state, Run (opStep 2 30) opInit trace state ∧
      Trace.All (fun state label => within 2 8 state label = true) trace ∧
      (state.bufs.buffersOf 0).card ≤ 1 ∧ (state.bufs.others 0).card < 8 ∧
      (state.bufs.cache.buf 1).dirty = true :=
    exists_run ([(1, .call (.bget ROOTDEV 200)), (0, .beginOp)] ++ pinBlocks 0 [1, 2])
      (by decide +kernel)
  exact ⟨trace, state, run, all, isDirty, bget_never_panics (by decide) run all one few 201⟩

-- Two operations log ten and eight blocks after one that has logged ten and left; the second
-- one then has two more buffers, and the first one asks for one.
theorem log_and_readers_exhaust_buffers : ∃ trace state, Run (opStep 2 30) opInit trace state ∧
    Trace.All (fun state label => within MAXOPBLOCKS NPROC state label = true) trace ∧
    within MAXOPBLOCKS NPROC state (0, .call (.bget ROOTDEV 202)) = true ∧
    state.bufs.cache.bget ROOTDEV 202 = none := by
  obtain ⟨trace, state, run, good, asks, panics⟩ :
      ∃ trace state, Run (opStep 2 30) opInit trace state ∧
      Trace.All (fun state label => within MAXOPBLOCKS NPROC state label = true) trace ∧
      within MAXOPBLOCKS NPROC state (0, .call (.bget ROOTDEV 202)) = true ∧
      (state.bufs.cache.bget ROOTDEV 202).isNone = true :=
    exists_run ([(0, .beginOp), (1, .beginOp)] ++
      pinBlocks 0 ((List.finRange NBUF).take 10) ++ [(0, .endOp), (0, .beginOp)] ++
      pinBlocks 0 (((List.finRange NBUF).drop 10).take 10) ++
      pinBlocks 1 (((List.finRange NBUF).drop 20).take 8) ++
      [(1, .call (.bget ROOTDEV 200)), (1, .call (.acquiresleep 28)),
        (1, .call (.bget ROOTDEV 201)), (1, .call (.acquiresleep 29))]) (by decide +kernel)
  exact ⟨trace, state, run, good, asks, Option.isNone_iff_eq_none.mp panics⟩

end Schedules

end Xv6
