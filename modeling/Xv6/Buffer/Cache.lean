import Xv6.Buffer.Model
import Xv6.Lib.Count

/-!
# What the buffer cache keeps

The buffers form one circular list, most recently released first; no block is cached twice; the
reference count of a buffer is the number of processes that have it or are about to get it or
to give it back. So a buffer that is recycled is one that nobody has, and the one that has been
left alone for the longest time.
-/

namespace Xv6

open Transition

namespace Bcache

variable {cache : Bcache} {list : List BufId} {b other : BufId} {dev blockno : ℕ}
  {result : BufId × Bcache}

/-- The buffers in the order of the links. -/
structure Mru (cache : Bcache) (list : List BufId) : Prop where
  circular : cache.links.Circular none (list.map some)
  complete : ∀ b, b ∈ list

namespace Mru

theorem nodup (mru : cache.Mru list) : list.Nodup :=
  (List.nodup_cons.mp mru.circular.nodup).2.of_map

theorem loop_eq {step : BufNode → BufNode} {test : Buf → Bool}
    (path : Links.Path step none (list.map some) none) (nodup : list.Nodup) :
    cache.loop step test = list.find? fun b => test (cache.buf b) := by
  have bound : list.length ≤ NBUF := by
    simpa using nodup.length_le_card
  have join_some : ∀ found : Option BufId, (found.map some).join = found := by
    intro found
    cases found <;> rfl
  rw [Bcache.loop, path.scan_eq (by simp) (by rw [List.length_map]; omega), List.find?_map]
  exact join_some _

section

variable (mru : cache.Mru list)

include mru

theorem cached_eq : cache.cached dev blockno =
      list.find? fun b => decide ((cache.buf b).dev = dev ∧ (cache.buf b).blockno = blockno) :=
  loop_eq mru.circular.forward mru.nodup

theorem victim_eq : cache.victim = list.reverse.find? fun b => decide (cache.buf b).Unused := by
  apply loop_eq _ (List.nodup_reverse.mpr mru.nodup)
  rw [List.map_reverse]
  exact mru.circular.backward

/-- What `bget` returns: the buffer of the block, or the first unused buffer from the end of the
list if no buffer has the block. -/
theorem bget_cases (got : cache.bget dev blockno = some result) :
    ((cache.buf result.1).dev = dev ∧ (cache.buf result.1).blockno = blockno ∧
        result.2 = cache.modify result.1 fun buf => { buf with refcnt := buf.refcnt + 1 }) ∨
      (∀ b, (cache.buf b).dev = dev → (cache.buf b).blockno ≠ blockno) ∧
        (∃ front back, list = front ++ result.1 :: back ∧
          ∀ c ∈ back, ¬(cache.buf c).Unused) ∧
        (cache.buf result.1).Unused ∧
        result.2 = cache.modify result.1 fun buf =>
          { buf with dev, blockno, valid := false, dirty := false, refcnt := 1 } := by
  unfold Bcache.bget at got
  cases found : cache.cached dev blockno with
  | some b =>
      left
      rw [mru.cached_eq] at found
      have matching := List.find?_some found
      rw [decide_eq_true_eq] at matching
      simp only [mru.cached_eq, found, Option.some.injEq] at got
      subst got
      exact ⟨matching.1, matching.2, rfl⟩
  | none =>
      right
      simp only [found, Option.map_eq_some_iff] at got
      rcases got with ⟨b, isVictim, rfl⟩
      rw [mru.cached_eq, List.find?_eq_none] at found
      rw [mru.victim_eq, List.find?_eq_some_iff_append] at isVictim
      rcases isVictim with ⟨isUnused, behind, before, listIs, none⟩
      refine ⟨?_, ⟨before.reverse, behind.reverse, ?_, ?_⟩, by simpa using isUnused, rfl⟩
      · intro b sameDev sameBlock
        exact found b (mru.complete b) (by simp [sameDev, sameBlock])
      · rw [← List.reverse_reverse list, listIs]
        simp
      · intro c mem
        simpa using none c (List.mem_reverse.mp mem)

theorem bget_none (panics : cache.bget dev blockno = none) (b : BufId) : ¬(cache.buf b).Unused := by
  unfold Bcache.bget at panics
  cases found : cache.cached dev blockno with
  | some b => simp [found] at panics
  | none =>
      simp only [found, Option.map_eq_none_iff, mru.victim_eq, List.find?_eq_none,
        List.mem_reverse, decide_eq_true_eq] at panics
      exact panics b (mru.complete b)

theorem modify {change : Buf → Buf} : (cache.modify b change).Mru list :=
  ⟨mru.circular, mru.complete⟩

end

theorem brelse {front back : List BufId} (mru : cache.Mru (front ++ b :: back)) :
    (cache.brelse b).Mru
      (if (cache.buf b).refcnt - 1 = 0 then b :: (front ++ back) else front ++ b :: back) := by
  have isCount : ((cache.modify b fun buf => { buf with refcnt := buf.refcnt - 1 }).buf b).refcnt =
      (cache.buf b).refcnt - 1 := by
    simp [Bcache.modify]
  have fresh : b ∉ front ++ back :=
    (List.nodup_cons.mp (List.nodup_middle.mp mru.nodup)).1
  simp only [Bcache.brelse, isCount]
  split
  · refine ⟨?_, ?_⟩
    · have circular := mru.circular
      rw [List.map_append, List.map_cons] at circular
      rw [List.map_cons, List.map_append]
      apply circular.unlink.pushFront
      simpa using fresh
    · intro c
      have mem := mru.complete c
      simp only [List.mem_append, List.mem_cons] at mem ⊢
      tauto
  · exact mru.modify

end Mru

theorem mru_binit : binit.Mru (List.finRange NBUF).reverse := by
  have linked : ∀ bufs : List BufId, ∀ links : Links BufNode, ∀ done : List BufId,
      links.Circular none (done.map some) → (bufs ++ done).Nodup →
      (bufs.foldl (fun links b => links.pushFront none (some b)) links).Circular none
        ((bufs.reverse ++ done).map some) := by
    intro bufs
    induction bufs with
    | nil => exact fun links done circular _ => circular
    | cons b bufs ih =>
        intro links done circular nodup
        rw [List.cons_append, List.nodup_cons] at nodup
        rw [List.foldl_cons, List.reverse_cons, List.append_assoc, List.singleton_append]
        apply ih
        · rw [List.map_cons]
          apply circular.pushFront
          have fresh : b ∉ done := fun mem => nodup.1 (List.mem_append_right _ mem)
          simpa using fresh
        · rw [List.nodup_middle]
          exact List.nodup_cons.mpr nodup
  refine ⟨?_, fun b => by simp⟩
  have empty : Links.Circular ⟨fun _ => none, fun _ => none⟩ (none : BufNode) (([] : List BufId).map some) :=
    ⟨by simp, rfl, rfl⟩
  have all := linked (List.finRange NBUF) _ [] empty (by simpa using List.nodup_finRange NBUF)
  rw [List.append_nil] at all
  exact all

end Bcache

/-! ## Steps -/

/-- The process is in a call on the buffer. -/
def BufPhase.On (phase : BufPhase) (b : BufId) : Prop :=
  phase = .acquiring b ∨ phase = .releasing b

instance (phase : BufPhase) (b : BufId) : Decidable (phase.On b) :=
  inferInstanceAs (Decidable (_ ∨ _))

namespace BufPhase

variable {a b : BufId}

@[simp]
theorem on_between : ¬between.On b := by simp [On]

@[simp]
theorem on_acquiring : (acquiring a).On b ↔ b = a := by simp [On, eq_comm]

@[simp]
theorem on_releasing : (releasing a).On b ↔ b = a := by simp [On, eq_comm]

end BufPhase

namespace BufState

inductive Steps (state : BufState) (pid : Slot) : BufCall → BufState → Prop
  | bget {dev blockno : ℕ} {result : BufId × Bcache} (idle : state.phase pid = .between)
      (got : state.cache.bget dev blockno = some result) :
      Steps state pid (.bget dev blockno)
        { cache := result.2, phase := Function.update state.phase pid (.acquiring result.1) }
  | acquiresleep {b : BufId} (waits : state.phase pid = .acquiring b)
      (free : (state.cache.buf b).holder = none) :
      Steps state pid (.acquiresleep b)
        ((state.modify b fun buf => { buf with holder := some pid }).setPhase pid .between)
  | bread {b : BufId} (holds : state.Holds pid b) :
      Steps state pid (.bread b) (state.modify b fun buf => if buf.valid then buf else buf.iderw)
  | bwrite {b : BufId} (holds : state.Holds pid b) :
      Steps state pid (.bwrite b) (state.modify b fun buf => { buf with dirty := true }.iderw)
  | logWrite {b : BufId} (holds : state.Holds pid b) :
      Steps state pid (.logWrite b) (state.modify b fun buf => { buf with dirty := true })
  | releasesleep {b : BufId} (holds : state.Holds pid b) :
      Steps state pid (.releasesleep b)
        ((state.modify b fun buf => { buf with holder := none }).setPhase pid (.releasing b))
  | brelse {b : BufId} (leaves : state.phase pid = .releasing b) :
      Steps state pid (.brelse b)
        ({ state with cache := state.cache.brelse b }.setPhase pid .between)

variable {state next : BufState} {pid : Slot} {call : BufCall} {b : BufId}

theorem step_cases (stepped : state.step pid call = some next) : state.Steps pid call next := by
  cases call with
  | bget dev blockno =>
      simp only [step] at stepped
      split at stepped
      · rename_i idle
        rcases Option.map_eq_some_iff.mp stepped with ⟨result, got, rfl⟩
        exact .bget idle got
      · contradiction
  | acquiresleep b =>
      simp only [step] at stepped
      split at stepped
      · rename_i ready
        cases stepped
        exact .acquiresleep ready.1 ready.2
      · contradiction
  | bread b | bwrite b | logWrite b | releasesleep b =>
      simp only [step] at stepped
      split at stepped
      · rename_i holds
        cases stepped
        constructor
        exact holds
      · contradiction
  | brelse b =>
      simp only [step] at stepped
      split at stepped
      · rename_i leaves
        cases stepped
        exact .brelse leaves
      · contradiction

/-- The processes that are in a call on the buffer. -/
def inCall (state : BufState) (b : BufId) : Finset Slot :=
  Finset.univ.filter fun pid => (state.phase pid).On b

/-- The number of processes that have the buffer, or are about to get it or to give it back. -/
def refs (state : BufState) (b : BufId) : ℕ :=
  (state.inCall b).card + if (state.cache.buf b).holder = none then 0 else 1

end BufState

/-- The time of the last `brelse` of a buffer, zero if there was none. -/
def lastRelease : Trace BufState (Slot × BufCall) → BufId → ℕ
  | [], _ => 0
  | (_, label) :: trace, b =>
      if label.2 = .brelse b then trace.length + 1 else lastRelease trace b

theorem lastRelease_le (trace : Trace BufState (Slot × BufCall)) (b : BufId) :
    lastRelease trace b ≤ trace.length := by
  induction trace with
  | nil => rfl
  | cons entry trace ih =>
      simp only [lastRelease, List.length_cons]
      split <;> omega

/-- A buffer that has been released more recently than another stands before it, as far as
nobody has them. -/
def Bcache.InOrder (cache : Bcache) (time : BufId → ℕ) (list : List BufId) : Prop :=
  list.Pairwise fun newer older => (cache.buf newer).refcnt = 0 → (cache.buf older).refcnt = 0 →
    time older ≤ time newer

/-- Buffers of a device have different blocks. -/
def Bcache.Unique (cache : Bcache) : Prop :=
  ∀ b c, (cache.buf b).dev ≠ 0 → (cache.buf b).dev = (cache.buf c).dev →
    (cache.buf b).blockno = (cache.buf c).blockno → b = c

structure CacheInv (trace : Trace BufState (Slot × BufCall)) (state : BufState) : Prop where
  list : ∃ list, state.cache.Mru list ∧ state.cache.InOrder (lastRelease trace) list
  unique : state.cache.Unique
  refs : ∀ b, (state.cache.buf b).refcnt = state.refs b

section Counting

variable {state : BufState} {pid : Slot} {b c : BufId} {phase : BufPhase} {change : Buf → Buf}

@[simp]
theorem Bcache.modify_buf_self (cache : Bcache) : (cache.modify b change).buf b = change (cache.buf b) := by
  simp [Bcache.modify]

@[simp]
theorem Bcache.modify_buf_of_ne (cache : Bcache) (different : c ≠ b) :
    (cache.modify b change).buf c = cache.buf c := by
  simp [Bcache.modify, different]

theorem refs_move {next : BufState} (moved : next.phase = Function.update state.phase pid phase) :
    next.refs c + (if (state.phase pid).On c then 1 else 0) +
        (if (state.cache.buf c).holder = none then 0 else 1) =
      state.refs c + (if phase.On c then 1 else 0) +
        if (next.cache.buf c).holder = none then 0 else 1 := by
  have count := Count.card_filter_update (fun phase => phase.On c) state.phase pid phase
  rw [← moved] at count
  simp only [BufState.refs, BufState.inCall]
  omega

theorem refs_modify (holder : (change (state.cache.buf b)).holder = (state.cache.buf b).holder) :
    (state.modify b change).refs c = state.refs c := by
  have sameHolder : ((state.modify b change).cache.buf c).holder = (state.cache.buf c).holder := by
    by_cases same : c = b
    · subst same
      exact (congrArg Buf.holder (Bcache.modify_buf_self _)).trans holder
    · exact congrArg Buf.holder (Bcache.modify_buf_of_ne _ same)
  simp only [BufState.refs, sameHolder]
  rfl

end Counting

variable {state next : BufState} {pid : Slot} {call : BufCall} {list : List BufId}
  {trace : Trace BufState (Slot × BufCall)}

theorem Bcache.Mru.bget_refcnt {cache : Bcache} {dev blockno : ℕ} {result : BufId × Bcache}
    (mru : cache.Mru list) (got : cache.bget dev blockno = some result) (c : BufId) :
    (result.2.buf c).holder = (cache.buf c).holder ∧
      (result.2.buf c).refcnt = (cache.buf c).refcnt + if c = result.1 then 1 else 0 := by
  rcases mru.bget_cases got with ⟨_, _, isNow⟩ | ⟨_, _, unused, isNow⟩
  · rw [isNow]
    by_cases same : c = result.1 <;> simp [same]
  · rw [isNow]
    by_cases same : c = result.1
    · simp [same, unused.1]
    · simp [same]

theorem Bcache.brelse_buf (cache : Bcache) (b : BufId) :
    (cache.brelse b).buf =
      (cache.modify b fun buf => { buf with refcnt := buf.refcnt - 1 }).buf := by
  simp only [Bcache.brelse]
  split <;> rfl

theorem refs_step (mru : state.cache.Mru list) (steps : state.Steps pid call next)
    (refs : ∀ b, (state.cache.buf b).refcnt = state.refs b) (c : BufId) :
    (next.cache.buf c).refcnt = next.refs c := by
  have before := refs c
  cases steps with
  | @bget dev blockno result idle got =>
      have moved := @refs_move state pid c (.acquiring result.1)
        { cache := result.2, phase := Function.update state.phase pid (.acquiring result.1) } rfl
      rcases mru.bget_refcnt got c with ⟨holder, refcnt⟩
      simp only [idle, BufPhase.on_between, BufPhase.on_acquiring, holder, if_false] at moved
      simp only [refcnt]
      omega
  | @acquiresleep b waits free =>
      have moved := @refs_move state pid c .between
        ((state.modify b fun buf => { buf with holder := some pid }).setPhase pid .between) rfl
      simp only [waits, BufPhase.on_between, BufPhase.on_acquiring, BufState.setPhase,
        BufState.modify, if_false] at moved ⊢
      by_cases same : c = b
      · simp only [same, free, Bcache.modify_buf_self, reduceCtorEq, if_true, if_false]
          at moved before ⊢
        omega
      · simp only [same, Bcache.modify_buf_of_ne _ same, if_false] at moved ⊢
        omega
  | @bread b holds =>
      rw [refs_modify (by split <;> rfl)]
      by_cases same : c = b
      · subst same
        simp only [BufState.modify, Bcache.modify_buf_self]
        split <;> exact before
      · simpa only [BufState.modify, Bcache.modify_buf_of_ne _ same] using before
  | @bwrite b holds | @logWrite b holds =>
      rw [refs_modify rfl]
      by_cases same : c = b
      · subst same
        simp only [BufState.modify, Bcache.modify_buf_self]
        exact before
      · simpa only [BufState.modify, Bcache.modify_buf_of_ne _ same] using before
  | @releasesleep b holds =>
      have moved := @refs_move state pid c (.releasing b)
        ((state.modify b fun buf => { buf with holder := none }).setPhase pid (.releasing b)) rfl
      simp only [holds.1, BufPhase.on_between, BufPhase.on_releasing, BufState.setPhase,
        BufState.modify, if_false] at moved ⊢
      by_cases same : c = b
      · simp only [same, holds.2, Bcache.modify_buf_self, reduceCtorEq, if_true, if_false]
          at moved before ⊢
        omega
      · simp only [same, Bcache.modify_buf_of_ne _ same, if_false] at moved ⊢
        omega
  | @brelse b leaves =>
      have moved := @refs_move state pid c .between
        ({ state with cache := state.cache.brelse b }.setPhase pid .between) rfl
      simp only [leaves, BufPhase.on_between, BufPhase.on_releasing, BufState.setPhase,
        Bcache.brelse_buf, if_false] at moved ⊢
      by_cases same : c = b
      · simp only [same, Bcache.modify_buf_self, if_true] at moved before ⊢
        omega
      · simp only [same, Bcache.modify_buf_of_ne _ same, if_false] at moved ⊢
        omega

inductive BufEffect (state : BufState) (list : List BufId) (pid : Slot) (call : BufCall)
    (c : BufId) (after : Buf) : Prop
  | same (notWritten : call ≠ .bwrite c) (isNow : after = state.cache.buf c)
  | found {dev blockno : ℕ} {cache : Bcache} (isCall : call = .bget dev blockno)
      (got : state.cache.bget dev blockno = some (c, cache))
      (isDev : (state.cache.buf c).dev = dev)
      (isNow : after = { state.cache.buf c with refcnt := (state.cache.buf c).refcnt + 1 })
  | recycled {dev blockno : ℕ} {cache : Bcache} (isCall : call = .bget dev blockno)
      (got : state.cache.bget dev blockno = some (c, cache)) (unused : (state.cache.buf c).Unused)
      (missing : ∀ b, (state.cache.buf b).dev = dev → (state.cache.buf b).blockno ≠ blockno)
      (last : ∃ front back, list = front ++ c :: back ∧ ∀ b ∈ back, ¬(state.cache.buf b).Unused)
      (isNow : after =
        { state.cache.buf c with dev, blockno, valid := false, dirty := false, refcnt := 1 })
  | locked (isCall : call = .acquiresleep c) (waits : state.phase pid = .acquiring c)
      (isNow : after = { state.cache.buf c with holder := some pid })
  | filled (isCall : call = .bread c) (isNow : after = (state.cache.buf c).iderw)
  | written (isCall : call = .bwrite c)
      (isNow : after = { state.cache.buf c with dirty := true }.iderw)
  | logged (isCall : call = .logWrite c) (holds : state.Holds pid c)
      (isNow : after = { state.cache.buf c with dirty := true })
  | unlocked (isCall : call = .releasesleep c)
      (isNow : after = { state.cache.buf c with holder := none })
  | released (isCall : call = .brelse c)
      (isNow : after = { state.cache.buf c with refcnt := (state.cache.buf c).refcnt - 1 })

theorem BufState.Steps.effect (steps : state.Steps pid call next) (mru : state.cache.Mru list)
    (c : BufId) : BufEffect state list pid call c (next.cache.buf c) := by
  have modified : ∀ {b : BufId} {change : Buf → Buf}, (call = .bwrite c → c = b) →
      (c = b → BufEffect state list pid call c (change (state.cache.buf c))) →
      BufEffect state list pid call c ((state.cache.modify b change).buf c) := by
    intro b change isWrite here
    by_cases same : c = b
    · have effect := here same
      subst same
      rwa [Bcache.modify_buf_self]
    · exact .same (fun written => same (isWrite written)) (Bcache.modify_buf_of_ne _ same)
  cases steps with
  | @bget dev blockno result idle got =>
      rcases mru.bget_cases got with ⟨isDev, _, isNow⟩ | ⟨missing, last, unused, isNow⟩
      · simp only [isNow]
        apply modified (by simp)
        rintro rfl
        exact .found rfl got isDev rfl
      · simp only [isNow]
        apply modified (by simp)
        rintro rfl
        exact .recycled rfl got unused missing last rfl
  | acquiresleep waits free =>
      simp only [BufState.setPhase, BufState.modify]
      apply modified (by simp)
      rintro rfl
      exact .locked rfl waits rfl
  | bread holds =>
      simp only [BufState.modify]
      apply modified (by simp)
      rintro rfl
      split
      · exact .same (by simp) rfl
      · exact .filled rfl rfl
  | bwrite holds =>
      simp only [BufState.modify]
      apply modified (by simp [eq_comm])
      rintro rfl
      exact .written rfl rfl
  | logWrite holds =>
      simp only [BufState.modify]
      apply modified (by simp)
      rintro rfl
      exact .logged rfl holds rfl
  | releasesleep holds =>
      simp only [BufState.setPhase, BufState.modify]
      apply modified (by simp)
      rintro rfl
      exact .unlocked rfl rfl
  | brelse leaves =>
      simp only [BufState.setPhase, Bcache.brelse_buf]
      apply modified (by simp)
      rintro rfl
      exact .released rfl rfl

theorem BufEffect.identity {c : BufId} {after : Buf} (effect : BufEffect state list pid call c after) :
    after.dev = (state.cache.buf c).dev ∧ after.blockno = (state.cache.buf c).blockno ∨
      ∃ cache, call = .bget after.dev after.blockno ∧
        state.cache.bget after.dev after.blockno = some (c, cache) ∧
        (state.cache.buf c).Unused ∧
        (∀ b, (state.cache.buf b).dev = after.dev → (state.cache.buf b).blockno ≠ after.blockno) ∧
        ∃ front back, list = front ++ c :: back ∧ ∀ b ∈ back, ¬(state.cache.buf b).Unused := by
  cases effect with
  | @recycled dev blockno cache isCall got unused missing last isNow =>
      right
      subst isNow
      exact ⟨cache, isCall, got, unused, missing, last⟩
  | same _ isNow | found _ _ _ isNow | locked _ _ isNow | filled _ isNow | written _ isNow
  | logged _ _ isNow | unlocked _ isNow | released _ isNow =>
      left
      rw [isNow]
      exact ⟨rfl, rfl⟩

theorem unique_step (mru : state.cache.Mru list) (unique : state.cache.Unique)
    (steps : state.Steps pid call next) : next.cache.Unique := by
  intro b c onDevice sameDev sameBlock
  rcases (steps.effect mru b).identity with ⟨devB, blockB⟩ | ⟨_, callB, gotB, _, missing, _⟩
  · rcases (steps.effect mru c).identity with ⟨devC, blockC⟩ | ⟨_, _, _, _, missing, _⟩
    · apply unique b c
      · rw [← devB]
        exact onDevice
      · rw [← devB, ← devC, sameDev]
      · rw [← blockB, ← blockC, sameBlock]
    · exact absurd (blockB.symm.trans sameBlock) (missing b (devB.symm.trans sameDev))
  · rcases (steps.effect mru c).identity with ⟨devC, blockC⟩ | ⟨_, _, gotC, _, _, _⟩
    · exact absurd (blockC.symm.trans sameBlock.symm) (missing c (devC.symm.trans sameDev.symm))
    · rw [sameDev, sameBlock, gotC] at gotB
      cases gotB
      rfl

theorem Bcache.InOrder.mono {cache after : Bcache} {time later : BufId → ℕ}
    (inOrder : cache.InOrder time list)
    (unused : ∀ b, (after.buf b).refcnt = 0 → (cache.buf b).refcnt = 0 ∧ later b = time b) :
    after.InOrder later list := by
  apply inOrder.imp
  intro newer older ordered newerUnused olderUnused
  rcases unused newer newerUnused with ⟨newerWas, newerTime⟩
  rcases unused older olderUnused with ⟨olderWas, olderTime⟩
  rw [newerTime, olderTime]
  exact ordered newerWas olderWas

theorem BufEffect.refcnt {c : BufId} {after : Buf} (effect : BufEffect state list pid call c after)
    (notBrelse : ∀ b, call ≠ .brelse b) (unused : after.refcnt = 0) :
    (state.cache.buf c).refcnt = 0 := by
  cases effect with
  | found _ _ _ isNow | recycled _ _ _ _ _ isNow => simp [isNow] at unused
  | released isCall _ => exact absurd isCall (notBrelse c)
  | same _ isNow | locked _ _ isNow | filled _ isNow | written _ isNow | logged _ _ isNow
  | unlocked _ isNow =>
      rw [isNow] at unused
      exact unused

theorem inOrder_brelse {b : BufId} (mru : state.cache.Mru list)
    (inOrder : state.cache.InOrder (lastRelease trace) list) :
    ∃ after, (state.cache.brelse b).Mru after ∧
      (state.cache.brelse b).InOrder
        (lastRelease ((state, (pid, .brelse b)) :: trace)) after := by
  rcases List.append_of_mem (mru.complete b) with ⟨front, back, rfl⟩
  have released := mru.brelse
  have elsewhere : ∀ c, c ≠ b → ((state.cache.brelse b).buf c) = state.cache.buf c ∧
      lastRelease ((state, (pid, .brelse b)) :: trace) c = lastRelease trace c := by
    intro c different
    rw [Bcache.brelse_buf, Bcache.modify_buf_of_ne _ different]
    exact ⟨rfl, by simp [lastRelease, Ne.symm different]⟩
  refine ⟨_, released, ?_⟩
  have isCount : ((state.cache.brelse b).buf b).refcnt = (state.cache.buf b).refcnt - 1 := by
    simp [Bcache.brelse_buf]
  split
  · refine List.pairwise_cons.mpr ⟨?_, ?_⟩
    · -- the buffer that moves is the one released last
      intro c _ _ _
      have bound := lastRelease_le trace c
      simp only [lastRelease, if_true]
      split <;> omega
    · have fresh := (List.nodup_cons.mp (List.nodup_middle.mp mru.nodup)).1
      have sublist : (front ++ back).Sublist (front ++ b :: back) :=
        (List.sublist_cons_self b back).append_left front
      refine (List.Pairwise.sublist sublist inOrder).imp_of_mem ?_
      intro newer older newerMem olderMem ordered
      rcases elsewhere newer (ne_of_mem_of_not_mem newerMem fresh) with ⟨newerBuf, newerTime⟩
      rcases elsewhere older (ne_of_mem_of_not_mem olderMem fresh) with ⟨olderBuf, olderTime⟩
      rw [newerBuf, olderBuf, newerTime, olderTime]
      exact ordered
  · rename_i stillUsed
    apply inOrder.mono
    intro c unused
    have different : c ≠ b := by
      rintro rfl
      exact stillUsed (isCount.symm.trans unused)
    rcases elsewhere c different with ⟨bufIs, timeIs⟩
    rw [bufIs] at unused
    exact ⟨unused, timeIs⟩

namespace CacheInv

theorem step (inv : CacheInv trace state) (stepped : state.step pid call = some next) :
    CacheInv ((state, (pid, call)) :: trace) next := by
  have steps := BufState.step_cases stepped
  rcases inv.list with ⟨list, mru, inOrder⟩
  refine ⟨?_, unique_step mru inv.unique steps, refs_step mru steps inv.refs⟩
  by_cases isBrelse : ∃ b, call = .brelse b
  · rcases isBrelse with ⟨b, rfl⟩
    cases steps with
    | brelse leaves => exact inOrder_brelse mru inOrder
  · have notBrelse : ∀ b, call ≠ .brelse b := fun b same => isBrelse ⟨b, same⟩
    have mruNext : next.cache.Mru list := by
      cases steps with
      | @bget dev blockno result idle got =>
          rcases mru.bget_cases got with ⟨_, _, isNow⟩ | ⟨_, _, _, isNow⟩ <;>
          · simp only [isNow]
            exact mru.modify
      | brelse leaves => exact absurd rfl (notBrelse _)
      | _ => exact ⟨mru.circular, mru.complete⟩
    refine ⟨list, mruNext, inOrder.mono fun b unused => ?_⟩
    exact ⟨(steps.effect mru b).refcnt notBrelse unused, by simp [lastRelease, notBrelse b]⟩

theorem cacheInv_init : CacheInv [] bufInit := by
  refine ⟨⟨_, Bcache.mru_binit, ?_⟩, ?_, ?_⟩
  · exact List.Pairwise.imp (fun _ _ _ => le_rfl) (List.pairwise_of_forall fun _ _ => trivial)
  · exact fun b c onDevice _ _ => absurd rfl onDevice
  · intro b
    simp [bufInit, BufState.refs, BufState.inCall, Bcache.binit, Buf.empty]

theorem of_run (run : Run bufStep bufInit trace state) : CacheInv trace state :=
  run.invariant CacheInv cacheInv_init (fun inv _ _ stepped => inv.step stepped) (Trace.all_true _)

end CacheInv

/-- The links form one circular list of all buffers; no block of a device is in two buffers; and
a buffer gets another block only if nobody has it and the log does not need it, and then no such
buffer has been released before it. -/
theorem buffer_cache (run : Run bufStep bufInit trace state) :
    (∃ list : List BufId, (∀ b, list.count b = 1) ∧
      Links.Path state.cache.links.next none (list.map some) none ∧
      ∀ node, state.cache.links.prev (state.cache.links.next node) = node ∧
        state.cache.links.next (state.cache.links.prev node) = node) ∧
    (∀ b c, (state.cache.buf b).dev ≠ 0 → (state.cache.buf b).dev = (state.cache.buf c).dev →
      (state.cache.buf b).blockno = (state.cache.buf c).blockno → b = c) ∧
    ∀ label next, bufStep state label = some next → ∀ b,
      ((next.cache.buf b).dev, (next.cache.buf b).blockno) ≠
        ((state.cache.buf b).dev, (state.cache.buf b).blockno) →
      (state.cache.buf b).refcnt = 0 ∧ (state.cache.buf b).dirty = false ∧
      ∀ c, (state.cache.buf c).refcnt = 0 → (state.cache.buf c).dirty = false →
        lastRelease trace b ≤ lastRelease trace c := by
  have inv := CacheInv.of_run run
  rcases inv.list with ⟨list, mru, inOrder⟩
  refine ⟨⟨list, ?_, mru.circular.forward, ?_⟩, inv.unique, ?_⟩
  · exact fun b => List.count_eq_one_of_mem mru.nodup (mru.complete b)
  · intro node
    apply mru.circular.inverse
    cases node with
    | none => exact List.mem_cons_self
    | some b => exact List.mem_cons_of_mem _ (List.mem_map_of_mem (mru.complete b))
  · rintro ⟨pid, call⟩ next stepped b changed
    rcases ((BufState.step_cases stepped).effect mru b).identity with
      ⟨dev, blockno⟩ | ⟨_, _, _, isUnused, _, front, back, rfl, used⟩
    · exact absurd (by rw [dev, blockno]) changed
    · refine ⟨isUnused.1, isUnused.2, ?_⟩
      intro c unused clean
      have mem := mru.complete c
      rw [List.mem_append, List.mem_cons] at mem
      rcases mem with inFront | rfl | inBack
      · exact (List.pairwise_append.mp inOrder).2.2 c inFront b List.mem_cons_self unused
          isUnused.1
      · exact le_rfl
      · exact absurd ⟨unused, clean⟩ (used c inBack)

-- A process reads a block and releases it; the next block goes to another buffer.
theorem second_block_in_oldest_buffer : ∃ trace state next, Run bufStep bufInit trace state ∧
    bufStep state (0, .bget 1 6) = some next ∧ (next.cache.buf 1).blockno = 6 ∧
    (state.cache.buf 1).refcnt = 0 ∧ lastRelease trace 1 ≤ lastRelease trace 0 ∧
    lastRelease trace 0 = 5 := by
  obtain ⟨trace, state, run, gets, wasOld, unused, clean, time⟩ :
      ∃ trace state, Run bufStep bufInit trace state ∧
      ((bufStep state (0, .bget 1 6)).any fun next => (next.cache.buf 1).blockno = 6) = true ∧
      (state.cache.buf 1).blockno = 0 ∧ (state.cache.buf 0).refcnt = 0 ∧
      (state.cache.buf 0).dirty = false ∧ lastRelease trace 0 = 5 :=
    exists_run [(0, .bget 1 5), (0, .acquiresleep 0), (0, .bread 0), (0, .releasesleep 0),
      (0, .brelse 0)] (by decide +kernel)
  rcases (Option.any_eq_true _ _).mp gets with ⟨next, stepped, isNew⟩
  rw [decide_eq_true_eq] at isNew
  rcases (buffer_cache run).2.2 _ _ stepped 1 (by simp [isNew, wasOld]) with ⟨free, _, oldest⟩
  exact ⟨trace, state, next, run, stepped, isNew, free, oldest 0 unused clean, time⟩

end Xv6
