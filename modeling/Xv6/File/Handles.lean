import Xv6.File.Table

/-!
# Handles of file entries

Every entry counts its handles, and entries that nobody has are of no type. The entries of a
`pipealloc` that has not returned belong to its process alone.
-/

namespace Xv6

open Transition Function

namespace FilePhase

/-- The entries that the call of a process is still going to use. -/
@[simp]
def files : FilePhase → List FileId
  | .idle | .filealloc0 => []
  | .filealloc1 f0 => [f0]
  | .kalloc f0 f1 | .fill f0 f1 _ => [f0, f1]
  | .closing files _ | .pipeclose _ _ files _ | .kfree _ files _ => files

/-- The entries that belong to a `pipealloc` which has not returned. -/
@[simp]
def fresh : FilePhase → List FileId
  | .filealloc1 f0 => [f0]
  | .kalloc f0 f1 | .fill f0 f1 _ => [f0, f1]
  | .closing files true => files
  | _ => []

/-- A `pipealloc` that has failed closes no pipe. -/
def Quiet : FilePhase → Prop
  | .pipeclose _ _ _ failed | .kfree _ _ failed => failed = false
  | _ => True

theorem fresh_subset {phase : FilePhase} {f : FileId} (mem : f ∈ phase.fresh) :
    f ∈ phase.files := by
  cases phase with
  | closing list failed =>
      cases failed with
      | true => exact mem
      | false => simp at mem
  | filealloc1 f0 | kalloc f0 f1 | fill f0 f1 page => exact mem
  | _ => simp at mem

end FilePhase

variable {state next : FileState} {p q : Slot} {f g : FileId}

def refers (f : FileId) (handle : Slot × FileId) : Bool := handle.2 = f

/-- The table agrees with the handles; processes have the handles that their calls use, and
nobody else has those of a `pipealloc`. -/
structure HandleInv (state : FileState) : Prop where
  type : ∀ f, (state.file f).ref = 0 → (state.file f).type = .none
  count : ∀ f, (state.file f).ref = state.handles.countP (refers f)
  own : ∀ p, ∀ f ∈ (state.phase p).files, (p, f) ∈ state.handles
  nodup : ∀ p, (state.phase p).files.Nodup
  fresh : ∀ p, ∀ f ∈ (state.phase p).fresh, (state.file f).ref = 1 ∧ (state.file f).type = .none
  quiet : ∀ p, (state.phase p).Quiet

namespace HandleInv

section

variable (inv : HandleInv state)

include inv

theorem used (mine : (p, f) ∈ state.handles) : 1 ≤ (state.file f).ref := by
  rw [inv.count f]
  exact List.countP_pos_iff.mpr ⟨(p, f), mine, by simp [refers]⟩

theorem exclusive (single : (state.file f).ref = 1) (mine : (p, f) ∈ state.handles)
    (other : (q, f) ∈ state.handles) : q = p := by
  by_contra different
  have count := inv.count f
  have still : (q, f) ∈ state.handles.erase (p, f) := by
    rw [List.mem_erase_of_ne]
    · exact other
    · simpa using different
  have some : 0 < (state.handles.erase (p, f)).countP (refers f) :=
    List.countP_pos_iff.mpr ⟨(q, f), still, by simp [refers]⟩
  have isMine : refers f (p, f) = true := by simp [refers]
  rw [List.countP_erase, if_pos ⟨mine, isMine⟩] at some
  omega

theorem eq_of_fresh (isFresh : f ∈ (state.phase p).fresh) (other : (q, f) ∈ state.handles) :
    q = p :=
  inv.exclusive (inv.fresh p f isFresh).1 (inv.own p f (FilePhase.fresh_subset isFresh)) other

theorem move {phase : FilePhase} (file : next.file = state.file)
    (handles : next.handles = state.handles)
    (phaseIs : next.phase = update state.phase p phase)
    (own : ∀ f ∈ phase.files, (p, f) ∈ state.handles) (nodup : phase.files.Nodup)
    (fresh : ∀ f ∈ phase.fresh, (state.file f).ref = 1 ∧ (state.file f).type = .none)
    (quiet : phase.Quiet) : HandleInv next where
  type := by
    rw [file]
    exact inv.type
  count := by
    rw [file, handles]
    exact inv.count
  own := by
    intro q f mem
    rw [handles]
    rw [phaseIs] at mem
    by_cases same : q = p
    · rw [same, update_self] at mem
      rw [same]
      exact own f mem
    · rw [update_of_ne same] at mem
      exact inv.own q f mem
  nodup := by
    intro q
    rw [phaseIs]
    by_cases same : q = p
    · rw [same, update_self]
      exact nodup
    · rw [update_of_ne same]
      exact inv.nodup q
  fresh := by
    intro q f mem
    rw [file]
    rw [phaseIs] at mem
    by_cases same : q = p
    · rw [same, update_self] at mem
      exact fresh f mem
    · rw [update_of_ne same] at mem
      exact inv.fresh q f mem
  quiet := by
    intro q
    rw [phaseIs]
    by_cases same : q = p
    · rw [same, update_self]
      exact quiet
    · rw [update_of_ne same]
      exact inv.quiet q

theorem grow {file : File} (ref : file.ref = (state.file f).ref + 1)
    (type : file.type = (state.file f).type) (notFresh : ∀ q, f ∉ (state.phase q).fresh) :
    HandleInv { state.setFile f file with handles := (p, f) :: state.handles } where
  type := by
    intro g unused
    by_cases same : g = f
    · simp [same, ref] at unused
    · simp only [FileState.setFile, update_of_ne same] at unused ⊢
      exact inv.type g unused
  count := by
    intro g
    have count := inv.count g
    by_cases same : g = f
    · subst same
      simp [ref, refers, count]
    · simp [update_of_ne same, refers, Ne.symm same, count]
  own := fun q g mem => List.mem_cons_of_mem _ (inv.own q g mem)
  nodup := inv.nodup
  fresh := by
    intro q g mem
    have different : g ≠ f := by
      rintro rfl
      exact notFresh q mem
    simp only [FileState.setFile, update_of_ne different]
    exact inv.fresh q g mem
  quiet := inv.quiet

theorem claim (unused : (state.file f).ref = 0) : HandleInv (state.claim p f) := by
  refine inv.grow (by simp [unused]) rfl ?_
  intro q mem
  have one := (inv.fresh q f mem).1
  omega

theorem retype (f : FileId) (file : File) (used : 1 ≤ (state.file f).ref)
    (ref : file.ref = (state.file f).ref) (notFresh : ∀ q, f ∉ (state.phase q).fresh) :
    HandleInv (state.setFile f file) where
  type := by
    intro g unused
    by_cases same : g = f
    · simp only [FileState.setFile, same, update_self] at unused
      omega
    · simp only [FileState.setFile, update_of_ne same] at unused ⊢
      exact inv.type g unused
  count := by
    intro g
    by_cases same : g = f
    · subst same
      simp [ref, inv.count g]
    · simp [update_of_ne same, inv.count g]
  own := inv.own
  nodup := inv.nodup
  fresh := by
    intro q g mem
    have different : g ≠ f := by
      rintro rfl
      exact notFresh q mem
    simp only [FileState.setFile, update_of_ne different]
    exact inv.fresh q g mem
  quiet := inv.quiet

end

theorem release_file (state : FileState) (p : Slot) (f g : FileId) :
    g = f ∧ ((state.release p f).file g).ref = (state.file f).ref - 1 ∧
        (((state.release p f).file g).ref = 0 → ((state.release p f).file g).type = .none) ∨
      g ≠ f ∧ (state.release p f).file g = state.file g := by
  by_cases same : g = f
  · left
    refine ⟨same, ?_⟩
    simp only [FileState.release, FileState.setFile, same, update_self]
    split
    · rename_i more
      refine ⟨rfl, fun none => ?_⟩
      dsimp only at none
      omega
    · refine ⟨?_, fun _ => rfl⟩
      dsimp only
      omega
  · right
    refine ⟨same, ?_⟩
    simp [FileState.release, update_of_ne same]

section

variable (inv : HandleInv state)

include inv

theorem drop (mine : (p, f) ∈ state.handles) (notUsed : f ∉ (state.phase p).files) :
    HandleInv (state.release p f) where
  type := by
    intro g unused
    rcases release_file state p f g with ⟨_, _, none⟩ | ⟨_, same⟩
    · exact none unused
    · rw [same] at unused ⊢
      exact inv.type g unused
  count := by
    intro g
    have count := inv.count g
    have erased : (state.release p f).handles = state.handles.erase (p, f) := rfl
    rw [erased, List.countP_erase]
    rcases release_file state p f g with ⟨rfl, ref, _⟩ | ⟨different, same⟩
    · rw [if_pos ⟨mine, by simp [refers]⟩, ← count, ref]
    · rw [if_neg (by simp [refers, Ne.symm different]), Nat.sub_zero, ← count, same]
  own := by
    intro q g mem
    apply (List.mem_erase_of_ne ?_).mpr (inv.own q g mem)
    rintro ⟨⟩
    exact notUsed mem
  nodup := inv.nodup
  fresh := by
    intro q g mem
    rcases release_file state p f g with ⟨rfl, _⟩ | ⟨_, same⟩
    · rw [inv.eq_of_fresh mem mine] at notUsed
      exact absurd (FilePhase.fresh_subset mem) notUsed
    · rw [same]
      exact inv.fresh q g mem
  quiet := inv.quiet

theorem close {files : List FileId} {failed : Bool}
    (phase : state.phase p = .closing (f :: files) failed) :
    HandleInv ((state.release p f).setPhase p (.closing files failed)) := by
  have own := inv.own p
  have nodup := inv.nodup p
  have fresh := inv.fresh p
  rw [phase] at own nodup fresh
  have moved : HandleInv (state.setPhase p (.closing files failed)) := by
    refine inv.move rfl rfl rfl ?_ (List.nodup_cons.mp nodup).2 ?_ trivial
    · exact fun g mem => own g (List.mem_cons_of_mem _ mem)
    · intro g mem
      cases failed with
      | true => exact fresh g (List.mem_cons_of_mem _ mem)
      | false => simp at mem
  refine moved.drop (own f List.mem_cons_self) ?_
  simp only [FileState.setPhase, update_self]
  exact (List.nodup_cons.mp nodup).1

theorem notFresh_of_idle (idle : state.phase p = .idle) (mine : (p, f) ∈ state.handles) (q : Slot) :
    f ∉ (state.phase q).fresh := by
  intro mem
  rw [← inv.eq_of_fresh mem mine, idle] at mem
  simp at mem

theorem fill {f0 f1 : FileId} {page : ℕ} (phase : state.phase p = .fill f0 f1 page) :
    HandleInv ((state.fillPipe f0 f1 page).setPhase p .idle) := by
  have own := inv.own p
  have nodup := inv.nodup p
  rw [phase] at own nodup
  have different : f1 ≠ f0 := by
    intro same
    simp [same] at nodup
  have idle : HandleInv (state.setPhase p .idle) := by
    refine inv.move rfl rfl rfl ?_ ?_ ?_ trivial <;> simp
  have isIdle : (state.setPhase p .idle).phase p = .idle := by simp
  have first : (p, f0) ∈ state.handles := own f0 (by simp)
  have second : (p, f1) ∈ state.handles := own f1 (by simp)
  have withFirst := idle.retype f0
    { state.file f0 with type := .pipe, readable := true, writable := false, pipe := page }
    (inv.used first) rfl (idle.notFresh_of_idle isIdle first)
  have withBoth := withFirst.retype f1
    { state.file f1 with type := .pipe, readable := false, writable := true, pipe := page }
    (by simpa [different] using inv.used second)
    (by simp [different])
    (idle.notFresh_of_idle isIdle second)
  exact ⟨withBoth.type, withBoth.count, withBoth.own, withBoth.nodup, withBoth.fresh,
    withBoth.quiet⟩

theorem closeNext {files : List FileId} {failed : Bool}
    (phase : state.phase p = .closing (f :: files) failed) :
    HandleInv (state.closeNext p f files failed) := by
  have closed := inv.close phase
  have own := closed.own p
  have nodup := closed.nodup p
  simp only [FileState.setPhase, update_self] at own nodup
  simp only [FileState.closeNext]
  split
  · exact closed
  · split
    · rename_i isPipe
      have succeeded : failed = false := by
        by_contra isFailed
        have isFresh := (inv.fresh p f (by simp [phase, isFailed])).2
        simp [isFresh] at isPipe
      subst succeeded
      have quiet : (FilePhase.pipeclose (state.file f).pipe (state.file f).writable files
          false).Quiet := rfl
      refine HandleInv.move (p := p) closed rfl rfl ?_ ?_ ?_ ?_ quiet
      · simp [FileState.setPhase]
      · exact own
      · exact nodup
      · simp
    · exact closed
    · exact closed

theorem step {call : FileCall} (steps : FileSteps state p call next) : HandleInv next := by
  have own := inv.own p
  have nodup := inv.nodup p
  have fresh := inv.fresh p
  have quiet := inv.quiet p
  cases steps with
  | full idle => exact inv
  | filealloc idle unused => exact inv.claim unused
  | @setInode f idle mine isNone =>
      exact inv.retype f _ (inv.used mine) rfl (inv.notFresh_of_idle idle mine)
  | filedup idle mine used => exact inv.grow rfl rfl (inv.notFresh_of_idle idle mine)
  | fileclose idle mine =>
      refine inv.move rfl rfl rfl ?_ ?_ ?_ trivial <;> simp [mine]
  | pipealloc | noFirst | returns =>
      refine inv.move rfl rfl rfl ?_ ?_ ?_ trivial <;> simp
  | @first _ f phase unused =>
      have isNone := inv.type f unused
      refine (inv.claim unused).move rfl rfl rfl ?_ ?_ ?_ trivial <;>
        simp [isNone]
  | @second _ f0 f phase unused =>
      rw [phase] at own fresh
      have isNone := inv.type f unused
      have old := fresh f0 (by simp)
      have different : f0 ≠ f := by
        rintro rfl
        omega
      refine (inv.claim unused).move rfl rfl rfl ?_ ?_ ?_ trivial
      · simpa using Or.inr (own f0 (by simp))
      · simpa using different
      · simp [isNone, different, old]
  | noSecond phase | noPage phase | page phase free =>
      rw [phase] at own nodup fresh
      exact inv.move rfl rfl rfl own nodup fresh trivial
  | fill phase => exact inv.fill phase
  | close phase used => exact inv.closeNext phase
  | pipeclose phase closed =>
      rw [phase] at own nodup quiet
      obtain rfl : _ = false := quiet
      refine inv.move rfl rfl rfl ?_ ?_ ?_ ?_ <;> split <;>
        first | exact own | exact nodup | simp [FilePhase.Quiet]
  | kfree phase =>
      rw [phase] at own nodup quiet
      obtain rfl : _ = false := quiet
      exact inv.move rfl rfl rfl own nodup (by simp) trivial
  | takePage | givePage =>
      exact ⟨inv.type, inv.count, inv.own, inv.nodup, inv.fresh, inv.quiet⟩

end

theorem fileInit (page : ℕ → Bool) : HandleInv (fileInit page) where
  type := fun _ _ => rfl
  count := fun _ => rfl
  own := by simp [Xv6.fileInit]
  nodup := by simp [Xv6.fileInit]
  fresh := by simp [Xv6.fileInit]
  quiet := fun _ => trivial

end HandleInv

end Xv6
