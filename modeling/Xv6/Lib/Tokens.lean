import Mathlib

/-!
# One holder for each resource in use

Holders hold at most one resource each. A resource is in use if and only if somebody holds it,
and then it is one holder. Resources come into use with a holder that held nothing, and go out
of use when their holder gives them up; a resource that changes hands does both.
-/

variable {Resource Holder : Type*} {inUse : Resource → Prop} {holds : Holder → Option Resource}

structure Tokens (inUse : Resource → Prop) (holds : Holder → Option Resource) : Prop where
  held : ∀ resource, inUse resource ↔ ∃ holder, holds holder = some resource
  single : ∀ holder other resource, holds holder = some resource → holds other = some resource →
    holder = other

namespace Tokens

open Function

theorem congr {used : Resource → Prop} {holding : Holder → Option Resource}
    (tokens : Tokens inUse holds) (sameUse : ∀ resource, used resource ↔ inUse resource)
    (sameHolder : ∀ holder, holding holder = holds holder) : Tokens used holding := by
  rw [funext sameHolder]
  exact ⟨fun resource => (sameUse resource).trans (tokens.held resource), tokens.single⟩

theorem none : Tokens (fun _ : Resource => False) (fun _ : Holder => Option.none) where
  held := by simp
  single := by simp

variable [DecidableEq Holder]

theorem add (tokens : Tokens inUse holds) (holder : Holder) (resource : Resource)
    (empty : holds holder = Option.none) (unused : ¬inUse resource) :
    Tokens (fun other => inUse other ∨ other = resource)
      (update holds holder (some resource)) where
  held := by
    intro other
    refine ⟨?_, ?_⟩
    · rintro (used | rfl)
      · rcases (tokens.held other).mp used with ⟨owner, holdsIt⟩
        refine ⟨owner, ?_⟩
        rw [update_of_ne, holdsIt]
        rintro rfl
        simp [empty] at holdsIt
      · exact ⟨holder, update_self ..⟩
    · rintro ⟨owner, holdsIt⟩
      by_cases same : owner = holder
      · rw [same, update_self, Option.some.injEq] at holdsIt
        exact Or.inr holdsIt.symm
      · rw [update_of_ne same] at holdsIt
        exact Or.inl ((tokens.held other).mpr ⟨owner, holdsIt⟩)
  single := by
    have fresh : ∀ owner, holds owner ≠ some resource :=
      fun owner holdsIt => unused ((tokens.held resource).mpr ⟨owner, holdsIt⟩)
    intro owner other item holdsIt otherHolds
    by_cases same : owner = holder
    · by_cases otherSame : other = holder
      · rw [same, otherSame]
      · rw [same, update_self] at holdsIt
        rw [update_of_ne otherSame, ← holdsIt] at otherHolds
        exact absurd otherHolds (fresh other)
    · rw [update_of_ne same] at holdsIt
      by_cases otherSame : other = holder
      · rw [otherSame, update_self] at otherHolds
        rw [← otherHolds] at holdsIt
        exact absurd holdsIt (fresh owner)
      · rw [update_of_ne otherSame] at otherHolds
        exact tokens.single owner other item holdsIt otherHolds

theorem remove (tokens : Tokens inUse holds) (holder : Holder) (resource : Resource)
    (had : holds holder = some resource) :
    Tokens (fun other => inUse other ∧ other ≠ resource)
      (update holds holder Option.none) where
  held := by
    intro other
    refine ⟨?_, ?_⟩
    · rintro ⟨used, different⟩
      rcases (tokens.held other).mp used with ⟨owner, holdsIt⟩
      refine ⟨owner, ?_⟩
      rw [update_of_ne, holdsIt]
      rintro rfl
      rw [had, Option.some.injEq] at holdsIt
      exact different holdsIt.symm
    · rintro ⟨owner, holdsIt⟩
      by_cases same : owner = holder
      · simp [same] at holdsIt
      · rw [update_of_ne same] at holdsIt
        refine ⟨(tokens.held other).mpr ⟨owner, holdsIt⟩, ?_⟩
        rintro rfl
        exact same (tokens.single owner holder other holdsIt had)
  single := by
    intro owner other item holdsIt otherHolds
    by_cases same : owner = holder
    · simp [same] at holdsIt
    · by_cases otherSame : other = holder
      · simp [otherSame] at otherHolds
      · rw [update_of_ne same] at holdsIt
        rw [update_of_ne otherSame] at otherHolds
        exact tokens.single owner other item holdsIt otherHolds

theorem pass (tokens : Tokens inUse holds) (holder heir : Holder) (resource : Resource)
    (had : holds holder = some resource) (empty : holds heir = Option.none) :
    Tokens inUse
      (update (update holds holder Option.none) heir (some resource)) := by
  have different : heir ≠ holder := by
    rintro rfl
    simp [had] at empty
  have isEmpty : update holds holder Option.none heir = Option.none := by
    rw [update_of_ne different, empty]
  have used : inUse resource := (tokens.held resource).mpr ⟨holder, had⟩
  apply ((tokens.remove holder resource had).add heir resource isEmpty (by simp)).congr ?_
    (fun _ => rfl)
  intro other
  by_cases same : other = resource <;> simp [same, used]

end Tokens
