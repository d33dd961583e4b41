import Mathlib

/-!
# Runs of a labelled step function

A system is given by a partial function `step : State → Label → Option State`; the
label resolves every choice that the system leaves open. A run remembers the pairs
of state and label it went through, the most recent one first, so that quantities
of the history (how often something happened, who came first) are recursive
functions of the trace.
-/

namespace Transition

variable {State Label : Type*}

/-- What a run has gone through: the state before each step and the label of the step,
most recent first. -/
abbrev Trace (State Label : Type*) := List (State × Label)

/-- `Run step start trace state`: the steps of `trace` lead from `start` to `state`. -/
inductive Run (step : State → Label → Option State) (start : State) :
    Trace State Label → State → Prop
  | refl : Run step start [] start
  | tail {trace : Trace State Label} {state next : State} {label : Label}
      (run : Run step start trace state) (stepped : step state label = some next) :
      Run step start ((state, label) :: trace) next

/-- Every step of the trace satisfies `good`. -/
def Trace.All (good : State → Label → Prop) (trace : Trace State Label) : Prop :=
  ∀ entry ∈ trace, good entry.1 entry.2

theorem Trace.all_cons {good : State → Label → Prop} {state : State} {label : Label}
    {trace : Trace State Label} :
    Trace.All good ((state, label) :: trace) ↔ good state label ∧ Trace.All good trace := by
  simp [Trace.All]

theorem Trace.All.and {good safe : State → Label → Prop} {trace : Trace State Label}
    (goodAll : Trace.All good trace) (safeAll : Trace.All safe trace) :
    Trace.All (fun state label => good state label ∧ safe state label) trace :=
  fun entry entry_mem => ⟨goodAll entry entry_mem, safeAll entry entry_mem⟩

theorem Trace.all_true (trace : Trace State Label) : Trace.All (fun _ _ => True) trace :=
  fun _ _ => trivial

variable {step : State → Label → Option State} {start : State}

/-- Induction over a run whose steps all satisfy `good`. The property may speak about
the history. -/
theorem Run.invariant {good : State → Label → Prop} (Inv : Trace State Label → State → Prop)
    (initially : Inv [] start)
    (preserved : ∀ {trace state label next}, Inv trace state → Trace.All good trace →
      good state label → step state label = some next → Inv ((state, label) :: trace) next)
    {trace : Trace State Label} {state : State} (run : Run step start trace state)
    (all : Trace.All good trace) : Inv trace state := by
  induction run with
  | refl => exact initially
  | tail run stepped ih =>
      rcases Trace.all_cons.mp all with ⟨goodStep, allBefore⟩
      exact preserved (ih allBefore) allBefore goodStep stepped

theorem Run.stateInvariant {good : State → Label → Prop} (Inv : State → Prop)
    (initially : Inv start)
    (preserved : ∀ {state label next}, Inv state → good state label →
      step state label = some next → Inv next)
    {trace : Trace State Label} {state : State} (run : Run step start trace state)
    (all : Trace.All good trace) : Inv state :=
  Run.invariant (fun _ state => Inv state) initially
    (fun inv _ goodStep stepped => preserved inv goodStep stepped) run all

/-- A state that a run has gone through is the end of a shorter run, and the step recorded
with it is one the system takes. -/
theorem Run.entry {trace : Trace State Label} {state : State} (run : Run step start trace state)
    {entry : State × Label} (entry_mem : entry ∈ trace) :
    ∃ before, Run step start before entry.1 ∧ (∃ next, step entry.1 entry.2 = some next) ∧
      entry :: before <:+ trace := by
  induction run with
  | refl => simp at entry_mem
  | @tail trace state next label run stepped ih =>
      rcases List.mem_cons.mp entry_mem with rfl | older
      · exact ⟨trace, run, ⟨next, stepped⟩, List.suffix_refl _⟩
      · rcases ih older with ⟨before, shorter, enabled, suffix⟩
        exact ⟨before, shorter, enabled, suffix.trans (List.suffix_cons _ _)⟩

theorem Run.of_suffix {trace earlier : Trace State Label} {state before : State} {label : Label}
    (run : Run step start trace state) (suffix : (before, label) :: earlier <:+ trace) :
    Run step start earlier before ∧ ∃ next, step before label = some next := by
  induction run with
  | refl => simp at suffix
  | @tail trace state next label run stepped ih =>
      rcases List.suffix_cons_iff.mp suffix with same | older
      · cases same
        exact ⟨run, next, stepped⟩
      · exact ih older

theorem Run.next_mem {trace : Trace State Label} {state : State} (run : Run step start trace state)
    {entry : State × Label} (entry_mem : entry ∈ trace) :
    ∃ next ∈ state :: trace.map Prod.fst, step entry.1 entry.2 = some next := by
  induction run with
  | refl => simp at entry_mem
  | @tail trace state next label run stepped ih =>
      rcases List.mem_cons.mp entry_mem with rfl | older
      · exact ⟨next, List.mem_cons_self, stepped⟩
      · rcases ih older with ⟨after, mem, leads⟩
        exact ⟨after, List.mem_cons_of_mem _ mem, leads⟩

theorem Run.split {later earlier : Trace State Label} {state before : State} {label : Label}
    (run : Run step start (later ++ (before, label) :: earlier) state) :
    Run step start earlier before ∧
      ∃ middle, step before label = some middle ∧ Run step middle later state := by
  induction later generalizing state with
  | nil =>
      cases run with
      | tail run stepped => exact ⟨run, state, stepped, .refl⟩
  | cons entry later ih =>
      cases run with
      | tail run stepped =>
          rcases ih run with ⟨first, middle, entered, rest⟩
          exact ⟨first, middle, entered, rest.tail stepped⟩

theorem Run.trans {later earlier : Trace State Label} {middle state : State}
    (first : Run step start earlier middle) (second : Run step middle later state) :
    Run step start (later ++ earlier) state := by
  induction second with
  | refl => exact first
  | tail run stepped ih => exact ih.tail stepped

/-- Some run leads from one state to the other. -/
def Leads (step : State → Label → Option State) (start state : State) : Prop :=
  ∃ trace, Run step start trace state

theorem Leads.refl : Leads step start start := ⟨[], .refl⟩

theorem Leads.trans {middle state : State} (first : Leads step start middle)
    (second : Leads step middle state) : Leads step start state := by
  rcases first with ⟨earlier, first⟩
  rcases second with ⟨later, second⟩
  exact ⟨later ++ earlier, first.trans second⟩

theorem Leads.head {middle state : State} {label : Label} (stepped : step start label = some middle)
    (leads : Leads step middle state) : Leads step start state :=
  Leads.trans ⟨_, Run.refl.tail stepped⟩ leads

/-- Follow a list of labels, recording the trace. -/
def follow (step : State → Label → Option State) :
    Trace State Label → State → List Label → Option (Trace State Label × State)
  | trace, state, [] => some (trace, state)
  | trace, state, label :: labels =>
      match step state label with
      | none => none
      | some next => follow step ((state, label) :: trace) next labels

theorem Run.follow {trace : Trace State Label} {state : State} {labels : List Label}
    {result : Trace State Label × State} (run : Run step start trace state)
    (followed : Transition.follow step trace state labels = some result) :
    Run step start result.1 result.2 := by
  induction labels generalizing trace state with
  | nil =>
      simp only [Transition.follow, Option.some.injEq] at followed
      subst followed
      exact run
  | cons label labels ih =>
      simp only [Transition.follow] at followed
      cases stepped : step state label with
      | none => simp [stepped] at followed
      | some next =>
          simp only [stepped] at followed
          exact ih (run.tail stepped) followed

theorem follow_append (trace older : Trace State Label) (state : State) (labels : List Label) :
    follow step (trace ++ older) state labels =
      (follow step trace state labels).map fun result => (result.1 ++ older, result.2) := by
  induction labels generalizing trace state with
  | nil => rfl
  | cons label labels ih =>
      simp only [follow]
      cases step state label with
      | none => rfl
      | some next => exact ih ((state, label) :: trace) next

theorem Run.exists_later {trace : Trace State Label} {state : State} {labels : List Label}
    {check : Trace State Label × State → Bool} (run : Run step start trace state)
    (checked : (Transition.follow step [] state labels).any check = true) :
    ∃ later next, Run step start (later ++ trace) next ∧ check (later, next) = true := by
  rcases (Option.any_eq_true _ _).mp checked with ⟨result, followed, holds⟩
  have continued : Transition.follow step ([] ++ trace) state labels = _ :=
    follow_append [] trace state labels
  rw [List.nil_append, followed] at continued
  exact ⟨result.1, result.2, run.follow continued, holds⟩

def arrive (step : State → Label → Option State) (start : State) (labels : List Label) : State :=
  ((follow step [] start labels).map Prod.snd).getD start

theorem step_arrive {label : Label} (enabled : (step start label).isSome = true) :
    step start label = some (arrive step start [label]) := by
  rcases Option.isSome_iff_exists.mp enabled with ⟨next, stepped⟩
  simp [arrive, follow, stepped]

/-- A run can be continued to where labels lead, with a property of what it goes through. -/
theorem Run.arrive {trace : Trace State Label} {state : State} (run : Run step start trace state)
    (labels : List Label) (check : Trace State Label → Bool)
    (checked : (Transition.follow step [] state labels).any (fun result => check result.1) = true) :
    ∃ later, Run step start (later ++ trace) (Transition.arrive step state labels) ∧
      check later = true := by
  rcases (Option.any_eq_true _ _).mp checked with ⟨result, followed, holds⟩
  have continued : Transition.follow step ([] ++ trace) state labels = _ :=
    follow_append [] trace state labels
  rw [List.nil_append, followed] at continued
  have isEnd : Transition.arrive step state labels = result.2 := by
    simp [Transition.arrive, followed]
  rw [isEnd]
  exact ⟨result.1, run.follow continued, holds⟩

instance {good : State → Label → Prop} [∀ state label, Decidable (good state label)]
    (trace : Trace State Label) : Decidable (Trace.All good trace) :=
  inferInstanceAs (Decidable (∀ entry ∈ trace, good entry.1 entry.2))

instance decidableEqCons {Item : Type*} [DecidableEq Item] (first : Item) (items : List Item) :
    Decidable (∃ rest, items = first :: rest) :=
  decidable_of_iff (items.head? = some first) List.head?_eq_some_iff

/-- The labels lead to a state in which the property holds, if that can be computed. -/
theorem exists_run (labels : List Label) {good : Trace State Label → State → Prop}
    [∀ trace state, Decidable (good trace state)]
    (checked : (Transition.follow step [] start labels).any
      (fun result => good result.1 result.2) = true) :
    ∃ trace state, Run step start trace state ∧ good trace state := by
  rcases Run.refl.exists_later checked with ⟨trace, state, run, holds⟩
  rw [List.append_nil] at run
  exact ⟨trace, state, run, of_decide_eq_true holds⟩

end Transition
