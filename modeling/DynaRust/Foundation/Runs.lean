import Mathlib.Data.List.Basic

/-!
# Finite runs of a step function

A system is a function from a state and an event to the next state, `none`
when the event is not enabled.  Facts about runs are obtained from facts about
one step, possibly under a condition that every step meets.
-/

namespace DynaRust.Foundation

universe u v w x

variable {σ : Type u} {ε : Type v}

/-- Take the listed events one after the other. -/
def runSteps (step : σ → ε → Option σ) : σ → List ε → Option σ
  | state, [] => some state
  | state, event :: rest =>
      (step state event).bind fun next => runSteps step next rest

/-- The final state of a run whose events are all enabled. -/
def runResult (step : σ → ε → Option σ) (state : σ) (events : List ε)
    (enabled : (runSteps step state events).isSome = true) : σ :=
  (runSteps step state events).get enabled

theorem runSteps_eq_some_runResult (step : σ → ε → Option σ) (state : σ)
    (events : List ε) (enabled : (runSteps step state events).isSome = true) :
    runSteps step state events =
      some (runResult step state events enabled) :=
  (Option.some_get enabled).symm

/-- Every event is taken in a state in which the condition holds. -/
def StepsMeet (step : σ → ε → Option σ) (condition : σ → ε → Prop) :
    σ → List ε → Prop
  | _, [] => True
  | state, event :: rest =>
      condition state event ∧
        ∀ next, step state event = some next →
          StepsMeet step condition next rest

instance StepsMeet.instDecidable (step : σ → ε → Option σ)
    (condition : σ → ε → Prop)
    [∀ state event, Decidable (condition state event)] :
    ∀ (state : σ) (events : List ε),
      Decidable (StepsMeet step condition state events)
  | _, [] => .isTrue trivial
  | state, event :: rest =>
      match taken : step state event with
      | none => decidable_of_iff (condition state event) <| by
          simp [StepsMeet, taken]
      | some next =>
          have := StepsMeet.instDecidable step condition next rest
          decidable_of_iff
            (condition state event ∧ StepsMeet step condition next rest) <| by
              simp [StepsMeet, taken]

variable {step : σ → ε → Option σ} {condition : σ → ε → Prop}

@[simp]
theorem runSteps_nil (state : σ) : runSteps step state [] = some state :=
  rfl

theorem runSteps_cons_eq_some {state final : σ} {event : ε} {rest : List ε} :
    runSteps step state (event :: rest) = some final ↔
      ∃ next, step state event = some next ∧
        runSteps step next rest = some final := by
  rw [runSteps, Option.bind_eq_some_iff]

theorem runSteps_append_eq_some
    {state final : σ} {first second : List ε} :
    runSteps step state (first ++ second) = some final ↔
      ∃ middle, runSteps step state first = some middle ∧
        runSteps step middle second = some final := by
  induction first generalizing state with
  | nil =>
      simp
  | cons event rest inductionHypothesis =>
      rw [List.cons_append, runSteps_cons_eq_some]
      simp only [runSteps_cons_eq_some, inductionHypothesis]
      constructor
      · rintro ⟨next, taken, middle, reached, finished⟩
        exact ⟨middle, ⟨next, taken, reached⟩, finished⟩
      · rintro ⟨middle, ⟨next, taken, reached⟩, finished⟩
        exact ⟨next, taken, middle, reached, finished⟩

/-- An invariant that steps under the condition preserve holds after every
run whose steps all meet the condition. -/
theorem runSteps_induction (invariant : σ → Prop)
    (preserved : ∀ state event next,
      condition state event → step state event = some next →
        invariant state → invariant next)
    {state final : σ} {events : List ε}
    (meets : StepsMeet step condition state events)
    (reached : runSteps step state events = some final)
    (holds : invariant state) : invariant final := by
  induction events generalizing state with
  | nil =>
      cases Option.some.inj reached
      exact holds
  | cons event rest inductionHypothesis =>
      obtain ⟨next, taken, finished⟩ := runSteps_cons_eq_some.mp reached
      exact inductionHypothesis (meets.2 next taken) finished
        (preserved state event next meets.1 taken holds)

/-- A run of the system is a run of the abstract system, when every step is
an abstract one. -/
theorem runSteps_refines {τ : Type w} {δ : Type x} (abstraction : σ → τ)
    (activity : ε → δ) (abstractStep : τ → δ → τ) (invariant : σ → Prop)
    (preserved : ∀ state event next, step state event = some next →
      invariant state → invariant next)
    (simulated : ∀ state event next, step state event = some next →
      invariant state →
        abstraction next = abstractStep (abstraction state) (activity event))
    {state final : σ} {events : List ε}
    (reached : runSteps step state events = some final)
    (holds : invariant state) :
    abstraction final =
      (events.map activity).foldl abstractStep (abstraction state) := by
  induction events generalizing state with
  | nil =>
      cases Option.some.inj reached
      rfl
  | cons event rest inductionHypothesis =>
      obtain ⟨next, taken, finished⟩ := runSteps_cons_eq_some.mp reached
      rw [inductionHypothesis finished
        (preserved state event next taken holds)]
      rw [simulated state event next taken holds]
      rfl

theorem stepsMeet_true (step : σ → ε → Option σ) (state : σ)
    (events : List ε) :
    StepsMeet step (fun _ _ => True) state events := by
  induction events generalizing state with
  | nil =>
      trivial
  | cons event rest inductionHypothesis =>
      exact ⟨trivial, fun next _ => inductionHypothesis next⟩

/-- What every step preserves holds whenever a step is taken. -/
theorem stepsMeet_of_preserved {invariant : σ → Prop}
    (preserved : ∀ state event next, step state event = some next →
      invariant state → invariant next)
    {state : σ} (holds : invariant state) (events : List ε) :
    StepsMeet step (fun state _ => invariant state) state events := by
  induction events generalizing state with
  | nil =>
      trivial
  | cons event rest inductionHypothesis =>
      exact ⟨holds, fun next taken =>
        inductionHypothesis (preserved state event next taken holds)⟩

theorem stepsMeet_of_forall_mem {step : σ → ε → Option σ} {meets : ε → Prop}
    {events : List ε} (all : ∀ event ∈ events, meets event) (state : σ) :
    StepsMeet step (fun _ => meets) state events := by
  induction events generalizing state with
  | nil =>
      trivial
  | cons event rest inductionHypothesis =>
      exact ⟨all event List.mem_cons_self, fun next _ =>
        inductionHypothesis
          (fun later member => all later (List.mem_cons_of_mem event member))
          next⟩

theorem stepsMeet_congr {other : σ → ε → Prop}
    (same : ∀ state event, condition state event ↔ other state event)
    (state : σ) (events : List ε) :
    StepsMeet step condition state events ↔
      StepsMeet step other state events := by
  induction events generalizing state with
  | nil =>
      exact Iff.rfl
  | cons event rest inductionHypothesis =>
      simp only [StepsMeet, same, inductionHypothesis]

theorem stepsMeet_append {state middle : σ} {first second : List ε}
    (reached : runSteps step state first = some middle)
    (meets : StepsMeet step condition state (first ++ second)) :
    StepsMeet step condition state first ∧
      StepsMeet step condition middle second := by
  induction first generalizing state with
  | nil =>
      cases Option.some.inj reached
      exact ⟨trivial, meets⟩
  | cons event rest inductionHypothesis =>
      obtain ⟨next, taken, later⟩ := runSteps_cons_eq_some.mp reached
      obtain ⟨firstMeets, secondMeets⟩ :=
        inductionHypothesis later (meets.2 next taken)
      refine ⟨⟨meets.1, ?_⟩, secondMeets⟩
      intro other taken'
      cases Option.some.inj (taken.symm.trans taken')
      exact firstMeets

theorem StepsMeet.append {state middle : σ} {first second : List ε}
    (reached : runSteps step state first = some middle)
    (firstMeets : StepsMeet step condition state first)
    (secondMeets : StepsMeet step condition middle second) :
    StepsMeet step condition state (first ++ second) := by
  induction first generalizing state with
  | nil =>
      cases Option.some.inj reached
      exact secondMeets
  | cons event rest inductionHypothesis =>
      obtain ⟨next, taken, later⟩ := runSteps_cons_eq_some.mp reached
      refine ⟨firstMeets.1, fun other taken' => ?_⟩
      cases Option.some.inj (taken.symm.trans taken')
      exact inductionHypothesis later (firstMeets.2 next taken)

theorem StepsMeet.mono {other : σ → ε → Prop}
    (weaker : ∀ state event, condition state event → other state event)
    {state : σ} {events : List ε}
    (meets : StepsMeet step condition state events) :
    StepsMeet step other state events := by
  induction events generalizing state with
  | nil =>
      trivial
  | cons event rest inductionHypothesis =>
      exact ⟨weaker state event meets.1, fun next taken =>
        inductionHypothesis (meets.2 next taken)⟩

theorem StepsMeet.and {other : σ → ε → Prop} {state : σ} {events : List ε}
    (first : StepsMeet step condition state events)
    (second : StepsMeet step other state events) :
    StepsMeet step (fun state event => condition state event ∧
      other state event) state events := by
  induction events generalizing state with
  | nil =>
      trivial
  | cons event rest inductionHypothesis =>
      exact ⟨⟨first.1, second.1⟩, fun next taken =>
        inductionHypothesis (first.2 next taken) (second.2 next taken)⟩

/-! ## The steps of a run -/

/-- The events of a run, each with the state in which it was taken. -/
def runTrace (step : σ → ε → Option σ) : σ → List ε → List (σ × ε)
  | _, [] => []
  | state, event :: rest =>
      (state, event) ::
        match step state event with
        | some next => runTrace step next rest
        | none => []

theorem runTrace_cons {state next : σ} {event : ε}
    (taken : step state event = some next) (rest : List ε) :
    runTrace step state (event :: rest) =
      (state, event) :: runTrace step next rest := by
  rw [runTrace, taken]

theorem runTrace_append {state middle : σ} {first : List ε}
    (reached : runSteps step state first = some middle) (second : List ε) :
    runTrace step state (first ++ second) =
      runTrace step state first ++ runTrace step middle second := by
  induction first generalizing state with
  | nil =>
      cases Option.some.inj reached
      rfl
  | cons event rest inductionHypothesis =>
      obtain ⟨next, taken, later⟩ := runSteps_cons_eq_some.mp reached
      rw [List.cons_append, runTrace_cons taken, runTrace_cons taken,
        inductionHypothesis later, List.cons_append]

theorem mem_of_mem_runTrace {state : σ} {events : List ε} {taken : σ × ε}
    (member : taken ∈ runTrace step state events) : taken.2 ∈ events := by
  induction events generalizing state with
  | nil =>
      cases member
  | cons event rest inductionHypothesis =>
      rcases List.mem_cons.mp member with rfl | later
      · exact List.mem_cons_self
      · cases next : step state event with
        | none =>
            simp [next] at later
        | some next' =>
            rw [next] at later
            exact List.mem_cons_of_mem event (inductionHypothesis later)

/-- All steps of a run that ends are enabled. -/
theorem step_isSome_of_mem_runTrace {state final : σ} {events : List ε}
    (reached : runSteps step state events = some final) {taken : σ × ε}
    (member : taken ∈ runTrace step state events) :
    ∃ next, step taken.1 taken.2 = some next := by
  induction events generalizing state with
  | nil =>
      cases member
  | cons event rest inductionHypothesis =>
      obtain ⟨next, enabled, finished⟩ := runSteps_cons_eq_some.mp reached
      rw [runTrace_cons enabled] at member
      rcases List.mem_cons.mp member with rfl | later
      · exact ⟨next, enabled⟩
      · exact inductionHypothesis finished later

/-! ## Properties of every state of a run -/

/-- The property holds at the start of the run and after every step. -/
def Throughout (step : σ → ε → Option σ) (holds : σ → Prop) :
    σ → List ε → Prop
  | state, [] => holds state
  | state, event :: rest =>
      holds state ∧
        ∀ next, step state event = some next → Throughout step holds next rest

instance Throughout.instDecidable (step : σ → ε → Option σ)
    (holds : σ → Prop) [∀ state, Decidable (holds state)] :
    ∀ (state : σ) (events : List ε),
      Decidable (Throughout step holds state events)
  | state, [] => inferInstanceAs (Decidable (holds state))
  | state, event :: rest =>
      match taken : step state event with
      | none => decidable_of_iff (holds state) <| by
          simp [Throughout, taken]
      | some next =>
          have := Throughout.instDecidable step holds next rest
          decidable_of_iff
            (holds state ∧ Throughout step holds next rest) <| by
              simp [Throughout, taken]

theorem Throughout.start {holds : σ → Prop} {state : σ} {events : List ε}
    (always : Throughout step holds state events) : holds state := by
  cases events with
  | nil =>
      exact always
  | cons event rest =>
      exact always.1

/-- The states of a run, its start and its end among them. -/
def runStates (step : σ → ε → Option σ) : σ → List ε → List σ
  | state, [] => [state]
  | state, event :: rest =>
      state ::
        match step state event with
        | some next => runStates step next rest
        | none => []

theorem throughout_mono {holds others : σ → Prop}
    (weaker : ∀ state, holds state → others state) {state : σ}
    {events : List ε} (always : Throughout step holds state events) :
    Throughout step others state events := by
  induction events generalizing state with
  | nil =>
      exact weaker state always
  | cons event rest inductionHypothesis =>
      exact ⟨weaker state always.1, fun next taken =>
        inductionHypothesis (always.2 next taken)⟩

/-- A run only goes through its own states. -/
theorem throughout_runStates (step : σ → ε → Option σ) (state : σ)
    (events : List ε) :
    Throughout step (fun visited => visited ∈ runStates step state events)
      state events := by
  induction events generalizing state with
  | nil =>
      exact List.mem_singleton_self state
  | cons event rest inductionHypothesis =>
      refine ⟨List.mem_cons_self, fun next taken => ?_⟩
      apply throughout_mono ?_ (inductionHypothesis next)
      intro visited later
      rw [runStates, taken]
      exact List.mem_cons_of_mem state later

/-- A step may rely on what holds throughout the run. -/
theorem stepsMeet_of_throughout {holds : σ → Prop} {state : σ}
    {events : List ε} (always : Throughout step holds state events) :
    StepsMeet step (fun visited _ => holds visited) state events := by
  induction events generalizing state with
  | nil =>
      trivial
  | cons event rest inductionHypothesis =>
      exact ⟨always.1, fun next taken =>
        inductionHypothesis (always.2 next taken)⟩

/-- A property holds throughout a run exactly when every step meets the
condition, if the condition keeps an invariant that implies the property, and
a step that keeps the property meets the condition. -/
theorem throughout_iff_stepsMeet {holds : σ → Prop} {side : σ → ε → Prop}
    (invariant : σ → Prop)
    (implied : ∀ state, invariant state → holds state)
    (keeps : ∀ state event next, side state event →
      step state event = some next → invariant state →
        condition state event → invariant next)
    (needs : ∀ state event next, side state event →
      step state event = some next → holds state → holds next →
        condition state event)
    {state final : σ} {events : List ε}
    (sides : StepsMeet step side state events)
    (reached : runSteps step state events = some final)
    (start : invariant state) :
    Throughout step holds state events ↔
      StepsMeet step condition state events := by
  constructor
  · intro always
    clear start
    induction events generalizing state with
    | nil =>
        trivial
    | cons event rest inductionHypothesis =>
        obtain ⟨next, taken, finished⟩ := runSteps_cons_eq_some.mp reached
        have later := always.2 next taken
        refine ⟨needs state event next sides.1 taken always.1 later.start, ?_⟩
        intro other taken'
        cases Option.some.inj (taken.symm.trans taken')
        exact inductionHypothesis (sides.2 next taken) finished later
  · intro meets
    induction events generalizing state with
    | nil =>
        exact implied state start
    | cons event rest inductionHypothesis =>
        refine ⟨implied state start, ?_⟩
        intro next taken
        obtain ⟨next', taken', finished⟩ := runSteps_cons_eq_some.mp reached
        cases Option.some.inj (taken.symm.trans taken')
        exact inductionHypothesis (sides.2 next taken) finished
          (keeps state event next sides.1 taken start meets.1)
          (meets.2 next taken)

/-! ## Runs that remember their steps -/

/-- The same system with its steps so far as a part of the state. -/
def withHistory (step : σ → ε → Option σ)
    (state : List (σ × ε) × σ) (event : ε) :
    Option (List (σ × ε) × σ) :=
  (step state.2 event).map fun next => (state.1 ++ [(state.2, event)], next)

theorem withHistory_eq_some {past : List (σ × ε)} {state : σ} {event : ε}
    {next : List (σ × ε) × σ} :
    withHistory step (past, state) event = some next ↔
      step state event = some next.2 ∧ next.1 = past ++ [(state, event)] := by
  rw [withHistory, Option.map_eq_some_iff]
  constructor
  · intro taken
    obtain ⟨after, enabled, rfl⟩ := taken
    exact ⟨enabled, rfl⟩
  · intro taken
    exact ⟨next.2, taken.1, by rw [← taken.2]⟩

theorem runSteps_withHistory (past : List (σ × ε)) (state : σ)
    (events : List ε) :
    runSteps (withHistory step) (past, state) events =
      (runSteps step state events).map fun final =>
        (past ++ runTrace step state events, final) := by
  induction events generalizing past state with
  | nil =>
      simp [runSteps, runTrace]
  | cons event rest inductionHypothesis =>
      cases taken : step state event with
      | none =>
          simp [runSteps, withHistory, taken]
      | some next =>
          simp [runSteps, withHistory, taken, inductionHypothesis,
            runTrace_cons taken]

/-- A condition on the plain states holds in the run that remembers. -/
theorem StepsMeet.withHistory {state : σ} {events : List ε}
    (meets : StepsMeet step condition state events) (past : List (σ × ε)) :
    StepsMeet (withHistory step)
      (fun remembered event => condition remembered.2 event) (past, state)
      events := by
  induction events generalizing past state with
  | nil =>
      trivial
  | cons event rest inductionHypothesis =>
      refine ⟨meets.1, ?_⟩
      rintro ⟨grown, next⟩ taken
      obtain ⟨enabled, -⟩ := withHistory_eq_some.mp taken
      exact inductionHypothesis (meets.2 next enabled) grown

/-! ## Runs that come to an end -/

/-- Whatever moves are made, the goal is reached. -/
inductive Inevitable (moves : σ → σ → Prop) (goal : σ → Prop) : σ → Prop where
  | reached {state : σ} : goal state → Inevitable moves goal state
  | later {state : σ} : (∃ next, moves state next) →
      (∀ next, moves state next → Inevitable moves goal next) →
      Inevitable moves goal state

/-- A goal is inevitable if every move makes a weight smaller and only the
goal is without moves. -/
theorem Inevitable.of_weight {moves : σ → σ → Prop} {goal : σ → Prop}
    (invariant : σ → Prop) (weight : σ → Nat)
    (preserved : ∀ state next, moves state next → invariant state →
      invariant next)
    (smaller : ∀ state next, moves state next → weight next < weight state)
    (progress : ∀ state, invariant state → ¬ goal state →
      ∃ next, moves state next)
    {state : σ} (holds : invariant state) : Inevitable moves goal state := by
  induction bound : weight state using Nat.strongRecOn
    generalizing state with
  | _ total inductionHypothesis =>
      by_cases finished : goal state
      · exact .reached finished
      · refine .later (progress state holds finished) ?_
        intro next moved
        have less := smaller state next moved
        rw [bound] at less
        exact inductionHypothesis _ less (preserved state next moved holds) rfl

/-! ## Two runs side by side -/

end DynaRust.Foundation
