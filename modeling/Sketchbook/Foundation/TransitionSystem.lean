import Mathlib.Data.List.Basic

/-!
# Labelled transition systems and their runs

A `System` has a predicate for its initial states and an executable step that answers `none` when
the label is not enabled. A `Run` is the list of the transitions taken, newest first, together with
the state reached. `Run.invariant` is the induction every safety argument uses: an invariant of the
initial states that every step preserves holds wherever a run ends. `Run.exists_run_before` says
that every transition of a run starts at the end of a shorter one, and `Run.invariant_since` is the
induction over what happens behind one transition of a run. `replay` computes where a list of labels
leads, and `Run.of_replay` and `exists_run_of_replay` turn that into a run.
-/

set_option autoImplicit false
set_option relaxedAutoImplicit false

namespace Sketchbook.Foundation.TransitionSystem

/-- Initial states and a step that is `none` where the label is not enabled. -/
structure System (State Label : Type*) where
  initial : State → Prop
  step : State → Label → Option State

/-- One step taken: the state before, the label and the state after. -/
structure Transition (State Label : Type*) where
  before : State
  label : Label
  after : State

variable {State Label : Type*} {system : System State Label}

/-- The runs of a system, with their transitions newest first and the state they reach. -/
inductive Run (system : System State Label) : List (Transition State Label) → State → Prop
  | start {state : State} (h : system.initial state) : Run system [] state
  | step {trace : List (Transition State Label)} {state next : State} {label : Label}
      (hrun : Run system trace state) (hstep : system.step state label = some next) :
      Run system (⟨state, label, next⟩ :: trace) next

/-- An invariant of the initial states that every step preserves holds at the end of every run. -/
theorem Run.invariant {I : State → Prop} (hinitial : ∀ state, system.initial state → I state)
    (hpreserved : ∀ state label next, I state → system.step state label = some next → I next)
    {trace : List (Transition State Label)} {state : State} (hrun : Run system trace state) :
    I state := by
  induction hrun with
  | start h => exact hinitial _ h
  | step _ hstep ih => exact hpreserved _ _ _ ih hstep

/-- Every transition of a run starts where a shorter run ends. -/
theorem Run.exists_run_before {trace : List (Transition State Label)} {state : State}
    (hrun : Run system trace state) {transition : Transition State Label}
    (hmem : transition ∈ trace) :
    (∃ earlier, Run system earlier transition.before) ∧
      system.step transition.before transition.label = some transition.after := by
  induction hrun with
  | start _ => simp at hmem
  | @step earlier _ _ _ hearlier hstep ih =>
    rcases List.mem_cons.mp hmem with rfl | hmem
    · exact ⟨⟨earlier, hearlier⟩, hstep⟩
    · exact ih hmem

/-- What holds just behind a transition of a run, and is kept by every later step, holds wherever
the run ends. The invariant may mention the transitions taken in between. -/
theorem Run.invariant_since {I : List (Transition State Label) → State → Prop}
    {first : Transition State Label} {earlier later : List (Transition State Label)} {state : State}
    (hfirst : I [] first.after)
    (hpreserved : ∀ later state label next, Run system (later ++ first :: earlier) state →
      I later state → system.step state label = some next → I (⟨state, label, next⟩ :: later) next)
    (hrun : Run system (later ++ first :: earlier) state) : I later state := by
  induction later generalizing state with
  | nil =>
    cases hrun
    exact hfirst
  | cons transition later ih =>
    rcases hrun with _ | ⟨hrun, hstep⟩
    exact hpreserved _ _ _ _ hrun (ih hrun) hstep

/-- The states that taking a list of labels from a state reaches; `none` if one is not enabled. -/
def replay (system : System State Label) (state : State) : List Label → Option State
  | [] => some state
  | label :: rest => (system.step state label).bind fun next ↦ replay system next rest

/-- The transitions that taking a list of labels from a state makes, newest first. -/
def transitions (system : System State Label) (state : State) :
    List Label → List (Transition State Label)
  | [] => []
  | label :: rest =>
    match system.step state label with
    | some next => transitions system next rest ++ [⟨state, label, next⟩]
    | none => []

/-- A replay that succeeds extends a run by its transitions. -/
theorem Run.of_replay {labels : List Label} {trace : List (Transition State Label)}
    {state last : State} (hrun : Run system trace state)
    (hreplay : replay system state labels = some last) :
    Run system (transitions system state labels ++ trace) last := by
  induction labels generalizing trace state with
  | nil =>
    obtain rfl : state = last := Option.some.inj hreplay
    exact hrun
  | cons label rest ih =>
    obtain ⟨next, hstep, hrest⟩ := Option.bind_eq_some_iff.mp hreplay
    have hlater := ih (hrun.step hstep) hrest
    rw [transitions, hstep]
    simpa using hlater

/-- A replay from an initial state whose result has an observed value is a run that ends so. -/
theorem exists_run_of_replay {Value : Type*} {observe : State → Value} {value : Value}
    {state : State} {labels : List Label} (hinitial : system.initial state)
    (hreplay : (replay system state labels).map observe = some value) :
    ∃ last, Run system (transitions system state labels) last ∧ observe last = value := by
  obtain ⟨last, hlast, hvalue⟩ := Option.map_eq_some_iff.mp hreplay
  have hrun := (Run.start hinitial).of_replay hlast
  rw [List.append_nil] at hrun
  exact ⟨last, hrun, hvalue⟩

end Sketchbook.Foundation.TransitionSystem
