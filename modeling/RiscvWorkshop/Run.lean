import Mathlib.Tactic.Common

namespace RiscvWorkshop

/-!
# Finite runs of labelled transition systems

A run records the actions taken from an initial state, last action at the end.
The module knows nothing about the kernel: a system is any step relation, and
a condition on steps is any relation between a state and the action taken
there.
-/

/-- A finite sequence of transitions labelled by an action list. -/
inductive Run
    {State Action : Type*}
    (step : State → Action → State → Prop)
    (initial : State) :
    List Action → State → Prop where
  | nil :
      Run step initial [] initial
  | snoc
      {actions : List Action}
      {action : Action}
      {middle final : State}
      (earlier : Run step initial actions middle)
      (last : step middle action final) :
      Run step initial (actions ++ [action]) final

/-- Restrict a step relation to the steps whose source meets a condition. -/
def Guarded
    {State Action : Type*}
    (condition : State → Action → Prop)
    (step : State → Action → State → Prop) :
    State → Action → State → Prop :=
  fun source action target =>
    condition source action ∧ step source action target

/-- The step relation of a partial step function. -/
def StepOf
    {State Action : Type*}
    (next : State → Action → Option State) :
    State → Action → State → Prop :=
  fun source action target =>
    next source action = some target

/-- Restrict a step function to the steps that meet a decidable condition. -/
def guardNext
    {State Action : Type*}
    (condition : State → Action → Prop)
    [∀ state action, Decidable (condition state action)]
    (next : State → Action → Option State) :
    State → Action → Option State :=
  fun state action =>
    if condition state action then next state action else none

/-- A guarded step is a step that meets the condition. -/
theorem guardNext_eq_some
    {State Action : Type*}
    {condition : State → Action → Prop}
    [∀ state action, Decidable (condition state action)]
    {next : State → Action → Option State}
    {source target : State}
    {action : Action} :
    guardNext condition next source action = some target ↔
      condition source action ∧ next source action = some target := by
  rw [guardNext]
  by_cases met : condition source action
  · rw [if_pos met, and_iff_right met]
  · rw [if_neg met]
    exact ⟨nofun, fun both => absurd both.1 met⟩

/-- Fold a partial step function over an action list, oldest action first. -/
def execute
    {State Action : Type*}
    (next : State → Action → Option State) :
    State → List Action → Option State
  | state, [] => some state
  | state, action :: rest =>
      match next state action with
      | some target => execute next target rest
      | none => none

namespace Run

variable {State Action : Type*}
variable {step : State → Action → State → Prop}
variable {initial final : State}
variable {actions : List Action}

/-- What holds initially and survives every step holds at the end of a run. -/
theorem invariant
    {property : State → Prop}
    (run : Run step initial actions final)
    (initially : property initial)
    (preserved :
      ∀ {source action target},
        property source →
        step source action target →
        property target) :
    property final := by
  induction run with
  | nil =>
      exact initially
  | snoc _ last inductionHypothesis =>
      exact preserved inductionHypothesis last

/-- A run of guarded steps is a run of the underlying steps. -/
theorem of_guarded
    {condition : State → Action → Prop}
    (run : Run (Guarded condition step) initial actions final) :
    Run step initial actions final := by
  induction run with
  | nil =>
      exact .nil
  | snoc _ last inductionHypothesis =>
      exact .snoc inductionHypothesis last.2

/-- Weakening the condition keeps a guarded run. -/
theorem guarded_mono
    {strong weak : State → Action → Prop}
    (implies :
      ∀ source action, strong source action → weak source action)
    (run : Run (Guarded strong step) initial actions final) :
    Run (Guarded weak step) initial actions final := by
  induction run with
  | nil =>
      exact .nil
  | snoc _ last inductionHypothesis =>
      exact .snoc inductionHypothesis
        ⟨implies _ _ last.1, last.2⟩

/-- A condition that every action of a run meets anywhere guards the run. -/
theorem guarded_of_forall
    {condition : State → Action → Prop}
    (run : Run step initial actions final)
    (met : ∀ action ∈ actions, ∀ state, condition state action) :
    Run (Guarded condition step) initial actions final := by
  induction run with
  | nil =>
      exact .nil
  | snoc _ last inductionHypothesis =>
      refine .snoc (inductionHypothesis fun action member => ?_)
        ⟨met _ (by simp) _, last⟩
      exact met action (List.mem_append_left _ member)

/-- Put one step in front of a run. -/
theorem cons
    {action : Action}
    {middle : State}
    (first : step initial action middle)
    (later : Run step middle actions final) :
    Run step initial (action :: actions) final := by
  induction later with
  | nil =>
      exact .snoc .nil first
  | snoc _ last inductionHypothesis =>
      exact .snoc inductionHypothesis last

/-- Put a run after a run. -/
theorem append
    {more : List Action}
    {middle : State}
    (earlier : Run step initial actions middle)
    (later : Run step middle more final) :
    Run step initial (actions ++ more) final := by
  induction later with
  | nil =>
      rw [List.append_nil]
      exact earlier
  | snoc _ last inductionHypothesis =>
      rw [← List.append_assoc]
      exact .snoc inductionHypothesis last

/-- A successful execution of a step function is a run of its relation. -/
theorem of_execute
    {next : State → Action → Option State}
    (executed : execute next initial actions = some final) :
    Run (StepOf next) initial actions final := by
  induction actions generalizing initial with
  | nil =>
      cases executed
      exact .nil
  | cons action rest inductionHypothesis =>
      simp only [execute] at executed
      cases stepped : next initial action with
      | none =>
          simp [stepped] at executed
      | some middle =>
          rw [stepped] at executed
          exact cons stepped (inductionHypothesis executed)

/-- A successful execution of guarded steps is a guarded run. -/
theorem guarded_of_execute
    {condition : State → Action → Prop}
    [∀ state action, Decidable (condition state action)]
    {next : State → Action → Option State}
    (executed : execute (guardNext condition next) initial actions = some final) :
    Run (Guarded condition (StepOf next)) initial actions final := by
  have guarded := of_execute executed
  clear executed
  induction guarded with
  | nil =>
      exact .nil
  | snoc _ last inductionHypothesis =>
      exact .snoc inductionHypothesis (guardNext_eq_some.mp last)

end Run

end RiscvWorkshop
