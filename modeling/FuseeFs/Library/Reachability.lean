import Mathlib

/-!
# Runs of a partial step function

A system is a partial function that takes a state and an event to the next
state.  `Reachable` collects the states of all runs whose steps are `allowed`
in the state where they are taken, so that one step function serves several
environments.  `run` executes a concrete list of events.  Where a state says for
each of its agents what it is doing, if anything, a step changes the activity of
one of them.
-/

namespace FuseeFs.Library

open Function

universe u v

variable {State : Type u} {Event : Type v}

/-- The states of the runs that start in `initial` and take allowed steps. -/
inductive Reachable
    (step : State → Event → Option State) (allowed : State → Event → Prop)
    (initial : State → Prop) : State → Prop
  | start {s : State} (isInitial : initial s) : Reachable step allowed initial s
  | next {s : State} {event : Event} {after : State}
      (reached : Reachable step allowed initial s)
      (permitted : allowed s event) (taken : step s event = some after) :
      Reachable step allowed initial after

variable {step : State → Event → Option State} {allowed permitted : State → Event → Prop}
variable {initial started : State → Prop} {Invariant : State → Prop} {s : State}

/-- What holds initially and is kept by every allowed step holds in every run. -/
theorem Reachable.invariant
    (reached : Reachable step allowed initial s)
    (base : ∀ s, initial s → Invariant s)
    (preserved : ∀ s event after, Invariant s → allowed s event →
      step s event = some after → Invariant after) :
    Invariant s := by
  induction reached with
  | start isInitial => exact base _ isInitial
  | next _ permitted taken ih =>
    exact preserved _ _ _ ih permitted taken

/-- Under an invariant of its own, one environment may be replaced by a more
liberal one. -/
theorem Reachable.mono (reached : Reachable step allowed initial s)
    (keeps : ∀ s, Reachable step allowed initial s → Invariant s)
    (starts : ∀ s, initial s → started s)
    (permits : ∀ s event, Invariant s → allowed s event → permitted s event) :
    Reachable step permitted started s := by
  induction reached with
  | start isInitial => exact .start (starts _ isInitial)
  | next reached permitted taken ih =>
    exact .next ih (permits _ _ (keeps _ reached) permitted) taken

theorem Reachable.weaken (reached : Reachable step allowed initial s)
    (starts : ∀ s, initial s → started s)
    (permits : ∀ s event, allowed s event → permitted s event) :
    Reachable step permitted started s :=
  reached.mono (fun _ _ => trivial) starts fun s event (_ : True) => permits s event

/-- A state with a property that only allowed steps lead to, and only from states
with the property, is reached by allowed steps. -/
theorem Reachable.restrict
    (reached : Reachable step permitted initial s) (holds : Invariant s)
    (reflected : ∀ s event after, Invariant after → step s event = some after →
      Invariant s ∧ allowed s event) :
    Reachable step allowed initial s := by
  induction reached with
  | start isInitial => exact .start isInitial
  | next _ _ taken ih =>
    obtain ⟨before, restricted⟩ := reflected _ _ _ holds taken
    exact .next (ih before) restricted taken

def run (step : State → Event → Option State) (allowed : State → Event → Prop)
    [∀ s event, Decidable (allowed s event)] : State → List Event → Option State
  | s, [] => some s
  | s, event :: events =>
    if allowed s event then (step s event).bind (run step allowed · events) else none

theorem Reachable.of_run
    [∀ s event, Decidable (allowed s event)] {events : List Event} {after : State}
    (reached : Reachable step allowed initial s)
    (executed : run step allowed s events = some after) : Reachable step allowed initial after := by
  induction events generalizing s with
  | nil =>
    simp only [run, Option.some.injEq] at executed
    exact executed ▸ reached
  | cons event events ih =>
    simp only [run] at executed
    split at executed
    · rename_i permitted
      obtain ⟨_, taken, rest⟩ := Option.bind_eq_some_iff.mp executed
      exact ih (.next reached permitted taken) rest
    · cases executed

/-- A run on concrete events that ends in a state with a decidable property. -/
theorem Reachable.exists_of_run (step : State → Event → Option State)
    (allowed : State → Event → Prop) [∀ s event, Decidable (allowed s event)] (events : List Event)
    (property : State → Prop) [DecidablePred property] (isInitial : initial s)
    (executed : (run step allowed s events).any fun after => property after) :
    ∃ after, Reachable step allowed initial after ∧ property after := by
  cases ended : run step allowed s events with
  | none => simp [ended] at executed
  | some after =>
    simp only [ended, Option.any_some, decide_eq_true_eq] at executed
    exact ⟨after, .of_run (.start isInitial) ended, executed⟩

section Agents

variable {Agent : Type u} {Activity : Type v} [DecidableEq Agent]
  {activities : Agent → Option Activity} {agent other : Agent} {new found : Activity}

theorem update_eq_some (active : update activities agent (some new) other = some found) :
    other = agent ∧ found = new ∨ other ≠ agent ∧ activities other = some found := by
  by_cases same : other = agent
  · rw [same, update_self] at active
    exact .inl ⟨same, (Option.some.inj active).symm⟩
  · rw [update_of_ne same] at active
    exact .inr ⟨same, active⟩

theorem update_none_eq_some (active : update activities agent none other = some found) :
    other ≠ agent ∧ activities other = some found := by
  by_cases same : other = agent
  · rw [same, update_self] at active
    cases active
  · rw [update_of_ne same] at active
    exact ⟨same, active⟩

end Agents

end FuseeFs.Library
