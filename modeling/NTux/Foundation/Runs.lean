import Mathlib.Data.List.Infix
import Mathlib.Order.Defs.Unbundled

/-! # Runs of a transition system

A run is a finite list of events, each carrying a state to the next one. A
system is given by its step relation alone, so a guard on the steps is another
step relation (`Guarded`) and a history variable is a larger state. An
invariant of the steps is an invariant of the runs (`Run.invariant`).
-/

namespace NTux.Foundation

universe u v

variable {State : Type u} {Event : Type v}

/-- The events of the list, in order, carry the first state to the last. -/
inductive Run (step : State → Event → State → Prop) : State → List Event → State → Prop where
  | nil (state : State) : Run step state [] state
  | cons {source middle target : State} {event : Event} {events : List Event} :
      step source event middle → Run step middle events target →
        Run step source (event :: events) target

/-- The steps of a system that meet a condition on the state before the step. -/
def Guarded (allowed : State → Event → Prop) (step : State → Event → State → Prop)
    (source : State) (event : Event) (target : State) : Prop :=
  allowed source event ∧ step source event target

namespace Run

variable {step : State → Event → State → Prop} {source target : State} {events : List Event}

theorem single {event : Event} (taken : step source event target) :
    Run step source [event] target :=
  .cons taken (.nil target)

theorem append {middle : State} {later : List Event} (first : Run step source events middle)
    (second : Run step middle later target) : Run step source (events ++ later) target := by
  induction first with
  | nil => exact second
  | cons taken _ ih => exact .cons taken (ih second)

/-- **The invariant rule.** What every step preserves, every run preserves. -/
theorem invariant {holds : State → Prop}
    (preserved : ∀ source event target, holds source → step source event target → holds target)
    (run : Run step source events target) (initial : holds source) : holds target := by
  induction run with
  | nil => exact initial
  | cons taken _ ih => exact ih (preserved _ _ _ initial taken)

/-- **The simulation rule.** Where every step, seen from above, is a step there, every run is a run
there. -/
theorem simulates {State' : Type*} {Event' : Type*} {step' : State' → Event' → State' → Prop}
    {holds : State → Prop} {above : State → State'} {label : Event → Event'}
    (simulated : ∀ source event target, holds source → step source event target →
      holds target ∧ step' (above source) (label event) (above target))
    (run : Run step source events target) (initial : holds source) :
    holds target ∧ Run step' (above source) (events.map label) (above target) := by
  induction run with
  | nil => exact ⟨initial, .nil _⟩
  | cons taken _ ih =>
      obtain ⟨kept, first⟩ := simulated _ _ _ initial taken
      obtain ⟨last, later⟩ := ih kept
      exact ⟨last, .cons first later⟩

/-- Where steps are functions and each adds its own condition to a property of states, the
property at the end of a run says that every step met its condition. -/
theorem guarded_iff {allowed : State → Event → Prop} {holds good : State → Prop}
    (function : ∀ source event target other, step source event target →
      step source event other → target = other)
    (preserved : ∀ source event target, holds source → step source event target → holds target)
    (adds : ∀ source event target, holds source → step source event target →
      (good target ↔ good source ∧ allowed source event))
    (run : Run step source events target) (initial : holds source) :
    good target ↔ good source ∧ Run (Guarded allowed step) source events target := by
  induction run with
  | nil state => exact ⟨fun kept => ⟨kept, .nil state⟩, And.left⟩
  | cons taken rest ih =>
      rw [ih (preserved _ _ _ initial taken), adds _ _ _ initial taken]
      constructor
      · rintro ⟨⟨kept, met⟩, guarded⟩
        exact ⟨kept, .cons ⟨met, taken⟩ guarded⟩
      · rintro ⟨kept, guarded⟩
        cases guarded with
        | cons first later =>
            obtain rfl := function _ _ _ _ taken first.2
            exact ⟨⟨kept, first.1⟩, later⟩

/-- Where steps are functions, the beginning of a guarded run is a guarded run. -/
theorem guarded_initial {allowed : State → Event → Prop}
    (function : ∀ source event target other, step source event target →
      step source event other → target = other)
    (guarded : Run (Guarded allowed step) source events target) {past : List Event} {middle : State}
    (before : past <+: events) (reached : Run step source past middle) :
    Run (Guarded allowed step) source past middle := by
  induction reached generalizing events with
  | nil state => exact .nil state
  | cons taken _ ih =>
      obtain ⟨later, rfl⟩ := before
      cases guarded with
      | cons first guarded =>
          obtain rfl := function _ _ _ _ taken first.2
          exact .cons first (ih guarded (List.prefix_append _ later))

/-- Where steps are functions and a step from a good state leads to a good one exactly if it meets
its condition, all states of a run are good exactly if the first one is and every step meets its
condition. -/
theorem always_iff {allowed : State → Event → Prop} {good : State → Prop}
    (function : ∀ source event target other, step source event target →
      step source event other → target = other)
    (kept : ∀ source event target, good source → step source event target →
      (good target ↔ allowed source event))
    (run : Run step source events target) :
    (∀ past middle, past <+: events → Run step source past middle → good middle) ↔
      good source ∧ Run (Guarded allowed step) source events target := by
  constructor
  · intro all
    refine ⟨all [] source List.nil_prefix (.nil source), ?_⟩
    induction run with
    | nil state => exact .nil state
    | @cons source next target event events taken _ ih =>
        have initial := all [] source List.nil_prefix (.nil source)
        have later := all [event] next (List.prefix_append [event] events) (single taken)
        refine .cons ⟨(kept _ _ _ initial taken).mp later, taken⟩ (ih ?_)
        exact fun past middle before reached => all (event :: past) middle
          (List.prefix_cons_inj event |>.mpr before) (.cons taken reached)
  · rintro ⟨initial, guarded⟩ past middle before reached
    exact (guarded_initial function guarded before reached).invariant
      (fun _ _ _ good step => (kept _ _ _ good step.2).mpr step.1) initial

end Run

/-- A run leads there. -/
def Reaches (step : State → Event → State → Prop) (source target : State) : Prop :=
  ∃ events, Run step source events target

instance (step : State → Event → State → Prop) : IsPreorder State (Reaches step) where
  refl state := ⟨[], .nil state⟩
  trans _ _ _ := fun ⟨_, first⟩ ⟨_, second⟩ => ⟨_, first.append second⟩

end NTux.Foundation
