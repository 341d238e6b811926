/-!
# Runs of a state machine

A deterministic machine is a step function on states and events; a run folds it
over a list of events.  `Always P` says that `P` holds at the start of a run and
after every event, `Each Q` that `Q` holds of every event at the state it meets.
Both recurse on the events, so they are decidable on a concrete run.

The rules at the end turn what one step does into what a whole run does: an
invariant kept by every event of some kind, and a property that a step keeps
exactly when a condition on the event holds.
-/

namespace ExchangeCore
namespace Machine

variable {S E : Type} (step : S → E → S)

def run (s : S) (events : List E) : S := events.foldl step s

def Always (P : S → Prop) : S → List E → Prop
  | s, [] => P s
  | s, event :: events => P s ∧ Always P (step s event) events

def Each (Q : S → E → Prop) : S → List E → Prop
  | _, [] => True
  | s, event :: events => Q s event ∧ Each Q (step s event) events

instance decidableAlways (P : S → Prop) [DecidablePred P] :
    ∀ s events, Decidable (Always step P s events)
  | s, [] => inferInstanceAs (Decidable (P s))
  | s, event :: events =>
    have := decidableAlways P (step s event) events
    inferInstanceAs (Decidable (P s ∧ Always step P (step s event) events))

instance decidableEach (Q : S → E → Prop) [∀ s event, Decidable (Q s event)] :
    ∀ s events, Decidable (Each step Q s events)
  | _, [] => inferInstanceAs (Decidable True)
  | s, event :: events =>
    have := decidableEach Q (step s event) events
    inferInstanceAs (Decidable (Q s event ∧ Each step Q (step s event) events))

variable {step} {P P' : S → Prop} {Q Q' : S → E → Prop} {s : S} {events : List E}

theorem Always.start (hAlways : Always step P s events) : P s := by
  cases events with
  | nil => exact hAlways
  | cons event events => exact hAlways.1

theorem Always.final (hAlways : Always step P s events) : P (run step s events) := by
  induction events generalizing s with
  | nil => exact hAlways
  | cons event events ih => exact ih hAlways.2

theorem Always.imp (hAlways : Always step P s events) (hImp : ∀ s, P s → P' s) :
    Always step P' s events := by
  induction events generalizing s with
  | nil => exact hImp s hAlways
  | cons event events ih => exact ⟨hImp s hAlways.1, ih hAlways.2⟩

theorem Each.imp (hEach : Each step Q s events) (hImp : ∀ s event, Q s event → Q' s event) :
    Each step Q' s events := by
  induction events generalizing s with
  | nil => trivial
  | cons event events ih => exact ⟨hImp s event hEach.1, ih hEach.2⟩

theorem Each.and (hEach : Each step Q s events) (hEach' : Each step Q' s events) :
    Each step (fun s event => Q s event ∧ Q' s event) s events := by
  induction events generalizing s with
  | nil => trivial
  | cons event events ih => exact ⟨⟨hEach.1, hEach'.1⟩, ih hEach.2 hEach'.2⟩

/-- A property of the events alone holds wherever they are met. -/
theorem each_of_forall {R : E → Prop} (hForall : ∀ event ∈ events, R event) :
    Each step (fun _ => R) s events := by
  induction events generalizing s with
  | nil => trivial
  | cons event events ih =>
    exact ⟨hForall event (by simp), ih fun e he => hForall e (by simp [he])⟩

/-- What always holds, holds before and after each event. -/
theorem Always.each (hAlways : Always step P s events) :
    Each step (fun s event => P s ∧ P (step s event)) s events := by
  induction events generalizing s with
  | nil => trivial
  | cons event events ih => exact ⟨⟨hAlways.1, hAlways.2.start⟩, ih hAlways.2⟩

/-- A property that every event of the run keeps, always holds. -/
theorem Each.always (hEach : Each step Q s events) (hStart : P s)
    (hStep : ∀ s event, P s → Q s event → P (step s event)) : Always step P s events := by
  induction events generalizing s with
  | nil => exact hStart
  | cons event events ih => exact ⟨hStart, ih hEach.2 (hStep s event hStart hEach.1)⟩

/-- A property that every step keeps holds at the end of every run. -/
theorem run_of_step (hStart : P s) (hStep : ∀ s event, P s → P (step s event)) :
    P (run step s events) := by
  induction events generalizing s with
  | nil => exact hStart
  | cons event events ih => exact ih (hStep s event hStart)

/-- A property that a step keeps exactly when the event meets a condition, always
holds exactly when every event meets it. -/
theorem always_iff_each (hSide : Each step Q s events) (hStart : P s)
    (hStep : ∀ s event, P s → Q s event → (P (step s event) ↔ Q' s event)) :
    Always step P s events ↔ Each step Q' s events := by
  induction events generalizing s with
  | nil => exact iff_of_true hStart trivial
  | cons event events ih =>
    have hFirst := hStep s event hStart hSide.1
    constructor
    · intro hAlways
      have hNext := hAlways.2.start
      exact ⟨hFirst.mp hNext, (ih hSide.2 hNext).mp hAlways.2⟩
    · intro hEach
      have hNext := hFirst.mpr hEach.1
      exact ⟨hStart, (ih hSide.2 hNext).mpr hEach.2⟩

end Machine
end ExchangeCore
