import Mathlib.Data.List.Basic

/-!
# Components that run side by side

Any number of components of one kind, each with its own state. New ones start at any time, and every
event is an event of one component, which may refuse it. `run_forall` is the rule for invariants of
single components: what holds of a new component, and is kept by its own steps, holds of all
components after every run, however their events are interleaved.
-/

namespace Library

/-- A kind of component: `start` is a new one, and `step` leads from a state to the next, or refuses
the event. -/
structure Component (κ σ ε : Type*) where
  /-- A new component. -/
  start : κ → σ
  /-- The state after an event; `none` when the event cannot occur. -/
  step : σ → ε → Option σ

/-- An event of a fleet of components. -/
inductive FleetEvent (κ ε : Type*) where
  /-- A new component. -/
  | start (k : κ)
  /-- An event of the component with this index. -/
  | on (i : ℕ) (e : ε)

namespace Component

variable {κ σ ε : Type*} (C : Component κ σ ε)

/-- The components after an event. -/
def fleetStep (fleet : List σ) : FleetEvent κ ε → Option (List σ)
  | .start k => some (fleet ++ [C.start k])
  | .on i e => do
    let s ← fleet[i]?
    let s' ← C.step s e
    return fleet.set i s'

/-- The components after the events. -/
def run (fleet : List σ) (events : List (FleetEvent κ ε)) : Option (List σ) :=
  events.foldlM C.fleetStep fleet

/-- No events leave the fleet as it is. -/
@[simp] theorem run_nil (fleet : List σ) : C.run fleet [] = some fleet := rfl

/-- A run is its first event, and the run from there when the event is possible. -/
@[simp] theorem run_cons (fleet : List σ) (e : FleetEvent κ ε) (events : List (FleetEvent κ ε)) :
    C.run fleet (e :: events) = (C.fleetStep fleet e).bind (C.run · events) := rfl

variable {C} {P : σ → Prop}

/-- An event of a fleet keeps what new components have and every component keeps. -/
theorem fleetStep_forall (hstart : ∀ k, P (C.start k))
    (hstep : ∀ s e s', P s → C.step s e = some s' → P s') {fleet fleet' : List σ}
    (h : ∀ s ∈ fleet, P s) {e : FleetEvent κ ε} (he : C.fleetStep fleet e = some fleet') :
    ∀ s ∈ fleet', P s := by
  cases e with
  | start k =>
    obtain rfl : fleet ++ [C.start k] = fleet' := Option.some.inj he
    intro s hs
    rcases List.mem_append.mp hs with hs | hs
    · exact h s hs
    · rw [List.mem_singleton.mp hs]
      exact hstart k
  | on i e =>
    obtain ⟨s, hs, he⟩ := Option.bind_eq_some_iff.mp he
    obtain ⟨s', hs', he⟩ := Option.bind_eq_some_iff.mp he
    obtain rfl : fleet.set i s' = fleet' := Option.some.inj he
    intro t ht
    rcases List.mem_or_eq_of_mem_set ht with ht | rfl
    · exact h t ht
    · exact hstep s e t (h s (List.mem_of_getElem? hs)) hs'

/-- What new components have and every component keeps holds of all components after every run. -/
theorem run_forall (hstart : ∀ k, P (C.start k))
    (hstep : ∀ s e s', P s → C.step s e = some s' → P s') {fleet fleet' : List σ}
    (h : ∀ s ∈ fleet, P s) {events : List (FleetEvent κ ε)}
    (hrun : C.run fleet events = some fleet') : ∀ s ∈ fleet', P s := by
  induction events generalizing fleet with
  | nil =>
    obtain rfl : fleet = fleet' := Option.some.inj hrun
    exact h
  | cons e events ih =>
    obtain ⟨fleet₁, he, hrun⟩ := Option.bind_eq_some_iff.mp hrun
    exact ih (fleetStep_forall hstart hstep h he) hrun

end Component

end Library
