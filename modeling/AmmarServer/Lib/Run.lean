import Mathlib.Logic.Basic

/-! Runs of a state machine whose steps are the answers to events, under a condition that each event
meets in the state it arrives in. -/

namespace Run
variable {σ ε : Type*}

/-- The states that the events of a run lead to. -/
inductive Reaches (step : σ → ε → σ) (guard : σ → ε → Prop) (init : σ) : σ → Prop
  | start : Reaches step guard init init
  | step {s : σ} (e : ε) (before : Reaches step guard init s) (allowed : guard s e) :
      Reaches step guard init (step s e)

variable {step : σ → ε → σ} {guard : σ → ε → Prop} {init : σ}

theorem Reaches.invariant {Inv : σ → Prop} (hinit : Inv init)
    (hstep : ∀ s e, Inv s → guard s e → Inv (step s e)) {s : σ} (h : Reaches step guard init s) :
    Inv s := by
  induction h with
  | start => exact hinit
  | step e _ allowed ih => exact hstep _ e ih allowed

/-- The state behind a list of events. -/
theorem Reaches.foldl (hall : ∀ s e, guard s e) (events : List ε) {s : σ}
    (h : Reaches step guard init s) : Reaches step guard init (events.foldl step s) := by
  induction events generalizing s with
  | nil => exact h
  | cons e events ih => exact ih (.step e h (hall s e))

/-- The state behind a list of events that meet the condition in every state. -/
theorem Reaches.foldl_mem (events : List ε) (hall : ∀ e ∈ events, ∀ s, guard s e) {s : σ}
    (h : Reaches step guard init s) : Reaches step guard init (events.foldl step s) := by
  induction events generalizing s with
  | nil => exact h
  | cons e events ih =>
    obtain ⟨he, hall⟩ := List.forall_mem_cons.mp hall
    exact ih hall (.step e h (he s))

/-- Each event of a list meets the condition in the state that the ones before it lead to. -/
def Allowed (step : σ → ε → σ) (guard : σ → ε → Prop) : σ → List ε → Prop
  | _, [] => True
  | s, e :: events => guard s e ∧ Allowed step guard (step s e) events

instance decidableAllowed [∀ s e, Decidable (guard s e)] :
    ∀ (events : List ε) (s : σ), Decidable (Allowed step guard s events)
  | [], _ => isTrue trivial
  | e :: events, s =>
    have := decidableAllowed events (step s e)
    inferInstanceAs (Decidable (_ ∧ _))

theorem Reaches.allowed (events : List ε) {s : σ} (h : Reaches step guard init s)
    (hallowed : Allowed step guard s events) : Reaches step guard init (events.foldl step s) := by
  induction events generalizing s with
  | nil => exact h
  | cons e events ih => exact ih (.step e h hallowed.1) hallowed.2

theorem allowed_append {events events' : List ε} {s : σ}
    (h : Allowed step guard s (events ++ events')) : Allowed step guard s events := by
  induction events generalizing s with
  | nil => trivial
  | cons e events ih => exact ⟨h.1, ih h.2⟩

/-- Two conditions that say the same in every state that one of them leads to. -/
theorem allowed_congr {guard' : σ → ε → Prop} {Inv : σ → Prop}
    (hkeep : ∀ s e, Inv s → guard s e → Inv (step s e))
    (hiff : ∀ s e, Inv s → (guard s e ↔ guard' s e)) (events : List ε) {s : σ} (h : Inv s) :
    Allowed step guard s events ↔ Allowed step guard' s events := by
  induction events generalizing s with
  | nil => exact Iff.rfl
  | cons e events ih =>
    constructor
    · rintro ⟨he, hrest⟩
      exact ⟨(hiff s e h).mp he, (ih (hkeep s e h he)).mp hrest⟩
    · rintro ⟨he, hrest⟩
      have hguard := (hiff s e h).mpr he
      exact ⟨hguard, (ih (hkeep s e h hguard)).mpr hrest⟩

end Run
