import Mathlib.Logic.Relation
import Mathlib.Data.List.Basic

/-!
# Runs

## Of a system that may fail

A system takes an event in a state to a new state, or fails and is at its end. This module
relates what holds in every state of a run (`Throughout`) to what every event of it meets
where it is taken (`MeetsEach`).

`throughout_iff` is the rule: an invariant that every event keeps if it meets its
condition, and a property that follows from the invariant and is lost at once by an event
that does not. Then the property holds throughout a run exactly when each event of it
meets the condition.

## Of a system whose parts take turns

Where several steps are possible in a state, a run is a path of the step relation. An
invariant that every step keeps while it brings a number down holds all along (`inv_of_reach`)
and no path is infinite (`acc_of_decreasing`); so there is a state at which a run ends
(`exists_ended`).
-/

namespace Foundation

variable {σ ε ω : Type} (step : σ → ε → Except ω σ)

/-- A property of every state a run passes. -/
def Throughout (P : σ → Prop) : σ → List ε → Prop
  | s, [] => P s
  | s, e :: es => P s ∧ ∀ s', step s e = .ok s' → Throughout P s' es

/-- A condition on every event a run takes, in the state it is taken in. -/
def MeetsEach (C : σ → ε → Prop) : σ → List ε → Prop
  | _, [] => True
  | s, e :: es => ∀ s', step s e = .ok s' → C s e ∧ MeetsEach C s' es

variable {step} {P : σ → Prop} {C : σ → ε → Prop}

theorem Throughout.head {s : σ} {es : List ε} (h : Throughout step P s es) : P s := by
  cases es with
  | nil => exact h
  | cons e es => exact h.1

/-- **The rule for a property and its condition.** -/
theorem throughout_iff {Inv : σ → Prop} (hP : ∀ s, Inv s → P s)
    (hkeep : ∀ s e s', Inv s → C s e → step s e = .ok s' → Inv s')
    (hbreak : ∀ s e s', Inv s → ¬ C s e → step s e = .ok s' → ¬ P s')
    {s : σ} (h : Inv s) (es : List ε) : Throughout step P s es ↔ MeetsEach step C s es := by
  induction es generalizing s with
  | nil => exact iff_of_true (hP s h) trivial
  | cons e es ih =>
    constructor
    · rintro ⟨-, hrest⟩ s' hstep
      have hs' := hrest s' hstep
      by_cases hC : C s e
      · exact ⟨hC, (ih (hkeep s e s' h hC hstep)).mp hs'⟩
      · exact absurd hs'.head (hbreak s e s' h hC hstep)
    · intro hmeets
      refine ⟨hP s h, fun s' hstep => ?_⟩
      obtain ⟨hC, hrest⟩ := hmeets s' hstep
      exact (ih (hkeep s e s' h hC hstep)).mpr hrest

section Steps

open Relation

variable {step : σ → σ → Prop} {Inv : σ → Prop}

theorem inv_of_reach (hkeep : ∀ s s', Inv s → step s s' → Inv s') {s s' : σ}
    (hreach : ReflTransGen step s s') (h : Inv s) : Inv s' := by
  induction hreach with
  | refl => exact h
  | tail _ hstep ih => exact hkeep _ _ ih hstep

/-- **No infinite run**, if every step brings a number down. -/
theorem acc_of_decreasing (size : σ → ℕ) (hkeep : ∀ s s', Inv s → step s s' → Inv s')
    (hless : ∀ s s', Inv s → step s s' → size s' < size s) {s : σ} (h : Inv s) :
    Acc (fun s' s => step s s') s := by
  induction hn : size s using Nat.strongRecOn generalizing s with
  | _ n ih =>
    refine .intro s fun s' hstep => ?_
    exact ih (size s') (hn ▸ hless s s' h hstep) (hkeep s s' h hstep) rfl

/-- A run that goes on as long as it can comes to an end. -/
theorem exists_ended {s : σ} (hacc : Acc (fun s' s => step s s') s) :
    ∃ s', ReflTransGen step s s' ∧ ∀ t, ¬ step s' t := by
  induction hacc with
  | intro s _ ih =>
    by_cases hend : ∃ s', step s s'
    · obtain ⟨s', hstep⟩ := hend
      obtain ⟨t, hreach, hended⟩ := ih s' hstep
      exact ⟨t, .head hstep hreach, hended⟩
    · exact ⟨s, .refl, not_exists.mp hend⟩

end Steps

end Foundation
