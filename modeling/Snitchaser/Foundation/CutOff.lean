import Snitchaser.Foundation.Fallible

/-!
# Two states, one of them cut off

A computation with state that may fail, run from two states that are related: where the second
is what is left of the first when something was cut off, it does the same on both, or it comes
to the cut on the second. `StopsAtCut` says so of a computation; it holds of what is put together
from such computations.
-/

namespace Foundation

variable {ε σ α β : Type} {R : σ → σ → Prop} {cut : ε}

/-- On the second of two related states a computation stops at the cut, or both runs fail alike,
or they return the same and the states are related again. -/
def StopsAtCut (R : σ → σ → Prop) (cut : ε) (x : EStateM ε σ α) : Prop :=
  ∀ s s', R s s' →
    (∃ t', x.run s' = .error cut t') ∨
    (∃ e t t', x.run s = .error e t ∧ x.run s' = .error e t') ∨
    ∃ a t t', x.run s = .ok a t ∧ x.run s' = .ok a t' ∧ R t t'

theorem stopsAtCut_pure (a : α) : StopsAtCut R cut (pure a) :=
  fun s s' h => .inr (.inr ⟨a, s, s', rfl, rfl, h⟩)

theorem stopsAtCut_throw (e : ε) : StopsAtCut R cut (throw e : EStateM ε σ α) :=
  fun s s' _ => .inr (.inl ⟨e, s, s', rfl, rfl⟩)

/-- One computation after the other. -/
theorem StopsAtCut.bind {x : EStateM ε σ α} {f : α → EStateM ε σ β} (hx : StopsAtCut R cut x)
    (hf : ∀ a, StopsAtCut R cut (f a)) : StopsAtCut R cut (x >>= f) := by
  intro s s' h
  rcases hx s s' h with ⟨t', hcut⟩ | ⟨e, t, t', he, he'⟩ | ⟨a, t, t', ha, ha', ht⟩
  · exact .inl ⟨t', run_bind_error hcut⟩
  · exact .inr (.inl ⟨e, t, t', run_bind_error he, run_bind_error he'⟩)
  · rw [run_bind_ok ha, run_bind_ok ha']
    exact hf a t t' ht

theorem StopsAtCut.ite {c : Prop} [Decidable c] {x y : EStateM ε σ α} (hx : StopsAtCut R cut x)
    (hy : StopsAtCut R cut y) : StopsAtCut R cut (if c then x else y) := by
  by_cases h : c
  · rwa [if_pos h]
  · rwa [if_neg h]

end Foundation
