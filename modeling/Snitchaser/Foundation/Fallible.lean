import Mathlib.Data.Nat.Notation

/-!
# Computations that may fail

What a computation in `Except` that succeeds, or fails, is made of; and the same with a state, in
`EStateM`.
-/

namespace Foundation

variable {ε α β : Type}

/-- What a bind that succeeds is made of. -/
theorem bind_eq_ok {x : Except ε α} {f : α → Except ε β} {b : β} :
    x >>= f = .ok b ↔ ∃ a, x = .ok a ∧ f a = .ok b := by
  cases x with
  | ok a => simp [bind, Except.bind]
  | error e => simp [bind, Except.bind]

/-- What a bind that fails is made of. -/
theorem bind_eq_error {x : Except ε α} {f : α → Except ε β} {e : ε} :
    x >>= f = .error e ↔ x = .error e ∨ ∃ a, x = .ok a ∧ f a = .error e := by
  cases x with
  | ok a => simp [bind, Except.bind]
  | error e => simp [bind, Except.bind]

/-- A computation whose result can be seen has one. -/
theorem exists_ok {x : Except ε α} (f : α → β) {b : β} (h : (x.map f).toOption = some b) :
    ∃ a, x = .ok a ∧ f a = b := by
  cases x with
  | ok a => exact ⟨a, rfl, Option.some.inj h⟩
  | error e => cases h

/-- What each round of a loop keeps, the loop keeps. -/
theorem foldlM_induction {P : α → Prop} {f : α → β → Option α} {l : List β} {a a' : α} (h : P a)
    (hl : l.foldlM f a = some a') (hstep : ∀ x ∈ l, ∀ a a', P a → f a x = some a' → P a') : P a' := by
  induction l generalizing a with
  | nil =>
    cases hl
    exact h
  | cons x l ih =>
    obtain ⟨a₁, hx, hl⟩ := Option.bind_eq_some_iff.mp hl
    exact ih (hstep x List.mem_cons_self a a₁ h hx) hl fun y hy => hstep y (List.mem_cons_of_mem _ hy)

/-! ### With a state -/

section State

variable {σ : Type} {x y : EStateM ε σ α} {f : α → EStateM ε σ β} {s s' : σ}

/-- A step that does not fail. -/
theorem run_bind_ok {a : α} (h : x.run s = .ok a s') : (x >>= f).run s = (f a).run s' := by
  show EStateM.bind x f s = f a s'
  unfold EStateM.bind
  rw [show x s = .ok a s' from h]

/-- A step that fails. -/
theorem run_bind_error {e : ε} (h : x.run s = .error e s') : (x >>= f).run s = .error e s' := by
  show EStateM.bind x f s = _
  unfold EStateM.bind
  rw [show x s = .error e s' from h]

/-- Computations that begin alike go on alike. -/
theorem run_bind_congr (h : x.run s = y.run s') : (x >>= f).run s = (y >>= f).run s' := by
  show EStateM.bind x f s = EStateM.bind y f s'
  unfold EStateM.bind
  rw [show x s = y s' from h]

/-- What a computation that does not fail is made of. -/
theorem run_bind_eq_ok {b : β} {t : σ} (h : (x >>= f).run s = .ok b t) :
    ∃ a s', x.run s = .ok a s' ∧ (f a).run s' = .ok b t := by
  cases hx : x.run s with
  | ok a s' => exact ⟨a, s', rfl, (run_bind_ok hx).symm.trans h⟩
  | error e s' =>
    rw [run_bind_error hx] at h
    cases h

/-- Where a computation that fails does so. -/
theorem run_bind_eq_error {e : ε} {t : σ} (h : (x >>= f).run s = .error e t) :
    x.run s = .error e t ∨ ∃ a s', x.run s = .ok a s' ∧ (f a).run s' = .error e t := by
  cases hx : x.run s with
  | ok a s' => exact .inr ⟨a, s', rfl, (run_bind_ok hx).symm.trans h⟩
  | error e' s' =>
    rw [run_bind_error hx] at h
    cases h
    exact .inl rfl

end State

end Foundation
