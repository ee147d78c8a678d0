import Mathlib.Data.Finset.Card
import Mathlib.Data.Finset.Range
import Snitchaser.Foundation.Fallible

/-!
# Loops

The body of a loop takes a state to the next one or to a result, or it fails. `Trace` is a
run of the loop to its result, with the states it passes; `run` is the same with fuel.

A state that comes twice comes for ever, so the states of a trace are different
(`Trace.nodup`). A loop whose body fails outside of `n` states comes to its result within `n`
rounds, or never: `run_eq_ok_iff_trace`.
-/

namespace Foundation.Loop

variable {σ ε β : Type} (step : σ → Except ε (β ⊕ σ))

/-- A run to the result, with the states it passes. -/
inductive Trace : σ → List σ → β → Prop where
  | stop {s : σ} {b : β} : step s = .ok (.inl b) → Trace s [s] b
  | next {s s' : σ} {l : List σ} {b : β} : step s = .ok (.inr s') → Trace s' l b → Trace s (s :: l) b

/-- A run of at most `n` rounds. -/
def run (exhausted : ε) : ℕ → σ → Except ε (List σ × β)
  | 0, _ => .error exhausted
  | n + 1, s => do
    match ← step s with
    | .inl b => .ok ([s], b)
    | .inr s' => do
      let rest ← run exhausted n s'
      .ok (s :: rest.1, rest.2)

variable {step} {s : σ} {l : List σ} {b : β}

/-- The fuel is enough for a trace that is not longer. -/
theorem run_eq_ok_iff {exhausted : ε} {n : ℕ} :
    run step exhausted n s = .ok (l, b) ↔ Trace step s l b ∧ l.length ≤ n := by
  induction n generalizing s l with
  | zero =>
    refine iff_of_false (fun h => by cases h) ?_
    rintro ⟨htrace, hle⟩
    cases htrace <;> simp at hle
  | succ n ih =>
    constructor
    · intro h
      obtain ⟨r, hstep, h⟩ := bind_eq_ok.mp h
      cases r with
      | inl b' =>
        cases h
        exact ⟨.stop hstep, by simp⟩
      | inr s' =>
        obtain ⟨⟨l', b'⟩, hrun, h⟩ := bind_eq_ok.mp h
        cases h
        obtain ⟨htrace, hle⟩ := ih.mp hrun
        exact ⟨.next hstep htrace, Nat.succ_le_succ hle⟩
    · rintro ⟨htrace, hle⟩
      cases htrace with
      | stop hstep => exact bind_eq_ok.mpr ⟨_, hstep, rfl⟩
      | next hstep htrace =>
        refine bind_eq_ok.mpr ⟨_, hstep, bind_eq_ok.mpr ⟨_, ih.mpr ⟨htrace, ?_⟩, rfl⟩⟩
        exact Nat.le_of_succ_le_succ hle

/-- There is one run from a state. -/
theorem Trace.unique {l' : List σ} {b' : β} (h : Trace step s l b) (h' : Trace step s l' b') :
    l = l' ∧ b = b' := by
  induction h generalizing l' with
  | stop hstep =>
    cases h' with
    | stop hstep' =>
      rw [hstep] at hstep'
      cases hstep'
      exact ⟨rfl, rfl⟩
    | next hstep' _ =>
      rw [hstep] at hstep'
      cases hstep'
  | next hstep _ ih =>
    cases h' with
    | stop hstep' =>
      rw [hstep] at hstep'
      cases hstep'
    | next hstep' htrace' =>
      rw [hstep] at hstep'
      cases hstep'
      obtain ⟨rfl, rfl⟩ := ih htrace'
      exact ⟨rfl, rfl⟩

/-- From each state it passes, the run goes on to the result. -/
theorem Trace.of_mem (h : Trace step s l b) {x : σ} (hx : x ∈ l) :
    ∃ l', Trace step x l' b ∧ l'.length ≤ l.length := by
  induction h with
  | stop hstep =>
    obtain rfl := List.mem_singleton.mp hx
    exact ⟨_, .stop hstep, le_rfl⟩
  | next hstep htrace ih =>
    rcases List.mem_cons.mp hx with rfl | hx
    · exact ⟨_, .next hstep htrace, le_rfl⟩
    · obtain ⟨l', htrace', hle⟩ := ih hx
      exact ⟨l', htrace', hle.trans (Nat.le_succ _)⟩

/-- **No state comes twice.** -/
theorem Trace.nodup (h : Trace step s l b) : l.Nodup := by
  induction h with
  | stop => exact List.nodup_singleton _
  | next hstep htrace ih =>
    refine List.nodup_cons.mpr ⟨fun hmem => ?_, ih⟩
    obtain ⟨l', htrace', hle⟩ := htrace.of_mem hmem
    obtain ⟨rfl, -⟩ := htrace'.unique (.next hstep htrace)
    exact absurd hle (Nat.not_succ_le_self _)

/-- The body does not fail on the way. -/
theorem Trace.exists_ok (h : Trace step s l b) {x : σ} (hx : x ∈ l) : ∃ r, step x = .ok r := by
  obtain ⟨l', htrace, -⟩ := h.of_mem hx
  cases htrace with
  | stop hstep => exact ⟨_, hstep⟩
  | next hstep _ => exact ⟨_, hstep⟩

/-- **A loop over `n` states ends within `n` rounds.** -/
theorem Trace.length_le {n : ℕ} {f : σ → ℕ} (hf : Function.Injective f)
    (hn : ∀ x r, step x = .ok r → f x < n) (h : Trace step s l b) : l.length ≤ n := by
  have hnodup : (l.map f).Nodup := (List.nodup_map_iff hf).mpr h.nodup
  have hsub : (l.map f).toFinset ⊆ Finset.range n := by
    intro i hi
    obtain ⟨x, hx, rfl⟩ := List.mem_map.mp (List.mem_toFinset.mp hi)
    obtain ⟨r, hr⟩ := h.exists_ok hx
    exact Finset.mem_range.mpr (hn x r hr)
  calc l.length = (l.map f).toFinset.card := by
        rw [List.toFinset_card_of_nodup hnodup, List.length_map]
    _ ≤ (Finset.range n).card := Finset.card_le_card hsub
    _ = n := Finset.card_range n

/-- **The fuel that decides whether a loop comes to an end.** -/
theorem run_eq_ok_iff_trace {exhausted : ε} {n : ℕ} {f : σ → ℕ} (hf : Function.Injective f)
    (hn : ∀ x r, step x = .ok r → f x < n) :
    run step exhausted n s = .ok (l, b) ↔ Trace step s l b :=
  run_eq_ok_iff.trans (and_iff_left_of_imp fun h => h.length_le hf hn)

/-- A state that is its own next one. -/
theorem run_of_fixed {exhausted : ε} (h : step s = .ok (.inr s)) (n : ℕ) :
    run step exhausted n s = .error exhausted := by
  induction n with
  | zero => rfl
  | succ n ih => exact bind_eq_error.mpr (.inr ⟨_, h, bind_eq_error.mpr (.inl ih)⟩)

end Foundation.Loop
