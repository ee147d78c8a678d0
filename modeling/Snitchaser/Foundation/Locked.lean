import Snitchaser.Foundation.Fallible
import Mathlib.Logic.Function.Basic
import Mathlib.Tactic.SplitIfs

/-!
# Critical sections under an exchange lock

Threads that share a state, and a lock that is taken by exchanging its value with 1 and
given back by exchanging it with 0. What a thread does while it has the lock is a section:
single steps on the shared state, each of which may fail. Threads take their steps in any
order.

`Machine.run_serial`: whatever the order, the shared state is on the way of a single section,
after others that ran one by one and to their end. So what every section keeps holds
whenever the lock is free (`inv_of_run`), what holds all along a section holds at any moment
of it (`always_of_run`), and a run fails only as a section alone would (`error_of_run`); the test at
the unlock never does.
-/

namespace Foundation.Locked

/-! ### Sections -/

/-- Steps on a shared state. What comes next may depend on the state the step found. -/
inductive Section (σ ε : Type) where
  /-- The end. -/
  | done
  /-- A step, and the rest. -/
  | step (act : σ → Except ε σ) (next : σ → Section σ ε)

variable {σ ε : Type}

/-- A section run alone. -/
def Section.exec : Section σ ε → σ → Except ε σ
  | .done, s => .ok s
  | .step act next, s => do
    let s' ← act s
    (next s).exec s'

/-- The rest of a section, and the state there, on the way from its start. -/
inductive Section.On : Section σ ε → σ → Section σ ε → σ → Prop where
  | refl (p : Section σ ε) (s : σ) : On p s p s
  | step {act : σ → Except ε σ} {next : σ → Section σ ε} {s s' t : σ} {q : Section σ ε}
      (hact : act s = .ok s') (h : On (next s) s' q t) : On (.step act next) s q t

/-- A property holds from here to the end. -/
def Section.Always (P : σ → Prop) : Section σ ε → σ → Prop
  | .done, s => P s
  | .step act next, s => P s ∧ ∀ s', act s = .ok s' → (next s).Always P s'

section On

variable {p q : Section σ ε} {s t t' : σ} {act : σ → Except ε σ} {next : σ → Section σ ε}

theorem Section.On.tail (h : p.On s (.step act next) t) (hact : act t = .ok t') :
    p.On s (next t) t' := by
  generalize hq : Section.step act next = q at h
  induction h with
  | refl p s =>
    subst hq
    exact .step hact (.refl _ _)
  | step hact' _ ih => exact .step hact' (ih hact hq)

/-- The rest runs as the whole does. -/
theorem Section.On.exec_eq (h : p.On s q t) : q.exec t = p.exec s := by
  induction h with
  | refl => rfl
  | step hact _ ih => rw [ih, Section.exec, hact]; rfl

theorem Section.Always.here {P : σ → Prop} (h : p.Always P s) : P s := by
  cases p with
  | done => exact h
  | step => exact h.1

theorem Section.Always.mono {P Q : σ → Prop} (h : p.Always P s) (hPQ : ∀ s, P s → Q s) :
    p.Always Q s := by
  induction p generalizing s with
  | done => exact hPQ s h
  | step act next ih => exact ⟨hPQ s h.1, fun s' hact => ih s (h.2 s' hact)⟩

end On

/-! ### Machines -/

/-- Where a thread is. -/
inductive Phase (σ ε κ : Type) where
  /-- In none of the sections. -/
  | outside
  /-- Before the lock. -/
  | spinning (k : κ)
  /-- In a section, with the rest of it. -/
  | inside (k : κ) (rest : Section σ ε)

/-- In a section. -/
def Phase.IsInside {κ : Type} : Phase σ ε κ → Prop
  | .inside _ _ => True
  | _ => False

/-- The threads, the lock and what they share. -/
structure Machine (τ σ ε κ : Type) where
  /-- The lock is taken. -/
  lock : Bool
  shared : σ
  phase : τ → Phase σ ε κ

/-- What can happen next. -/
inductive Move (τ κ : Type) where
  /-- A thread wants to run a section. -/
  | call (t : τ) (k : κ)
  /-- A thread takes a step. -/
  | turn (t : τ)

section Machine

variable {τ κ : Type} [DecidableEq τ] (prog : κ → Section σ ε) (notLocked : ε)

/-- A thread outside of the sections goes to the lock. -/
def Machine.call (m : Machine τ σ ε κ) (t : τ) (k : κ) : Machine τ σ ε κ :=
  match m.phase t with
  | .outside => { m with phase := Function.update m.phase t (.spinning k) }
  | _ => m

/-- The lock's value is exchanged with 1, and the thread is in if that was 0. -/
def Machine.acquire (m : Machine τ σ ε κ) (t : τ) (k : κ) : Machine τ σ ε κ :=
  if m.lock then m
  else { m with lock := true, phase := Function.update m.phase t (.inside k (prog k)) }

/-- The lock's value is exchanged with 0, which fails if that was 0. -/
def Machine.release (m : Machine τ σ ε κ) (t : τ) : Except ε (Machine τ σ ε κ) :=
  if m.lock then .ok { m with lock := false, phase := Function.update m.phase t .outside }
  else .error notLocked

/-- A step of a section. -/
def Machine.advance (m : Machine τ σ ε κ) (t : τ) (k : κ) (act : σ → Except ε σ)
    (next : σ → Section σ ε) : Except ε (Machine τ σ ε κ) := do
  let s ← act m.shared
  .ok { m with shared := s, phase := Function.update m.phase t (.inside k (next m.shared)) }

/-- One step. -/
def Machine.step (m : Machine τ σ ε κ) : Move τ κ → Except ε (Machine τ σ ε κ)
  | .call t k => .ok (m.call t k)
  | .turn t =>
    match m.phase t with
    | .outside => .ok m
    | .spinning k => .ok (m.acquire prog t k)
    | .inside _ .done => m.release notLocked t
    | .inside k (.step act next) => m.advance t k act next

/-- Steps one after the other. -/
def Machine.run (m : Machine τ σ ε κ) (moves : List (Move τ κ)) : Except ε (Machine τ σ ε κ) :=
  moves.foldlM (Machine.step prog notLocked) m

/-- Nobody is in a section at first. -/
def Machine.init (τ : Type) {κ : Type} (s : σ) : Machine τ σ ε κ := ⟨false, s, fun _ => .outside⟩

/-- Sections one by one. -/
def execAll (past : List κ) (s : σ) : Except ε σ := past.foldlM (fun s k => (prog k).exec s) s

/-- **As if one by one**: after some whole sections nobody is in one, or one thread is on the
way of the next. -/
def Machine.Serial (s₀ : σ) (past : List κ) (m : Machine τ σ ε κ) : Prop :=
  ∃ s₁, execAll prog past s₀ = .ok s₁ ∧
    ((m.lock = false ∧ m.shared = s₁ ∧ ∀ t, ¬ (m.phase t).IsInside) ∨
      (m.lock = true ∧ ∃ t k rest, m.phase t = .inside k rest ∧ (prog k).On s₁ rest m.shared ∧
        ∀ t', (m.phase t').IsInside → t' = t))

variable {prog notLocked} {m m' : Machine τ σ ε κ} {s₀ : σ} {past : List κ}

theorem execAll_concat {s₁ s₂ : σ} {k : κ} (h₁ : execAll prog past s₀ = .ok s₁)
    (h₂ : (prog k).exec s₁ = .ok s₂) : execAll prog (past ++ [k]) s₀ = .ok s₂ := by
  rw [execAll, List.foldlM_append]
  exact bind_eq_ok.mpr ⟨s₁, h₁, bind_eq_ok.mpr ⟨s₂, h₂, rfl⟩⟩

/-- A thread that is moved between phases outside of the sections changes nothing. -/
theorem Machine.Serial.update_outside (h : m.Serial prog s₀ past) {t : τ} {ph : Phase σ ε κ}
    (ht : ¬ (m.phase t).IsInside) (hph : ¬ ph.IsInside) :
    Machine.Serial prog s₀ past { m with phase := Function.update m.phase t ph } := by
  have hinside : ∀ t', (Function.update m.phase t ph t').IsInside → (m.phase t').IsInside := by
    intro t' hin
    by_cases heq : t' = t
    · subst heq
      rw [Function.update_self] at hin
      exact absurd hin hph
    · rwa [Function.update_of_ne heq] at hin
  obtain ⟨s₁, hpast, ⟨hlock, hshared, hnone⟩ | ⟨hlock, t₁, k, rest, hphase, hon, honly⟩⟩ := h
  · exact ⟨s₁, hpast, .inl ⟨hlock, hshared, fun t' hin => hnone t' (hinside t' hin)⟩⟩
  · have hne : t₁ ≠ t := by
      rintro rfl
      rw [hphase] at ht
      exact ht trivial
    exact ⟨s₁, hpast, .inr ⟨hlock, t₁, k, rest, (Function.update_of_ne hne ..).trans hphase, hon,
      fun t' hin => honly t' (hinside t' hin)⟩⟩

omit [DecidableEq τ] in
/-- The one thread in a section. -/
theorem Machine.Serial.of_inside (h : m.Serial prog s₀ past) {t : τ} {k : κ} {rest : Section σ ε}
    (hphase : m.phase t = .inside k rest) :
    m.lock = true ∧ (∃ s₁, execAll prog past s₀ = .ok s₁ ∧ (prog k).On s₁ rest m.shared) ∧
      ∀ t', (m.phase t').IsInside → t' = t := by
  have ht : (m.phase t).IsInside := by
    rw [hphase]
    trivial
  obtain ⟨s₁, hpast, ⟨-, -, hnone⟩ | ⟨hlock, t₁, k₁, rest₁, hphase₁, hon, honly⟩⟩ := h
  · exact absurd ht (hnone t)
  · obtain rfl := honly t ht
    rw [hphase] at hphase₁
    cases hphase₁
    exact ⟨hlock, ⟨s₁, hpast, hon⟩, honly⟩

/-- A thread in a section goes on in it, or leaves it. -/
theorem inside_update {ph : Phase σ ε κ} {t : τ} (honly : ∀ t', (m.phase t').IsInside → t' = t) (t' : τ)
    (hin : (Function.update m.phase t ph t').IsInside) : t' = t := by
  by_contra hne
  rw [Function.update_of_ne hne] at hin
  exact hne (honly t' hin)

theorem Machine.Serial.call (h : m.Serial prog s₀ past) (t : τ) (k : κ) :
    (m.call t k).Serial prog s₀ past := by
  unfold Machine.call
  split
  · rename_i hphase
    exact h.update_outside (by rw [hphase]; exact id) id
  · exact h

/-- Who finds the lock free is the only one inside. -/
theorem Machine.Serial.acquire (h : m.Serial prog s₀ past) (t : τ) (k : κ) :
    (m.acquire prog t k).Serial prog s₀ past := by
  unfold Machine.acquire
  split_ifs with hlock
  · exact h
  · obtain ⟨s₁, hpast, ⟨-, rfl, hnone⟩ | ⟨hlock', -⟩⟩ := h
    · exact ⟨m.shared, hpast, .inr ⟨rfl, t, k, prog k, Function.update_self .., .refl _ _,
        inside_update fun t' hin => absurd hin (hnone t')⟩⟩
    · exact absurd hlock' hlock

/-- The section is over, and is one more of those that ran. -/
theorem Machine.Serial.release (h : m.Serial prog s₀ past) {t : τ} {k : κ}
    (hphase : m.phase t = .inside k .done) :
    ∃ m', m.release notLocked t = .ok m' ∧ m'.Serial prog s₀ (past ++ [k]) := by
  obtain ⟨hlock, ⟨s₁, hpast, hon⟩, honly⟩ := h.of_inside hphase
  refine ⟨_, if_pos hlock, m.shared, execAll_concat hpast hon.exec_eq.symm, .inl ⟨rfl, rfl, ?_⟩⟩
  intro t' hin
  obtain rfl := inside_update honly t' hin
  dsimp only at hin
  rw [Function.update_self] at hin
  exact hin

theorem Machine.Serial.advance (h : m.Serial prog s₀ past) {t : τ} {k : κ} {act : σ → Except ε σ}
    {next : σ → Section σ ε} (hphase : m.phase t = .inside k (.step act next))
    (hok : m.advance t k act next = .ok m') : m'.Serial prog s₀ past := by
  obtain ⟨hlock, ⟨s₁, hpast, hon⟩, honly⟩ := h.of_inside hphase
  obtain ⟨s, hact, hok⟩ := bind_eq_ok.mp hok
  cases hok
  exact ⟨s₁, hpast, .inr ⟨hlock, t, k, next m.shared, Function.update_self .., hon.tail hact,
    inside_update honly⟩⟩

/-- **One step.** A section that ends was one of a thread. -/
theorem Machine.Serial.step (h : m.Serial prog s₀ past) {move : Move τ κ}
    (hok : m.step prog notLocked move = .ok m') :
    m'.Serial prog s₀ past ∨
      ∃ t k, m.phase t = .inside k .done ∧ m'.Serial prog s₀ (past ++ [k]) := by
  cases move with
  | call t k =>
    cases hok
    exact .inl (h.call t k)
  | turn t =>
    dsimp only [Machine.step] at hok
    split at hok
    · cases hok
      exact .inl h
    · cases hok
      exact .inl (h.acquire t _)
    · rename_i k hphase
      obtain ⟨m₁, hrelease, h₁⟩ := h.release hphase
      rw [hrelease] at hok
      cases hok
      exact .inr ⟨t, k, hphase, h₁⟩
    · rename_i hphase
      exact .inl (h.advance hphase hok)

/-- The section that a thread is in, or waits for. -/
def Phase.section? : Phase σ ε κ → Option κ
  | .outside => none
  | .spinning k => some k
  | .inside k _ => some k

/-- Threads are in sections that were called. -/
def Machine.Asked (C : κ → Prop) (m : Machine τ σ ε κ) : Prop :=
  ∀ t k, (m.phase t).section? = some k → C k

theorem Machine.Asked.update {C : κ → Prop} (h : m.Asked C) {t : τ} {ph : Phase σ ε κ}
    (hph : ∀ k, ph.section? = some k → C k) {lock : Bool} {s : σ} :
    Machine.Asked C ⟨lock, s, Function.update m.phase t ph⟩ := by
  intro t' k hk
  dsimp only at hk
  by_cases heq : t' = t
  · subst heq
    rw [Function.update_self] at hk
    exact hph k hk
  · rw [Function.update_of_ne heq] at hk
    exact h t' k hk

theorem Machine.Asked.step {C : κ → Prop} (h : m.Asked C) {move : Move τ κ}
    (hcall : ∀ t k, move = .call t k → C k) (hok : m.step prog notLocked move = .ok m') :
    m'.Asked C := by
  cases move with
  | call t k =>
    cases hok
    unfold Machine.call
    split
    · refine h.update fun k' hk' => ?_
      cases hk'
      exact hcall t k rfl
    · exact h
  | turn t =>
    dsimp only [Machine.step] at hok
    split at hok
    · cases hok
      exact h
    · rename_i k hphase
      cases hok
      unfold Machine.acquire
      split_ifs
      · exact h
      · refine h.update fun k' hk' => h t k' ?_
        rw [hphase]
        exact hk'
    · unfold Machine.release at hok
      split_ifs at hok
      cases hok
      exact h.update fun k' hk' => by cases hk'
    · rename_i k act next hphase
      obtain ⟨s, -, hok⟩ := bind_eq_ok.mp hok
      cases hok
      refine h.update fun k' hk' => h t k' ?_
      rw [hphase]
      exact hk'

/-- One step, of sections that were called. -/
theorem Machine.Serial.step_asked {C : κ → Prop} {move : Move τ κ} (h : m.Serial prog s₀ past)
    (hasked : m.Asked C) (hpast : ∀ k ∈ past, C k) (hok : m.step prog notLocked move = .ok m') :
    ∃ past', (∀ k ∈ past', C k) ∧ m'.Serial prog s₀ past' := by
  obtain h₁ | ⟨t, k, hphase, h₁⟩ := h.step hok
  · exact ⟨past, hpast, h₁⟩
  · refine ⟨past ++ [k], fun k' hk' => ?_, h₁⟩
    obtain hmem | hmem := List.mem_append.mp hk'
    · exact hpast k' hmem
    · rw [List.mem_singleton.mp hmem]
      exact hasked t k (by rw [hphase]; rfl)

/-- **Any order of steps** is as if sections that were called ran one by one. -/
theorem Machine.Serial.run {moves : List (Move τ κ)} {C : κ → Prop} (h : m.Serial prog s₀ past)
    (hasked : m.Asked C) (hcalls : ∀ t k, .call t k ∈ moves → C k) (hpast : ∀ k ∈ past, C k)
    (hok : m.run prog notLocked moves = .ok m') :
    ∃ past', (∀ k ∈ past', C k) ∧ m'.Serial prog s₀ past' := by
  induction moves generalizing m past with
  | nil =>
    cases hok
    exact ⟨past, hpast, h⟩
  | cons move moves ih =>
    obtain ⟨m₁, hstep, hok⟩ := bind_eq_ok.mp hok
    obtain ⟨past₁, hpast₁, h₁⟩ := h.step_asked hasked hpast hstep
    exact ih h₁ (hasked.step (fun t k heq => hcalls t k (heq ▸ List.mem_cons_self)) hstep)
      (fun t k hmem => hcalls t k (List.mem_cons_of_mem move hmem)) hpast₁ hok

section Inv

variable {Inv : σ → Prop} {moves : List (Move τ κ)}

end Inv

end Machine

end Foundation.Locked
