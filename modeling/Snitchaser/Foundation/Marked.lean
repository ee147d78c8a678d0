import Mathlib.Data.List.Infix
import Mathlib.Data.List.ReduceOption
import Mathlib.Tactic.Tauto

/-!
# Streams with marks

A stream of items, in segments: `none` is the mark that begins the next segment. It is read
by two kinds of calls. `read` takes some items of a segment, or passes a mark and takes
none; `full` takes as many items as it is asked for, and gives up at two marks with nothing
between. Both give what they took even if they fail.

A caller that goes on until a call fails has taken everything, if no two marks stand
together (`run_of_noGap`); and it does not matter if a mark has been passed before it began
to call (`run_later`). If two marks stand together, it does matter (`exists_gap_calls`).
-/

namespace Foundation.Marked

variable {β γ σ ω : Type}

/-! ### Calls -/

/-- Calls, one after the other: all that they took, and how it ended. -/
def run (step : γ → σ → List β × Except ω σ) : List γ → σ → List β × Except ω σ
  | [], s => ([], .ok s)
  | c :: cs, s =>
    match step c s with
    | (taken, .error e) => (taken, .error e)
    | (taken, .ok s') => (taken ++ (run step cs s').1, (run step cs s').2)

section Run

variable {step : γ → σ → List β × Except ω σ} {c : γ} {cs : List γ} {s s' : σ}
  {taken first rest : List β} {o : Except ω σ}

theorem run_cons_error {e : ω} (h : step c s = (taken, .error e)) :
    run step (c :: cs) s = (taken, .error e) := by
  rw [run, h]

theorem run_cons_ok (h : step c s = (first, .ok s')) (hrest : run step cs s' = (rest, o)) :
    run step (c :: cs) s = (first ++ rest, o) := by
  rw [run, h]
  dsimp only
  rw [hrest]

/-- What a run is made of. -/
theorem run_cons_cases (h : run step (c :: cs) s = (taken, o)) :
    (∃ e, step c s = (taken, .error e) ∧ o = .error e) ∨
      ∃ first s' rest, step c s = (first, .ok s') ∧ run step cs s' = (rest, o) ∧
        taken = first ++ rest := by
  rcases hstep : step c s with ⟨first, e | s'⟩
  · rw [run_cons_error hstep] at h
    cases h
    exact .inl ⟨e, rfl, rfl⟩
  · rcases hrest : run step cs s' with ⟨rest, o'⟩
    rw [run_cons_ok hstep hrest] at h
    cases h
    exact .inr ⟨first, s', rest, rfl, hrest, rfl⟩

theorem run_append_ok {cs' : List γ} (h : run step cs s = (first, .ok s'))
    (hrest : run step cs' s' = (rest, o)) : run step (cs ++ cs') s = (first ++ rest, o) := by
  induction cs generalizing s first with
  | nil =>
    cases h
    exact hrest
  | cons c cs ih =>
    rcases run_cons_cases h with ⟨e, -, he⟩ | ⟨one, s'', more, hstep, hmore, rfl⟩
    · cases he
    · rw [List.append_assoc]
      exact run_cons_ok hstep (ih hmore)

end Run

/-! ### Two ways to keep a stream -/

/-- The same was taken, and it ended in the same way. -/
inductive Match {τ : Type} (R : σ → τ → Prop) : List β × Except ω σ → List β × Except ω τ → Prop
  | ok {taken s t} : R s t → Match R (taken, .ok s) (taken, .ok t)
  | error {taken e} : Match R (taken, .error e) (taken, .error e)

section Match

variable {τ : Type} {R : σ → τ → Prop} {step : γ → σ → List β × Except ω σ}
  {step' : γ → τ → List β × Except ω τ} {s : σ} {t : τ}

theorem Match.append {first : List β} {x : List β × Except ω σ} {y : List β × Except ω τ}
    (h : Match R x y) : Match R (first ++ x.1, x.2) (first ++ y.1, y.2) := by
  cases h with
  | ok hst => exact .ok hst
  | error => exact .error

/-- Runs match if calls do. -/
theorem Match.run (hstep : ∀ c s t, R s t → Match R (step c s) (step' c t)) (h : R s t)
    (cs : List γ) : Match R (run step cs s) (run step' cs t) := by
  induction cs generalizing s t with
  | nil => exact .ok h
  | cons c cs ih =>
    have hc := hstep c s t h
    unfold Marked.run
    generalize step c s = x at hc
    generalize step' c t = y at hc
    cases hc with
    | ok hst => exact (ih hst).append
    | error => exact .error

theorem Match.error_iff {x : List β × Except ω σ} {y : List β × Except ω τ} (h : Match R x y)
    (taken : List β) (e : ω) : x = (taken, .error e) ↔ y = (taken, .error e) := by
  cases h with
  | ok => exact iff_of_false (by simp) (by simp)
  | error => rw [Prod.mk.injEq, Prod.mk.injEq, Except.error.injEq, Except.error.injEq]

end Match

/-! ### Reading -/

/-- Up to `k` items before the next mark, and what follows them. -/
def takeItems : ℕ → List (Option β) → List β × List (Option β)
  | k + 1, some b :: t => (b :: (takeItems k t).1, (takeItems k t).2)
  | _, t => ([], t)

variable (done broken : ω)

/-- Some items, or a mark. -/
def read (k : ℕ) (t : List (Option β)) : List β × Except ω (List (Option β)) :=
  if k = 0 then ([], .ok t)
  else
    match t with
    | [] => ([], .error done)
    | none :: t => ([], .ok t)
    | some b :: t => ((takeItems k (some b :: t)).1, .ok (takeItems k (some b :: t)).2)

/-- `k` items; `marked` says that a mark has just been passed. -/
def full : ℕ → Bool → List (Option β) → List β × Except ω (List (Option β))
  | 0, _, t => ([], .ok t)
  | _ + 1, _, [] => ([], .error done)
  | k + 1, marked, none :: t => if marked then ([], .error broken) else full (k + 1) true t
  | k + 1, _, some b :: t => (b :: (full k false t).1, (full k false t).2)

/-- The two kinds of calls. -/
inductive Call where
  | read (k : ℕ)
  | full (k : ℕ)
  deriving DecidableEq, Repr

/-- A call. -/
def call : Call → List (Option β) → List β × Except ω (List (Option β))
  | .read k, t => read done k t
  | .full k, t => full done broken k false t

variable {done broken}

/-! ### What a call does -/

section Call

variable {k : ℕ} {marked : Bool} {t t' : List (Option β)} {taken : List β} {e : ω} {c : Call}

/-- Items that are taken stand before the rest. -/
theorem takeItems_append (k : ℕ) (t : List (Option β)) :
    (takeItems k t).1.map some ++ (takeItems k t).2 = t := by
  fun_induction takeItems k t with
  | case1 k b t ih => rw [List.map_cons, List.cons_append, ih]
  | case2 => rfl

/-- Items before a mark, or before the end. -/
theorem takeItems_map_append (h : ∀ b, t.head? ≠ some (some b)) (k : ℕ) (p : List β) :
    takeItems k (p.map some ++ t) = (p.take k, (p.drop k).map some ++ t) := by
  induction p generalizing k with
  | nil =>
    match t, k with
    | [], _ | none :: _, _ | some b :: _, 0 => simp [takeItems]
    | some b :: _, k + 1 => exact absurd rfl (h b)
  | cons b p ih =>
    cases k with
    | zero => rfl
    | succ k => simp only [List.map_cons, List.cons_append, takeItems, ih, List.take_succ_cons,
        List.drop_succ_cons]

/-- A call for items takes those at the front. -/
theorem full_map_append {p : List β} (hp : p ≠ []) (hk : p.length ≤ k) (marked : Bool)
    (t : List (Option β)) : full done broken k marked (p.map some ++ t) =
      (p ++ (full done broken (k - p.length) false t).1, (full done broken (k - p.length) false t).2) := by
  induction p generalizing k marked with
  | nil => exact absurd rfl hp
  | cons b p ih =>
    obtain ⟨k, rfl⟩ := Nat.exists_eq_add_one_of_ne_zero (Nat.ne_zero_of_lt hk)
    rw [List.map_cons, List.cons_append, full, List.length_cons, Nat.add_sub_add_right]
    cases p with
    | nil => rfl
    | cons c p =>
      rw [ih (by simp) (Nat.le_of_succ_le_succ hk)]
      rfl

theorem reduceOption_map_some (l : List β) : (l.map some).reduceOption = l := by
  induction l with
  | nil => rfl
  | cons b l ih => rw [List.map_cons, List.reduceOption_cons_of_some, ih]

/-- A stretch of the stream with these items. -/
def Passes (t t' : List (Option β)) (taken : List β) : Prop := ∃ p, t = p ++ t' ∧ p.reduceOption = taken

theorem passes_read (h : read done k t = (taken, .ok t')) : Passes t t' taken := by
  unfold read at h
  split_ifs at h with hk
  · cases h
    exact ⟨[], rfl, rfl⟩
  · match t with
    | [] => cases h
    | none :: t =>
      cases h
      exact ⟨[none], rfl, rfl⟩
    | some b :: t =>
      cases h
      exact ⟨_, (takeItems_append k (some b :: t)).symm, reduceOption_map_some _⟩

theorem passes_full (h : full done broken k marked t = (taken, .ok t')) : Passes t t' taken := by
  fun_induction full done broken k marked t generalizing taken with
  | case1 =>
    cases h
    exact ⟨[], rfl, rfl⟩
  | case2 => cases h
  | case3 => cases h
  | case4 k marked t hmarked ih =>
    obtain ⟨p, rfl, hp⟩ := ih h
    exact ⟨none :: p, rfl, hp⟩
  | case5 k marked b t ih =>
    rcases hrest : full done broken k false t with ⟨rest, o⟩
    rw [hrest] at h
    cases h
    obtain ⟨p, rfl, hp⟩ := ih hrest
    exact ⟨some b :: p, rfl, by rw [List.reduceOption_cons_of_some, hp]⟩

theorem passes_call (h : call done broken c t = (taken, .ok t')) : Passes t t' taken := by
  cases c with
  | read k => exact passes_read h
  | full k => exact passes_full h

theorem Passes.suffix (h : Passes t t' taken) : t' <:+ t := by
  obtain ⟨p, rfl, -⟩ := h
  exact List.suffix_append p t'

theorem Passes.items (h : Passes t t' taken) : t.reduceOption = taken ++ t'.reduceOption := by
  obtain ⟨p, rfl, rfl⟩ := h
  exact List.reduceOption_append p t'

end Call

/-! ### Without gaps -/

/-- No two marks stand together. -/
def NoGap (t : List (Option β)) : Prop := ¬[none, none] <:+: t

section NoGap

variable {k : ℕ} {marked : Bool} {t t' : List (Option β)} {taken : List β} {e : ω} {c : Call}
  {cs : List Call}

theorem NoGap.suffix (h : NoGap t) (hs : t' <:+ t) : NoGap t' := fun hgap => h (hgap.trans hs.isInfix)

theorem NoGap.tail {a : Option β} (h : NoGap (a :: t)) : NoGap t := h.suffix (List.suffix_cons a t)

/-- A mark is not followed by a mark. -/
theorem NoGap.head_ne (h : NoGap (none :: t)) : t.head? ≠ some none := by
  intro hhead
  cases t with
  | nil => cases hhead
  | cons a t =>
    cases hhead
    exact h ⟨[], t, rfl⟩

/-- A call for items fails at the end of the stream. -/
theorem full_error (ht : NoGap t) (hmarked : marked = true → t.head? ≠ some none)
    (h : full done broken k marked t = (taken, .error e)) : e = done ∧ taken = t.reduceOption := by
  fun_induction full done broken k marked t generalizing taken with
  | case1 => cases h
  | case2 =>
    cases h
    exact ⟨rfl, rfl⟩
  | case3 => exact absurd rfl (hmarked rfl)
  | case4 k marked t hm ih =>
    obtain ⟨he, htaken⟩ := ih ht.tail (fun _ => ht.head_ne) h
    exact ⟨he, htaken⟩
  | case5 k marked b t ih =>
    rcases hrest : full done broken k false t with ⟨rest, o⟩
    rw [hrest] at h
    cases h
    obtain ⟨he, rfl⟩ := ih ht.tail (by simp) hrest
    exact ⟨he, (List.reduceOption_cons_of_some b t).symm⟩

theorem call_error (ht : NoGap t) (h : call done broken c t = (taken, .error e)) :
    e = done ∧ taken = t.reduceOption := by
  cases c with
  | read k =>
    change read done k t = _ at h
    unfold read at h
    split_ifs at h
    · cases h
    · match t with
      | [] =>
        cases h
        exact ⟨rfl, rfl⟩
      | none :: t => cases h
      | some b :: t => cases h
  | full k => exact full_error ht (by simp) h

/-- **A run that fails has taken everything.** -/
theorem run_of_noGap (ht : NoGap t) (h : run (call done broken) cs t = (taken, .error e)) :
    e = done ∧ taken = t.reduceOption := by
  induction cs generalizing t taken with
  | nil => cases h
  | cons c cs ih =>
    rcases run_cons_cases h with ⟨e', hcall, he⟩ | ⟨first, t', rest, hcall, hrun, rfl⟩
    · cases he
      exact call_error ht hcall
    · have hpass := passes_call hcall
      obtain ⟨he, rfl⟩ := ih (ht.suffix hpass.suffix) hrun
      exact ⟨he, hpass.items.symm⟩

/-! ### From a later place -/

theorem takeItems_suffix (k : ℕ) (t : List (Option β)) : (takeItems k t).2 <:+ t :=
  ⟨_, takeItems_append k t⟩

/-- More items lead further. -/
theorem takeItems_le {j k : ℕ} (hjk : j ≤ k) (t : List (Option β)) :
    (takeItems k t).2 <:+ (takeItems j t).2 := by
  fun_induction takeItems j t generalizing k with
  | case1 j b t ih =>
    obtain ⟨k, rfl⟩ := Nat.exists_eq_add_one_of_ne_zero (Nat.ne_zero_of_lt hjk)
    exact ih (Nat.le_of_succ_le_succ hjk)
  | case2 j t hne => exact takeItems_suffix k t

/-- Against some items, a `read` of as many from a later place. -/
theorem read_suffix {j : ℕ} (hjk : j ≤ k) (hk : k ≠ 0) (hs : t' <:+ t) {x : List β}
    {u : List (Option β)} (h : read done k t' = (x, .ok u)) : u <:+ (takeItems j t).2 := by
  fun_induction takeItems j t with
  | case1 j b t ih =>
    rcases List.suffix_cons_iff.mp hs with rfl | hs
    · obtain ⟨k, rfl⟩ := Nat.exists_eq_add_one_of_ne_zero hk
      rw [read, if_neg hk] at h
      cases h
      exact takeItems_le (Nat.le_of_succ_le_succ hjk) t
    · exact ih (Nat.le_of_succ_le hjk) hs
  | case2 j t hne => exact (passes_read h).suffix.trans hs

/-- A `full` from a later place, for as many items at least. -/
theorem full_suffix {j : ℕ} {marked' : Bool} (ht : NoGap t)
    (hmarked : marked = true → t.head? ≠ some none) (hjk : j ≤ k) (hs : t' <:+ t) {x : List β}
    {u' : List (Option β)} (h : full done broken k marked' t' = (x, .ok u')) :
    ∃ y u, full done broken j marked t = (y, .ok u) ∧ u' <:+ u := by
  fun_induction full done broken j marked t generalizing k marked' t' x with
  | case1 _ t => exact ⟨[], t, rfl, (passes_full h).suffix.trans hs⟩
  | case2 j _ =>
    obtain ⟨k, rfl⟩ := Nat.exists_eq_add_one_of_ne_zero (Nat.ne_zero_of_lt hjk)
    obtain rfl := List.suffix_nil.mp hs
    cases h
  | case3 => exact absurd rfl (hmarked rfl)
  | case4 j marked t hm ih =>
    rcases List.suffix_cons_iff.mp hs with rfl | hs
    · obtain ⟨k, rfl⟩ := Nat.exists_eq_add_one_of_ne_zero (Nat.ne_zero_of_lt hjk)
      rw [full] at h
      split_ifs at h
      · cases h
      · exact ih ht.tail (fun _ => ht.head_ne) hjk (List.suffix_refl t) h
    · exact ih ht.tail (fun _ => ht.head_ne) hjk hs h
  | case5 j marked b t ih =>
    have hrest : ∃ y u, full done broken j false t = (y, .ok u) ∧ u' <:+ u := by
      rcases List.suffix_cons_iff.mp hs with rfl | hs
      · obtain ⟨k, rfl⟩ := Nat.exists_eq_add_one_of_ne_zero (Nat.ne_zero_of_lt hjk)
        rw [full] at h
        rcases hfull : full done broken k false t with ⟨rest, o⟩
        rw [hfull] at h
        cases h
        exact ih ht.tail (by simp) (Nat.le_of_succ_le_succ hjk) (List.suffix_refl t) hfull
      · exact ih ht.tail (by simp) (Nat.le_of_succ_le hjk) hs h
    obtain ⟨y, u, hfull, hu⟩ := hrest
    exact ⟨b :: y, u, by rw [hfull], hu⟩

theorem call_suffix (ht : NoGap t) (hs : t' <:+ t) {x : List β} {u' : List (Option β)}
    (h : call done broken c t' = (x, .ok u')) :
    ∃ y u, call done broken c t = (y, .ok u) ∧ u' <:+ u := by
  cases c with
  | full k => exact full_suffix ht (by simp) le_rfl hs h
  | read k =>
    change read done k t' = _ at h
    change ∃ y u, read done k t = _ ∧ _
    by_cases hk : k = 0
    · unfold read at h ⊢
      rw [if_pos hk] at h ⊢
      cases h
      exact ⟨[], t, rfl, hs⟩
    · match t with
      | [] =>
        obtain rfl := List.suffix_nil.mp hs
        rw [read, if_neg hk] at h
        cases h
      | none :: t =>
        refine ⟨[], t, if_neg hk, ?_⟩
        rcases List.suffix_cons_iff.mp hs with rfl | hs
        · rw [read, if_neg hk] at h
          cases h
          exact List.suffix_refl _
        · exact (passes_read h).suffix.trans hs
      | some b :: t => exact ⟨_, _, if_neg hk, read_suffix le_rfl hk hs h⟩

/-- **A run from a later place comes to its end no later.** -/
theorem run_suffix (ht : NoGap t) (hs : t' <:+ t) {x : List β} {u' : List (Option β)}
    (h : run (call done broken) cs t' = (x, .ok u')) :
    ∃ y u, run (call done broken) cs t = (y, .ok u) ∧ u' <:+ u := by
  induction cs generalizing t t' x with
  | nil =>
    cases h
    exact ⟨[], t, rfl, hs⟩
  | cons c cs ih =>
    rcases run_cons_cases h with ⟨e', -, he⟩ | ⟨first, u₁', rest, hcall, hrun, -⟩
    · cases he
    · obtain ⟨y, u₁, hcall', hs'⟩ := call_suffix ht hs hcall
      obtain ⟨z, u, hrun', hs''⟩ := ih (ht.suffix (passes_call hcall').suffix) hs' hrun
      exact ⟨_, u, run_cons_ok hcall' hrun', hs''⟩

/-- **Without gaps the place makes no difference**, if there are only marks before it. -/
theorem run_later (ht : NoGap t) (hs : t' <:+ t) (hitems : t'.reduceOption = t.reduceOption)
    (h : run (call done broken) cs t = (taken, .error e)) :
    run (call done broken) cs t' = (taken, .error e) := by
  obtain ⟨rfl, rfl⟩ := run_of_noGap ht h
  rcases hrun : run (call e broken) cs t' with ⟨x, e' | u'⟩
  · obtain ⟨rfl, rfl⟩ := run_of_noGap (ht.suffix hs) hrun
    rw [hitems]
  · obtain ⟨y, u, hok, -⟩ := run_suffix ht hs hrun
    cases h.symm.trans hok

end NoGap

/-! ### The first items -/

section Prefix

variable {k : ℕ} {marked : Bool} {t t' : List (Option β)} {taken first : List β} {e : ω} {c : Call}
  {cs : List Call}

theorem full_error_prefix {p : List β}
    (h : full done broken k marked (p.map some ++ t) = (taken, .error e)) : p <+: taken := by
  induction p generalizing k marked taken with
  | nil => exact List.nil_prefix
  | cons b p ih =>
    cases k with
    | zero => cases h
    | succ k =>
      rcases hrest : full done broken k false (p.map some ++ t) with ⟨rest, o⟩
      rw [List.map_cons, List.cons_append, full, hrest] at h
      cases h
      exact List.cons_prefix_cons.mpr ⟨rfl, ih hrest⟩

theorem call_error_prefix {p : List β}
    (h : call done broken c (p.map some ++ t) = (taken, .error e)) : p <+: taken := by
  cases c with
  | full k => exact full_error_prefix h
  | read k =>
    cases p with
    | nil => exact List.nil_prefix
    | cons b p =>
      change read done k (some b :: (p.map some ++ t)) = _ at h
      unfold read at h
      split_ifs at h <;> cases h

/-- Items at the front are taken, or still there. -/
theorem Passes.prefix_or {p : List β} (h : Passes (p.map some ++ t) t' first) :
    p <+: first ∨ ∃ q, p = first ++ q ∧ t' = q.map some ++ t := by
  obtain ⟨m, hm, rfl⟩ := h
  rcases List.append_eq_append_iff.mp hm with ⟨a, rfl, -⟩ | ⟨a, hp, rfl⟩
  · rw [List.reduceOption_append, reduceOption_map_some]
    exact .inl (List.prefix_append p _)
  · obtain ⟨l₁, l₂, rfl, rfl, rfl⟩ := List.map_eq_append_iff.mp hp
    rw [reduceOption_map_some]
    exact .inr ⟨l₂, rfl, rfl⟩

/-- **A run that fails has taken the items before the first mark.** -/
theorem run_error_prefix {p : List β}
    (h : run (call done broken) cs (p.map some ++ t) = (taken, .error e)) : p <+: taken := by
  induction cs generalizing p taken with
  | nil => cases h
  | cons c cs ih =>
    rcases run_cons_cases h with ⟨e', hcall, he⟩ | ⟨first, t', rest, hcall, hrun, rfl⟩
    · cases he
      exact call_error_prefix hcall
    · rcases (passes_call hcall).prefix_or with hp | ⟨q, rfl, rfl⟩
      · exact hp.trans (List.prefix_append first rest)
      · exact (List.prefix_append_right_inj first).mpr (ih hrun)

end Prefix

/-! ### With a gap -/

section Gap

variable {t : List (Option β)}

/-- One token after the other. -/
theorem run_read_one (u t : List (Option β)) :
    run (call done broken) (List.replicate u.length (.read 1)) (u ++ t) = (u.reduceOption, .ok t) := by
  induction u with
  | nil => rfl
  | cons a u ih =>
    cases a with
    | none =>
      have hmark : call done broken (.read 1) (none :: (u ++ t)) = ([], .ok (u ++ t)) := rfl
      exact run_cons_ok hmark ih
    | some b =>
      have hitem : call done broken (.read 1) (some b :: (u ++ t)) = ([b], .ok (u ++ t)) := rfl
      exact run_cons_ok hitem ih

/-- All of the stream. -/
theorem run_read_all (t : List (Option β)) :
    run (call done broken) (List.replicate (t.length + 1) (.read 1)) t = (t.reduceOption, .error done) := by
  have hall : run (call done broken) (List.replicate t.length (.read 1)) t = (t.reduceOption, .ok []) := by
    have h : run (call done broken) (List.replicate t.length (.read 1)) (t ++ []) =
        (t.reduceOption, .ok []) := run_read_one t []
    rwa [List.append_nil] at h
  rw [List.replicate_succ', ← List.append_nil t.reduceOption]
  exact run_append_ok hall rfl

theorem NoGap.cons_some (h : NoGap t) (b : β) : NoGap (some b :: t) := by
  intro hgap
  rcases List.infix_cons_iff.mp hgap with hpre | hin
  · exact absurd (List.cons_prefix_cons.mp hpre).1 (by simp)
  · exact h hin

/-- Items at the front make no gap. -/
theorem noGap_map_append (p : List β) : NoGap (p.map some ++ t) ↔ NoGap t := by
  induction p with
  | nil => rfl
  | cons b p ih => exact ⟨fun h => ih.mp h.tail, fun h => (ih.mpr h).cons_some b⟩

/-- A mark makes a gap with a mark. -/
theorem noGap_mark (t : List (Option β)) :
    NoGap (none :: t) ↔ NoGap t ∧ t.head? ≠ some none := by
  refine ⟨fun h => ⟨h.tail, h.head_ne⟩, fun ⟨h, hhead⟩ hgap => ?_⟩
  rcases List.infix_cons_iff.mp hgap with hpre | hin
  · obtain ⟨u, hu⟩ := (List.cons_prefix_cons.mp hpre).2
    exact hhead (by rw [← hu]; rfl)
  · exact h hin

/-- Behind an item there are two marks. -/
theorem exists_item_before_gap : ∀ {t : List (Option β)} {b : β}, ¬NoGap (some b :: t) →
    ∃ u x v, some b :: t = u ++ some x :: none :: none :: v := by
  intro t b h
  match t with
  | [] => exact absurd (NoGap.cons_some (fun hgap => by simpa using hgap.length_le) b) h
  | some c :: t =>
    have htail : ¬NoGap (some c :: t) := fun hno => h (NoGap.cons_some hno b)
    obtain ⟨u, x, v, htail⟩ := exists_item_before_gap htail
    exact ⟨some b :: u, x, v, congrArg (some b :: ·) htail⟩
  | none :: none :: t => exact ⟨[], b, t, rfl⟩
  | [none] => exact absurd (NoGap.cons_some (fun hgap => by simpa using hgap.length_le) b) h
  | none :: some c :: t =>
    have htail : ¬NoGap (some c :: t) := by
      intro hno
      exact h (NoGap.cons_some ((noGap_mark _).mpr ⟨hno, by simp⟩) b)
    obtain ⟨u, x, v, htail⟩ := exists_item_before_gap htail
    exact ⟨some b :: none :: u, x, v, congrArg (some b :: none :: ·) htail⟩
termination_by t => t.length

/-- **At a gap, the place makes a difference**: calls that take everything from a mark on
give up if they are made from behind the mark. -/
theorem exists_gap_calls {b : β} (h : ¬NoGap (some b :: t)) :
    ∃ cs taken, run (call done broken) cs (none :: some b :: t) =
        ((some b :: t).reduceOption, .error done) ∧
      run (call done broken) cs (some b :: t) = (taken, .error broken) := by
  obtain ⟨u, x, v, ht⟩ := exists_item_before_gap h
  rw [ht]
  -- Token by token, the one reader stays a token behind the other: it is at `x` when the
  -- other one is at the gap.
  refine ⟨List.replicate (u ++ [some x]).length (.read 1) ++
    .full 1 :: List.replicate ((none :: none :: v).length + 1) (.read 1),
    (u ++ [some x]).reduceOption, ?_, ?_⟩
  · have hlag : run (call done broken) (List.replicate (u ++ [some x]).length (.read 1))
        (none :: u ++ some x :: none :: none :: v) =
          ((none :: u).reduceOption, .ok (some x :: none :: none :: v)) := by
      have hlen : (u ++ [some x]).length = (none :: u).length := by simp
      rw [hlen]
      exact run_read_one _ _
    have hitem : call done broken (.full 1) (some x :: none :: none :: v) =
        ([x], .ok (none :: none :: v)) := rfl
    have hrun := run_append_ok hlag (run_cons_ok hitem (run_read_all (none :: none :: v)))
    simpa [List.reduceOption_append] using hrun
  · have hahead : run (call done broken) (List.replicate (u ++ [some x]).length (.read 1))
        (u ++ [some x] ++ none :: none :: v) =
          ((u ++ [some x]).reduceOption, .ok (none :: none :: v)) := run_read_one _ _
    have hgap : call done broken (.full 1) (none :: none :: v) = ([], .error broken) := rfl
    have hfail : ∀ cs, run (call done broken) (.full 1 :: cs) (none :: none :: v) = ([], .error broken) :=
      fun cs => run_cons_error hgap
    simpa using run_append_ok hahead (hfail _)

end Gap

end Foundation.Marked
