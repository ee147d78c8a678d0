import Mathlib.Data.List.Basic

/-!
# Terminated strings

A string in memory goes up to a terminator. `read` is the string that memory begins with, if it
ends there; `lay` are strings one after the other, each with its terminator, and `starts` is
where they begin.

`read_eq_some_iff` says which memory begins with a string, and `map_readAt_starts` that strings
that were laid down are read back from where they start.
-/

namespace Foundation.Terminated

variable {α : Type} (z : α)

/-! ### Strings one after the other -/

/-- Strings one after the other. -/
def lay (strings : List (List α)) : List α := strings.flatMap (· ++ [z])

@[simp] theorem lay_nil : lay z [] = [] := rfl

@[simp] theorem lay_cons (s : List α) (strings : List (List α)) :
    lay z (s :: strings) = s ++ z :: lay z strings := by
  simp [lay]

theorem lay_append (front back : List (List α)) : lay z (front ++ back) = lay z front ++ lay z back :=
  List.flatMap_append

/-- Where the strings start. -/
def starts (p : ℕ) : List (List α) → List ℕ
  | [] => []
  | s :: strings => p :: starts (p + s.length + 1) strings

@[simp] theorem length_starts (p : ℕ) (strings : List (List α)) :
    (starts p strings).length = strings.length := by
  induction strings generalizing p with
  | nil => rfl
  | cons s strings ih => rw [starts, List.length_cons, ih, List.length_cons]

theorem starts_append (p : ℕ) (front back : List (List α)) :
    starts p (front ++ back) = starts p front ++ starts (p + (lay z front).length) back := by
  induction front generalizing p with
  | nil => rfl
  | cons s front ih =>
    have hlen : p + s.length + 1 + (lay z front).length = p + (lay z (s :: front)).length := by
      rw [lay_cons, List.length_append, List.length_cons]
      omega
    rw [List.cons_append, starts, ih, starts, List.cons_append, hlen]

/-- Behind the first string are the others. -/
theorem drop_of_lay_cons {m s tail : List α} {strings : List (List α)} {p : ℕ}
    (h : m.drop p = lay z (s :: strings) ++ tail) :
    m.drop (p + s.length + 1) = lay z strings ++ tail := by
  rw [lay_cons, List.append_assoc] at h
  rw [Nat.add_assoc, ← List.drop_drop, h, List.drop_length_add_append]
  rfl

/-- A string is at each start. -/
theorem exists_drop_of_mem_starts {m tail : List α} {strings : List (List α)} {p q : ℕ}
    (h : m.drop p = lay z strings ++ tail) (hq : q ∈ starts p strings) :
    ∃ s ∈ strings, ∃ rest, m.drop q = s ++ z :: rest := by
  induction strings generalizing p with
  | nil => cases hq
  | cons s strings ih =>
    rcases List.mem_cons.mp hq with rfl | hq
    · refine ⟨s, List.mem_cons_self, lay z strings ++ tail, ?_⟩
      rw [h, lay_cons, List.append_assoc, List.cons_append]
    · obtain ⟨t, ht, hdrop⟩ := ih (drop_of_lay_cons z h) hq
      exact ⟨t, List.mem_cons_of_mem _ ht, hdrop⟩

/-- The last string is the one that starts last. -/
theorem le_of_mem_starts {strings : List (List α)} {p q : ℕ} (hq : q ∈ starts p strings) :
    q ≤ p + (lay z strings.dropLast).length := by
  induction strings generalizing p with
  | nil => cases hq
  | cons s strings ih =>
    rcases List.mem_cons.mp hq with rfl | hq
    · exact Nat.le_add_right _ _
    · have hne : strings ≠ [] := by
        rintro rfl
        cases hq
      have hle := ih hq
      rw [List.dropLast_cons_of_ne_nil hne, lay_cons, List.length_append, List.length_cons]
      omega

theorem length_lay_dropLast_lt {strings : List (List α)} (h : strings ≠ []) :
    (lay z strings.dropLast).length < (lay z strings).length := by
  conv_rhs => rw [← List.dropLast_append_getLast h, lay_append, List.length_append]
  rw [lay_cons, List.length_append, List.length_cons]
  omega

/-- Each string takes a place at least. -/
theorem length_le_length_lay (strings : List (List α)) : strings.length ≤ (lay z strings).length := by
  induction strings with
  | nil => exact Nat.le_refl _
  | cons s strings ih =>
    rw [lay_cons, List.length_append, List.length_cons, List.length_cons]
    omega

/-! ### Reading -/

variable [DecidableEq α]

/-- The string that memory begins with. -/
def read : List α → Option (List α)
  | [] => none
  | a :: rest => if a = z then some [] else (read rest).map (a :: ·)

/-- **Memory begins with a string** if a terminator comes right behind it, and none before. -/
theorem read_eq_some_iff {m s : List α} : read z m = some s ↔ z ∉ s ∧ ∃ rest, m = s ++ z :: rest := by
  induction m generalizing s with
  | nil =>
    refine iff_of_false (fun h => by cases h) ?_
    rintro ⟨-, rest, h⟩
    exact List.append_ne_nil_of_right_ne_nil s (List.cons_ne_nil z rest) h.symm
  | cons a m ih =>
    rw [read]
    split_ifs with ha
    · subst ha
      constructor
      · intro h
        cases h
        exact ⟨List.not_mem_nil, m, rfl⟩
      · rintro ⟨hz, rest, h⟩
        cases s with
        | nil => rfl
        | cons b s =>
          obtain ⟨rfl, -⟩ := List.cons.inj h
          exact absurd List.mem_cons_self hz
    · rw [Option.map_eq_some_iff]
      constructor
      · rintro ⟨t, ht, rfl⟩
        obtain ⟨hz, rest, rfl⟩ := ih.mp ht
        exact ⟨List.not_mem_cons_of_ne_of_not_mem (Ne.symm ha) hz, rest, rfl⟩
      · rintro ⟨hz, rest, h⟩
        cases s with
        | nil => exact absurd (List.cons.inj h).1 ha
        | cons b s =>
          obtain ⟨rfl, rfl⟩ := List.cons.inj h
          exact ⟨s, ih.mpr ⟨List.not_mem_of_not_mem_cons hz, rest, rfl⟩, rfl⟩

theorem read_append {s : List α} (h : z ∉ s) (rest : List α) : read z (s ++ z :: rest) = some s :=
  (read_eq_some_iff z).mpr ⟨h, rest, rfl⟩

/-- Without a terminator there is no string. -/
theorem read_eq_none {m : List α} (h : z ∉ m) : read z m = none := by
  rw [Option.eq_none_iff_forall_ne_some]
  intro s hs
  obtain ⟨-, rest, rfl⟩ := (read_eq_some_iff z).mp hs
  exact h (List.mem_append_right _ List.mem_cons_self)

/-- The string at an offset. -/
def readAt (m : List α) (p : ℕ) : Option (List α) := read z (m.drop p)

theorem readAt_of_lay_cons {m s tail : List α} {strings : List (List α)} {p : ℕ}
    (h : m.drop p = lay z (s :: strings) ++ tail) (hs : z ∉ s) : readAt z m p = some s := by
  unfold readAt
  rw [h, lay_cons, List.append_assoc, List.cons_append]
  exact read_append z hs _

/-- **Strings that were laid down are read back.** -/
theorem map_readAt_starts {m tail : List α} {strings : List (List α)} {p : ℕ}
    (h : m.drop p = lay z strings ++ tail) (hs : ∀ s ∈ strings, z ∉ s) :
    (starts p strings).map (readAt z m) = strings.map some := by
  induction strings generalizing p with
  | nil => rfl
  | cons s strings ih =>
    obtain ⟨hfirst, hrest⟩ := List.forall_mem_cons.mp hs
    rw [starts, List.map_cons, List.map_cons, readAt_of_lay_cons z h hfirst,
      ih (drop_of_lay_cons z h) hrest]

end Foundation.Terminated
