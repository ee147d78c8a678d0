import Mathlib.Data.Finset.Card
import Mathlib.Data.Nat.Find
import Mathlib.Logic.Function.Basic

/-!
# Open addressing without deletion

A hash table in one array: each slot is free or holds one key with its value, and
a key is looked for along its own sequence of slots until the key itself or a
free slot turns up. Nothing is ever removed, so a search that meets a free slot
may stop there.

## The model

* `Table σ κ ν` — what each slot of type `σ` holds.
* `Blocked`, `Stops` — the search for a key along a sequence: the first `n`
  positions hold other keys; the search ends at position `n`.
* `WellPlaced` — the invariant: every key sits on its own sequence, behind slots
  that hold other keys.
* `Represents` — the finite map a table stands for.
* `load` — how many of a set of slots are taken.

## What is proved

A search in a well-placed table answers what the map says
(`Represents.lookup_of_stops`); writing a key where its search stopped keeps the
table well placed (`WellPlaced.update`) and updates the map there
(`Represents.update`); and a search cannot fail while its sequence passes a free
slot (`exists_stops`), of which there is one as long as the load is below the
number of slots (`exists_free_of_load_lt`).
-/

namespace Foundation.OpenAddressing

variable {σ κ ν : Type*}

/-- What each slot holds: nothing, or a key and its value. -/
abbrev Table (σ κ ν : Type*) := σ → Option (κ × ν)

/-! ### Searching -/

/-- The first `n` positions of `seq` are taken by keys other than `k`. -/
def Blocked (t : Table σ κ ν) (seq : ℕ → σ) (k : κ) (n : ℕ) : Prop :=
  ∀ m < n, ∃ e, t (seq m) = some e ∧ e.1 ≠ k

/-- The search for `k` along `seq` ends at position `n`: at a free slot, or at
`k` itself. -/
structure Stops (t : Table σ κ ν) (seq : ℕ → σ) (k : κ) (n : ℕ) : Prop where
  /-- Every position before holds another key. -/
  blocked : Blocked t seq k n
  /-- Position `n` holds no other key. -/
  stop : ∀ e, t (seq n) = some e → e.1 = k

/-- A search passes no free slot, and not its key. -/
theorem exists_stops (t : Table σ κ ν) (seq : ℕ → σ) (k : κ) {N : ℕ}
    (h : ∀ e, t (seq N) = some e → e.1 = k) : ∃ n ≤ N, Stops t seq k n := by
  classical
  have hex : ∃ n, ∀ e, t (seq n) = some e → e.1 = k := ⟨N, h⟩
  refine ⟨Nat.find hex, Nat.find_le h, fun m hm => ?_, Nat.find_spec hex⟩
  have := Nat.find_min hex hm
  push Not at this
  exact this

theorem Blocked.le_of_stop {t : Table σ κ ν} {seq : ℕ → σ} {k : κ} {m n : ℕ}
    (hm : Blocked t seq k m) (hn : ∀ e, t (seq n) = some e → e.1 = k) : m ≤ n := by
  by_contra hlt
  obtain ⟨e, he, hne⟩ := hm n (by omega)
  exact hne (hn e he)

/-! ### The invariant -/

/-- **Every key is where its own search finds it**: on its sequence, behind slots
that hold other keys. -/
def WellPlaced (t : Table σ κ ν) (probe : κ → ℕ → σ) : Prop :=
  ∀ s k v, t s = some (k, v) → ∃ n, probe k n = s ∧ Blocked t (probe k) k n

theorem wellPlaced_empty (probe : κ → ℕ → σ) : WellPlaced (fun _ => none : Table σ κ ν) probe :=
  fun _ _ _ h => by cases h

/-- A key that is in the table is the one its search stops at. -/
theorem WellPlaced.eq_of_stops {t : Table σ κ ν} {probe : κ → ℕ → σ} (hw : WellPlaced t probe)
    {k : κ} {n : ℕ} (hs : Stops t (probe k) k n) {s : σ} {v : ν} (h : t s = some (k, v)) :
    s = probe k n := by
  obtain ⟨m, rfl, hm⟩ := hw s k v h
  have hmn : m = n := le_antisymm (hm.le_of_stop hs.stop)
    (hs.blocked.le_of_stop fun e he => by rw [h] at he; cases he; rfl)
  rw [hmn]

section Update

variable [DecidableEq σ] {t : Table σ κ ν} {probe : κ → ℕ → σ} {k : κ} {n : ℕ}

/-- Writing `k` where its search stopped blocks no less than before. -/
theorem Blocked.update {seq : ℕ → σ} {k' : κ} {m : ℕ} (hb : Blocked t seq k' m) (s : σ) (v : ν)
    (hs : ∀ e, t s = some e → e.1 = k) : Blocked (Function.update t s (some (k, v))) seq k' m := by
  intro j hj
  obtain ⟨e, he, hne⟩ := hb j hj
  by_cases hjs : seq j = s
  · refine ⟨(k, v), by rw [hjs, Function.update_self], ?_⟩
    rw [hjs] at he
    exact hs e he ▸ hne
  · exact ⟨e, by rw [Function.update_of_ne hjs]; exact he, hne⟩

/-- Writing a key where its search stopped keeps every key findable. -/
theorem WellPlaced.update (hw : WellPlaced t probe) (hs : Stops t (probe k) k n) (v : ν) :
    WellPlaced (Function.update t (probe k n) (some (k, v))) probe := by
  intro s k' v' h
  by_cases hsn : s = probe k n
  · subst hsn
    rw [Function.update_self] at h
    cases h
    exact ⟨n, rfl, hs.blocked.update _ _ hs.stop⟩
  · rw [Function.update_of_ne hsn] at h
    obtain ⟨m, hm, hb⟩ := hw s k' v' h
    exact ⟨m, hm, hb.update _ _ hs.stop⟩

end Update

/-! ### The map a table stands for -/

/-- The table holds exactly the pairs of the map `m`. -/
def Represents (t : Table σ κ ν) (m : κ → Option ν) : Prop :=
  ∀ k v, m k = some v ↔ ∃ s, t s = some (k, v)

theorem represents_empty : Represents (fun _ => none : Table σ κ ν) fun _ => none := by
  simp [Represents]

/-- **A search answers what the map says.** -/
theorem Represents.lookup_of_stops {t : Table σ κ ν} {probe : κ → ℕ → σ} {m : κ → Option ν}
    (hr : Represents t m) (hw : WellPlaced t probe) {k : κ} {n : ℕ}
    (hs : Stops t (probe k) k n) : m k = (t (probe k n)).map Prod.snd := by
  cases hm : m k with
  | none =>
    cases ht : t (probe k n) with
    | none => rfl
    | some e =>
      obtain ⟨k', v⟩ := e
      obtain rfl : k' = k := hs.stop _ ht
      rw [(hr k' v).mpr ⟨_, ht⟩] at hm
      cases hm
  | some v =>
    obtain ⟨s, ht⟩ := (hr k v).mp hm
    rw [hw.eq_of_stops hs ht] at ht
    rw [ht]
    rfl

/-- **Writing a key where its search stopped updates the map at that key only.** -/
theorem Represents.update [DecidableEq σ] [DecidableEq κ] {t : Table σ κ ν} {probe : κ → ℕ → σ}
    {m : κ → Option ν} (hr : Represents t m) (hw : WellPlaced t probe) {k : κ} {n : ℕ}
    (hs : Stops t (probe k) k n) (v : ν) :
    Represents (Function.update t (probe k n) (some (k, v))) (Function.update m k (some v)) := by
  intro k' v'
  by_cases hk : k' = k
  · subst hk
    rw [Function.update_self]
    constructor
    · rintro h
      cases h
      exact ⟨probe k' n, Function.update_self ..⟩
    · rintro ⟨s, h⟩
      by_cases hsn : s = probe k' n
      · rw [hsn, Function.update_self] at h
        cases h
        rfl
      · rw [Function.update_of_ne hsn] at h
        exact absurd (hw.eq_of_stops hs h) hsn
  · rw [Function.update_of_ne hk, hr]
    constructor
    · rintro ⟨s, h⟩
      have hsn : s ≠ probe k n := fun he => hk (hs.stop (k', v') (he ▸ h))
      exact ⟨s, by rw [Function.update_of_ne hsn]; exact h⟩
    · rintro ⟨s, h⟩
      by_cases hsn : s = probe k n
      · rw [hsn, Function.update_self] at h
        cases h
        exact absurd rfl hk
      · exact ⟨s, by rwa [Function.update_of_ne hsn] at h⟩

/-! ### Load -/

/-- How many of `slots` are taken. -/
def load (t : Table σ κ ν) (slots : Finset σ) : ℕ := (slots.filter fun s => (t s).isSome).card

theorem load_empty (slots : Finset σ) : load (fun _ => none : Table σ κ ν) slots = 0 := by
  simp [load]

/-- A write takes at most one more slot. -/
theorem load_update_le [DecidableEq σ] (t : Table σ κ ν) (slots : Finset σ) (s : σ)
    (e : Option (κ × ν)) : load (Function.update t s e) slots ≤ load t slots + 1 := by
  refine (Finset.card_le_card fun x hx => ?_).trans (Finset.card_insert_le s _)
  rw [Finset.mem_filter] at hx
  by_cases hxs : x = s
  · exact hxs ▸ Finset.mem_insert_self ..
  · rw [Function.update_of_ne hxs] at hx
    exact Finset.mem_insert_of_mem (Finset.mem_filter.mpr hx)

/-- While not every slot is taken, one is free. -/
theorem exists_free_of_load_lt {t : Table σ κ ν} {slots : Finset σ}
    (h : load t slots < slots.card) : ∃ s ∈ slots, t s = none := by
  by_contra hno
  push Not at hno
  refine absurd h (not_lt.mpr (Finset.card_le_card fun s hs => Finset.mem_filter.mpr ⟨hs, ?_⟩))
  exact Option.isSome_iff_ne_none.mpr (hno s hs)

end Foundation.OpenAddressing
