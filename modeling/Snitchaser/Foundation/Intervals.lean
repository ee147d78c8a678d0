import Mathlib.Data.List.Pairwise
import Mathlib.Order.Interval.Set.Basic

/-!
# Lists of intervals

Half-open intervals of a linear order, in lists: `Ascending` lists have no empty interval,
and each ends before the next begins. An interval that lies in one of them is cut out of
such a list piece by piece: `Ascending.cutOut` and `union_cutOut`.
-/

namespace Foundation

variable {α β : Type*} [LinearOrder α]

/-- A half-open interval. -/
structure HalfOpen (α : Type*) where
  lo : α
  hi : α
  deriving DecidableEq, Repr

namespace HalfOpen

/-- The points of an interval. -/
def toSet (i : HalfOpen α) : Set α := Set.Ico i.lo i.hi

/-- The points of some intervals. -/
def union (l : List (HalfOpen α)) : Set α := {a | ∃ i ∈ l, a ∈ i.toSet}

/-- **Intervals in ascending order**: none is empty, and no two of them meet. -/
structure Ascending (l : List (HalfOpen α)) : Prop where
  lo_lt_hi : ∀ i ∈ l, i.lo < i.hi
  sorted : l.Pairwise fun i j => i.hi ≤ j.lo

theorem mem_union_flatMap {l : List β} {f : β → List (HalfOpen α)} {a : α} :
    a ∈ union (l.flatMap f) ↔ ∃ x ∈ l, a ∈ union (f x) := by
  constructor
  · rintro ⟨i, hi, ha⟩
    obtain ⟨x, hx, hi⟩ := List.mem_flatMap.mp hi
    exact ⟨x, hx, i, hi, ha⟩
  · rintro ⟨x, hx, i, hi, ha⟩
    exact ⟨i, List.mem_flatMap.mpr ⟨x, hx, hi⟩, ha⟩

/-- Intervals that are replaced by intervals within them stay in order. -/
theorem Ascending.flatMap {l : List (HalfOpen α)} (h : Ascending l)
    {f : HalfOpen α → List (HalfOpen α)} (hf : ∀ i ∈ l, Ascending (f i))
    (hin : ∀ i ∈ l, ∀ j ∈ f i, i.lo ≤ j.lo ∧ j.hi ≤ i.hi) : Ascending (l.flatMap f) where
  lo_lt_hi j hj := by
    obtain ⟨i, hi, hj⟩ := List.mem_flatMap.mp hj
    exact (hf i hi).lo_lt_hi j hj
  sorted := by
    refine List.pairwise_flatMap.mpr ⟨fun i hi => (hf i hi).sorted, ?_⟩
    refine h.sorted.imp_of_mem fun {i i'} hi hi' hle j hj j' hj' => ?_
    exact (hin i hi j hj).2.trans (hle.trans (hin i' hi' j' hj').1)

/-- A point lies in one of them only. -/
theorem Ascending.eq_of_mem {f : β → HalfOpen α} {l : List β} (h : Ascending (l.map f)) {x y : β}
    (hx : x ∈ l) (hy : y ∈ l) {a : α} (hax : a ∈ (f x).toSet) (hay : a ∈ (f y).toSet) : x = y := by
  have hsorted := List.pairwise_map.mp h.sorted
  clear h
  induction l with
  | nil => cases hx
  | cons z l ih =>
    obtain ⟨hz, hsorted⟩ := List.pairwise_cons.mp hsorted
    rcases List.mem_cons.mp hx with rfl | hxl <;> rcases List.mem_cons.mp hy with rfl | hyl
    · rfl
    · exact absurd (hax.2.trans_le (hz y hyl)) (not_lt.mpr hay.1)
    · exact absurd (hay.2.trans_le (hz x hxl)) (not_lt.mpr hax.1)
    · exact ih hxl hyl hsorted

/-- What is left of an interval before `b` and from `c` on. -/
def cut (b c : α) (i : HalfOpen α) : List (HalfOpen α) :=
  (if i.lo < b then [⟨i.lo, b⟩] else []) ++ if c < i.hi then [⟨c, i.hi⟩] else []

/-- `[b, c)` is cut out of the interval that it begins in. -/
def cutOut (b c : α) (i : HalfOpen α) : List (HalfOpen α) :=
  if i.lo ≤ b ∧ b < i.hi then cut b c i else [i]

variable {b c : α} {i : HalfOpen α}

theorem mem_cut {j : HalfOpen α} :
    j ∈ cut b c i ↔ i.lo < b ∧ j = ⟨i.lo, b⟩ ∨ c < i.hi ∧ j = ⟨c, i.hi⟩ := by
  unfold cut
  rw [List.mem_append]
  split_ifs <;> simp [*]

theorem ascending_cut (hbc : b ≤ c) : Ascending (cut b c i) where
  lo_lt_hi j hj := by
    rcases mem_cut.mp hj with ⟨hlt, rfl⟩ | ⟨hlt, rfl⟩ <;> exact hlt
  sorted := by
    unfold cut
    split_ifs <;> simp [hbc]

/-- The points that are left. -/
theorem mem_union_cut (hb : i.lo ≤ b) (hbc : b ≤ c) (hc : c ≤ i.hi) {a : α} :
    a ∈ union (cut b c i) ↔ a ∈ i.toSet ∧ a ∉ Set.Ico b c := by
  constructor
  · rintro ⟨j, hj, ha⟩
    rcases mem_cut.mp hj with ⟨-, rfl⟩ | ⟨-, rfl⟩
    · exact ⟨⟨ha.1, ha.2.trans_le (hbc.trans hc)⟩, fun h => not_lt.mpr h.1 ha.2⟩
    · exact ⟨⟨hb.trans (hbc.trans ha.1), ha.2⟩, fun h => not_lt.mpr ha.1 h.2⟩
  · rintro ⟨ha, hnot⟩
    rcases lt_or_ge a b with hab | hba
    · exact ⟨_, mem_cut.mpr (.inl ⟨ha.1.trans_lt hab, rfl⟩), ha.1, hab⟩
    · have hca : c ≤ a := not_lt.mp fun h => hnot ⟨hba, h⟩
      exact ⟨_, mem_cut.mpr (.inr ⟨hca.trans_lt ha.2, rfl⟩), hca, ha.2⟩

/-- **Cutting keeps the order.** -/
theorem Ascending.cutOut {l : List (HalfOpen α)} (h : Ascending l) (hbc : b ≤ c)
    (hc : ∀ i ∈ l, b ∈ i.toSet → c ≤ i.hi) : Ascending (l.flatMap (HalfOpen.cutOut b c)) := by
  refine h.flatMap (fun i hi => ?_) fun i hi j hj => ?_
  · unfold HalfOpen.cutOut
    split_ifs
    · exact ascending_cut hbc
    · exact ⟨by simpa using h.lo_lt_hi i hi, List.pairwise_singleton _ _⟩
  · unfold HalfOpen.cutOut at hj
    split_ifs at hj with hin
    · have hle := hc i hi hin
      rcases mem_cut.mp hj with ⟨-, rfl⟩ | ⟨-, rfl⟩
      · exact ⟨le_rfl, hin.2.le⟩
      · exact ⟨hin.1.trans hbc, le_rfl⟩
    · rw [List.mem_singleton.mp hj]
      exact ⟨le_rfl, le_rfl⟩

/-- One interval of the list, of which `i` holds `[b, c)`: the other ones have no point of it. -/
theorem Ascending.mem_union_cutOut {l : List (HalfOpen α)} (h : Ascending l) (hi : i ∈ l)
    (hb : i.lo ≤ b) (hbc : b < c) (hc : c ≤ i.hi) {j : HalfOpen α} (hj : j ∈ l) {a : α} :
    a ∈ union (HalfOpen.cutOut b c j) ↔ a ∈ j.toSet ∧ a ∉ Set.Ico b c := by
  have hself : Ascending (l.map id) := by rwa [List.map_id]
  unfold HalfOpen.cutOut
  split_ifs with hin
  · have hji : j = i := hself.eq_of_mem hj hi hin ⟨hb, hbc.trans_le hc⟩
    subst hji
    exact mem_union_cut hb hbc.le hc
  · have hsingle : a ∈ union [j] ↔ a ∈ j.toSet := by
      unfold union
      simp
    rw [hsingle]
    refine (and_iff_left_of_imp fun haj ha => hin ?_).symm
    have hji : j = i := hself.eq_of_mem hj hi haj ⟨hb.trans ha.1, ha.2.trans_le hc⟩
    subst hji
    exact ⟨hb, hbc.trans_le hc⟩

/-- **What is cut out of an interval of the list is cut out of its points.** -/
theorem union_cutOut {l : List (HalfOpen α)} (h : Ascending l) (hi : i ∈ l)
    (hb : i.lo ≤ b) (hbc : b < c) (hc : c ≤ i.hi) :
    union (l.flatMap (HalfOpen.cutOut b c)) = union l \ Set.Ico b c := by
  ext a
  rw [mem_union_flatMap]
  constructor
  · rintro ⟨j, hj, ha⟩
    obtain ⟨haj, hnot⟩ := (h.mem_union_cutOut hi hb hbc hc hj).mp ha
    exact ⟨⟨j, hj, haj⟩, hnot⟩
  · rintro ⟨⟨j, hj, haj⟩, hnot⟩
    exact ⟨j, hj, (h.mem_union_cutOut hi hb hbc hc hj).mpr ⟨haj, hnot⟩⟩

end HalfOpen

end Foundation
