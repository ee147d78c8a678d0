import Mathlib.Algebra.Ring.GeomSum
import Mathlib.Algebra.Ring.Parity
import Mathlib.Data.Int.ModEq
import Mathlib.RingTheory.Coprime.Lemmas
import Mathlib.Data.Fintype.EquivFin
import Mathlib.Tactic.Ring
import Mathlib.Tactic.Zify
import Mathlib.Tactic.Positivity
import Mathlib.Tactic.LinearCombination

/-!
# Linear congruential sequences modulo a power of two

The sequence `x, a x + c, a (a x + c) + c, …` modulo `2 ^ k`. When `a ≡ 1 (mod 4)`
and `c` is odd, the first `2 ^ k` members are all the residues, each once,
whatever the start `x`. A hash table that probes along such a sequence therefore
looks at every slot before it comes back to one.

## What is proved

* `affine_iterate_sub` — the distance covered in `n` steps is a geometric sum
  times an odd number.
* `two_pow_dvd_geom_iff` — that geometric sum is divisible by `2 ^ k` exactly
  when `n` is: the only place the condition on `a` is used.
* `iterate_modEq_iff` — so two positions of the sequence agree modulo `2 ^ k`
  exactly when their indices do.
* `exists_iterate_emod_eq` — **every residue occurs** among the first `2 ^ k`.
-/

namespace Foundation.Congruential

open Finset

/-- One step of the sequence, before reduction. -/
def affine (a c x : ℤ) : ℤ := a * x + c

/-- The sum `1 + a + ⋯ + a ^ (n - 1)`. -/
def geom (a : ℤ) (n : ℕ) : ℤ := ∑ i ∈ range n, a ^ i

theorem geom_succ (a : ℤ) (n : ℕ) : geom a (n + 1) = a * geom a n + 1 := by
  unfold geom
  rw [geom_sum_succ]

/-- Doubling the number of terms multiplies the sum by `1 + a ^ n`. -/
theorem geom_two_mul (a : ℤ) (n : ℕ) : geom a (2 * n) = geom a n * (1 + a ^ n) := by
  unfold geom
  rw [two_mul, sum_range_add, mul_add, mul_one, sum_mul]
  congr 1
  exact sum_congr rfl fun i _ => by rw [pow_add, mul_comm]

/-- The distance covered in `n` steps from `x`. -/
theorem affine_iterate_sub (a c x : ℤ) (n : ℕ) :
    (affine a c)^[n] x - x = geom a n * ((a - 1) * x + c) := by
  induction n with
  | zero => simp [geom]
  | succ n ih =>
    rw [Function.iterate_succ_apply', geom_succ]
    unfold affine at ih ⊢
    linear_combination a * ih

/-- An odd factor plays no part in divisibility by a power of two. -/
theorem two_pow_dvd_mul_odd_iff (k : ℕ) (x : ℤ) {y : ℤ} (hy : y % 2 = 1) :
    (2 : ℤ) ^ k ∣ x * y ↔ 2 ^ k ∣ x := by
  have hcop : IsCoprime ((2 : ℤ) ^ k) y := IsCoprime.pow_left ⟨-(y / 2), 1, by omega⟩
  exact ⟨hcop.dvd_of_dvd_mul_right, fun h => h.mul_right y⟩

variable {a c : ℤ}

theorem pow_emod_four (ha : a % 4 = 1) (n : ℕ) : a ^ n % 4 = 1 := by
  induction n with
  | zero => simp
  | succ n ih => rw [pow_succ, Int.mul_emod, ih, ha]; rfl

/-- A sum of an odd number of terms is odd. -/
theorem geom_emod_two (ha : a % 4 = 1) (n : ℕ) : geom a n % 2 = n % 2 := by
  induction n with
  | zero => rfl
  | succ n ih =>
    have h : a % 2 = 1 := by omega
    rw [geom_succ, Int.add_emod, Int.mul_emod, h, ih]
    push_cast
    omega

/-- **The geometric sum loses no factor of two**: it is divisible by `2 ^ k`
exactly when its number of terms is. -/
theorem two_pow_dvd_geom_iff (ha : a % 4 = 1) (k n : ℕ) :
    (2 : ℤ) ^ k ∣ geom a n ↔ 2 ^ k ∣ n := by
  induction k generalizing n with
  | zero => simp
  | succ k ih =>
    obtain ⟨m, rfl | rfl⟩ := Nat.even_or_odd' n
    · -- an even number of terms: one factor of two comes from `1 + a ^ m`
      obtain ⟨q, hq⟩ : ∃ q, 1 + a ^ m = 2 * (2 * q + 1) := by
        have := pow_emod_four ha m
        exact ⟨a ^ m / 4, by omega⟩
      rw [geom_two_mul, hq, pow_succ', mul_left_comm, mul_dvd_mul_iff_left two_ne_zero,
        two_pow_dvd_mul_odd_iff k _ (by omega), ih, pow_succ', Nat.mul_dvd_mul_iff_left two_pos]
    · -- an odd number of terms: neither side is even
      have hg := geom_emod_two ha (2 * m + 1)
      constructor
      · intro h
        have : (2 : ℤ) ∣ geom a (2 * m + 1) := (dvd_pow_self 2 k.succ_ne_zero).trans h
        omega
      · intro h
        have : 2 ∣ 2 * m + 1 := (dvd_pow_self 2 k.succ_ne_zero).trans h
        omega

/-- The sequence returns to its start exactly after multiples of `2 ^ k` steps. -/
theorem iterate_modEq_self_iff (ha : a % 4 = 1) (hc : c % 2 = 1) (k n : ℕ) (x : ℤ) :
    (affine a c)^[n] x ≡ x [ZMOD 2 ^ k] ↔ 2 ^ k ∣ n := by
  have hodd : ((a - 1) * x + c) % 2 = 1 := by
    obtain ⟨q, hq⟩ : ∃ q, a - 1 = 2 * q := ⟨(a - 1) / 2, by omega⟩
    rw [hq, mul_assoc]
    omega
  rw [Int.modEq_comm, Int.modEq_iff_dvd, affine_iterate_sub, two_pow_dvd_mul_odd_iff k _ hodd,
    two_pow_dvd_geom_iff ha]

/-- Two members of the sequence agree exactly when their indices do. -/
theorem iterate_modEq_iff (ha : a % 4 = 1) (hc : c % 2 = 1) {k m n : ℕ} (h : m ≤ n) (x : ℤ) :
    (affine a c)^[n] x ≡ (affine a c)^[m] x [ZMOD 2 ^ k] ↔ 2 ^ k ∣ n - m := by
  rw [← iterate_modEq_self_iff ha hc k (n - m) ((affine a c)^[m] x),
    ← Function.iterate_add_apply, Nat.sub_add_cancel h]

/-- **Every residue occurs** among the first `2 ^ k` members of the sequence. -/
theorem exists_iterate_emod_eq (ha : a % 4 = 1) (hc : c % 2 = 1) (k : ℕ) (x : ℤ)
    {r : ℕ} (hr : r < 2 ^ k) : ∃ n < 2 ^ k, (affine a c)^[n] x % 2 ^ k = r := by
  have hpos : (0 : ℤ) < 2 ^ k := by positivity
  let pos : Fin (2 ^ k) → Fin (2 ^ k) := fun n =>
    ⟨((affine a c)^[n] x % 2 ^ k).toNat, by
      have h₁ := Int.emod_nonneg ((affine a c)^[n] x) hpos.ne'
      have h₂ := Int.emod_lt_of_pos ((affine a c)^[n] x) hpos
      zify
      rw [Int.toNat_of_nonneg h₁]
      exact_mod_cast h₂⟩
  have hpos_val : ∀ n, ((pos n : ℕ) : ℤ) = (affine a c)^[n] x % 2 ^ k := fun n =>
    Int.toNat_of_nonneg (Int.emod_nonneg _ hpos.ne')
  -- distinct indices below `2 ^ k` give distinct residues, so all residues are taken
  have hinj : Function.Injective pos := by
    have key : ∀ m n : Fin (2 ^ k), m.val ≤ n.val → pos m = pos n → m = n := by
      intro m n hmn h
      have hmod : (affine a c)^[n] x ≡ (affine a c)^[m] x [ZMOD 2 ^ k] := by
        unfold Int.ModEq
        rw [← hpos_val, ← hpos_val, h]
      have hdvd := (iterate_modEq_iff ha hc hmn x).mp hmod
      have := Nat.eq_zero_of_dvd_of_lt hdvd (by omega)
      exact Fin.ext (by omega)
    intro m n h
    rcases le_total m.val n.val with hmn | hmn
    · exact key m n hmn h
    · exact (key n m hmn h.symm).symm
  obtain ⟨n, hn⟩ := (Finite.injective_iff_surjective.mp hinj) ⟨r, hr⟩
  exact ⟨n, n.isLt, by rw [← hpos_val, hn]⟩

end Foundation.Congruential
