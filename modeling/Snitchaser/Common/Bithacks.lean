import Snitchaser.Common.Defs
import Mathlib.Data.Nat.Bitwise
import Mathlib.Data.Nat.Size

/-!
# Bit tricks

`common/bithacks.h`. `pow2roundup` smears the highest set bit of `x - 1` over all lower
bits and adds one; `pow2roundup_toNat` says what that computes for every positive `int`: the
least power of two that is at least `x`.

`last_0_pos` counts the bits in which `x` and `x + 1` differ: those up to the lowest clear
bit of `x`. `last0Pos_eq` and `getLsbD_setLast0` say that this bit is found, and set;
`free_bit_exact` puts the four functions together.
-/

namespace Snitchaser.Bithacks

/-- `x |= x >> 1; x |= x >> 2; x |= x >> 4; x |= x >> 8; x |= x >> 16;` on an `int`. -/
def smear (x : Word) : Word :=
  let x := x ||| x.sshiftRight 1
  let x := x ||| x.sshiftRight 2
  let x := x ||| x.sshiftRight 4
  let x := x ||| x.sshiftRight 8
  x ||| x.sshiftRight 16

/-- `pow2roundup(int x)`. -/
def pow2roundup (x : Word) : Word :=
  if x.toInt ≤ 0 then 0 else smear (x - 1) + 1

/-! ### The smear -/

/-- Bit `i` of `m` tells whether `n` has a bit set among the `w` bits from `i` on. -/
def Window (n m w : ℕ) : Prop := ∀ i, m.testBit i = true ↔ ∃ j < w, n.testBit (i + j) = true

/-- One `m |= m >> w` doubles the window. -/
theorem Window.double {n m w : ℕ} (h : Window n m w) : Window n (m ||| m >>> w) (2 * w) := by
  intro i
  rw [Nat.testBit_or, Nat.testBit_shiftRight, Bool.or_eq_true, h, h]
  constructor
  · rintro (⟨j, hj, hb⟩ | ⟨j, hj, hb⟩)
    · exact ⟨j, by omega, hb⟩
    · exact ⟨w + j, by omega, by rwa [show i + (w + j) = w + i + j by omega]⟩
  · rintro ⟨j, hj, hb⟩
    by_cases hjw : j < w
    · exact .inl ⟨j, hjw, hb⟩
    · exact .inr ⟨j - w, by omega, by rwa [show w + i + (j - w) = i + j by omega]⟩

theorem window_one (n : ℕ) : Window n n 1 := by
  intro i
  exact ⟨fun h => ⟨0, Nat.one_pos, h⟩, fun ⟨j, hj, hb⟩ => by
    rwa [show i + j = i by omega] at hb⟩

/-- A window as wide as the number spreads its highest bit over all lower ones. -/
theorem Window.eq_two_pow_size {n m w : ℕ} (h : Window n m w) (hn : n < 2 ^ w) :
    m = 2 ^ n.size - 1 := by
  refine Nat.eq_of_testBit_eq fun i => ?_
  rw [Nat.testBit_two_pow_sub_one, Bool.eq_iff_iff, h, decide_eq_true_iff, Nat.lt_size]
  constructor
  · rintro ⟨j, _, hb⟩
    exact (Nat.pow_le_pow_right Nat.two_pos (Nat.le_add_right i j)).trans (Nat.ge_two_pow_of_testBit hb)
  · intro hi
    obtain ⟨k, hk, hb⟩ := Nat.exists_ge_and_testBit_of_ge_two_pow hi
    have hkw : k < w := by
      by_contra hge
      have := Nat.ge_two_pow_of_testBit hb
      have := Nat.pow_le_pow_right Nat.two_pos (Nat.le_of_not_lt hge)
      omega
    exact ⟨k - i, by omega, by rwa [Nat.add_sub_cancel' hk]⟩

/-- On a non-negative `int` the arithmetic shift is the logical one. -/
theorem toNat_or_sshiftRight {x : Word} (hx : x.toNat < 2 ^ 31) (s : ℕ) :
    (x ||| x.sshiftRight s).toNat = x.toNat ||| x.toNat >>> s := by
  have hmsb : x.msb = false := by rw [BitVec.msb_eq_false_iff_two_mul_lt]; omega
  rw [BitVec.toNat_or, BitVec.sshiftRight_eq_of_msb_false hmsb, BitVec.toNat_ushiftRight]

theorem or_shiftRight_lt {n : ℕ} (hn : n < 2 ^ 31) (s : ℕ) : n ||| n >>> s < 2 ^ 31 :=
  Nat.or_lt_two_pow hn ((Nat.shiftRight_le n s).trans_lt hn)

theorem smear_toNat {x : Word} (hx : x.toNat < 2 ^ 31) :
    (smear x).toNat = 2 ^ x.toNat.size - 1 := by
  -- each step doubles the window and stays a non-negative `int`
  have step : ∀ (y : Word) (w : ℕ), y.toNat < 2 ^ 31 ∧ Window x.toNat y.toNat w →
      (y ||| y.sshiftRight w).toNat < 2 ^ 31 ∧
        Window x.toNat (y ||| y.sshiftRight w).toNat (2 * w) := by
    rintro y w ⟨hy, hw⟩
    rw [toNat_or_sshiftRight hy]
    exact ⟨or_shiftRight_lt hy w, hw.double⟩
  have h32 := step _ 16 (step _ 8 (step _ 4 (step _ 2 (step x 1 ⟨hx, window_one _⟩))))
  exact h32.2.eq_two_pow_size (by omega)

/-- **`pow2roundup` of a positive `int`** is the least power of two not below it. -/
theorem pow2roundup_toNat {x : Word} (hx : 0 < x.toInt) :
    (pow2roundup x).toNat = 2 ^ (x.toNat - 1).size := by
  have hlt : x.toNat < 2 ^ 31 ∧ 0 < x.toNat := by
    rw [BitVec.toInt_eq_toNat_cond] at hx
    split at hx <;> omega
  have hsub : (x - 1).toNat = x.toNat - 1 := by
    rw [BitVec.toNat_sub_of_le (by simp [BitVec.le_def]; omega)]
    rfl
  have hsize : (x.toNat - 1).size ≤ 31 := Nat.size_le.mpr (by omega)
  have hpow := Nat.pow_le_pow_right Nat.two_pos hsize
  unfold pow2roundup
  rw [if_neg (by omega), BitVec.toNat_add, smear_toNat (by omega), hsub]
  have := Nat.two_pow_pos (x.toNat - 1).size
  change (2 ^ (x.toNat - 1).size - 1 + 1) % 2 ^ 32 = _
  omega

/-! ### The lowest clear bit -/

/-- `count_1s(c1)`. -/
def count1s (c1 : Word) : Word :=
  let c2 := (c1 >>> 1) &&& 0o33333333333
  let c2 := c1 - c2 - ((c2 >>> 1) &&& 0o33333333333)
  ((c2 + (c2 >>> 3)) &&& 0o30707070707) % 0o77

/-- `last_0_pos(x)`. -/
def last0Pos (x : Word) : Word := count1s ((x + 1) ^^^ x) - 1

/-- `set_last_0(x)`. -/
def setLast0 (x : Word) : Word := x ||| (x + 1)

/-- `unset_bit_n(x, n)`. -/
def unsetBitN (x : Word) (n : ℕ) : Word := x &&& ~~~((1 : Word) <<< n)

/-- The count is right for a run of ones from the lowest bit on. -/
theorem count1s_ones : ∀ k < 32, count1s (BitVec.ofNat 32 (2 ^ (k + 1) - 1)) - 1 = BitVec.ofNat 32 k := by
  decide

/-- **Bit `k` is the lowest clear one.** -/
def LowestClear (x : Word) (k : ℕ) : Prop := k < 32 ∧ x.getLsbD k = false ∧ ∀ j < k, x.getLsbD j = true

/-- A word that is not all ones has a lowest clear bit. -/
theorem exists_lowestClear {x : Word} (h : x ≠ 0xffffffff) : ∃ k, LowestClear x k := by
  have hclear : ∃ k, k < 32 ∧ x.getLsbD k = false := by
    by_contra hall
    push Not at hall
    refine h (BitVec.eq_of_getLsbD_eq fun i hi => ?_)
    rw [Bool.eq_true_of_not_eq_false (hall i hi), show (0xffffffff : Word) = BitVec.allOnes 32 from rfl,
      BitVec.getLsbD_allOnes, decide_eq_true hi]
  refine ⟨Nat.find hclear, (Nat.find_spec hclear).1, (Nat.find_spec hclear).2, fun j hj => ?_⟩
  have hmin := Nat.find_min hclear hj
  rw [not_and] at hmin
  exact Bool.eq_true_of_not_eq_false (hmin (hj.trans (Nat.find_spec hclear).1))

/-- Below the lowest clear bit all are set: that is what is left of the word there. -/
theorem LowestClear.mod_eq {x : Word} {k : ℕ} (h : LowestClear x k) :
    x.toNat % 2 ^ (k + 1) = 2 ^ k - 1 := by
  refine Nat.eq_of_testBit_eq fun j => ?_
  rw [Nat.testBit_mod_two_pow, Nat.testBit_two_pow_sub_one, Bool.eq_iff_iff, Bool.and_eq_true,
    decide_eq_true_iff, decide_eq_true_iff]
  constructor
  · rintro ⟨hj, hb⟩
    by_contra hk
    obtain rfl : j = k := by omega
    have := h.2.1
    rw [BitVec.getLsbD, hb] at this
    cases this
  · intro hj
    exact ⟨by omega, h.2.2 j hj⟩

/-- The bits of the word and of its successor, up to the lowest clear one and above. -/
theorem LowestClear.testBit {x : Word} {k : ℕ} (h : LowestClear x k) (j : ℕ) :
    x.toNat.testBit j = (if j < k + 1 then decide (j < k) else (x.toNat / 2 ^ (k + 1)).testBit (j - (k + 1))) ∧
      (x.toNat + 1).testBit j =
        (if j < k + 1 then decide (j = k) else (x.toNat / 2 ^ (k + 1)).testBit (j - (k + 1))) := by
  have hlt : 2 ^ k < 2 ^ (k + 1) := Nat.pow_lt_pow_right (by decide) (Nat.lt_succ_self k)
  have hpos := Nat.two_pow_pos k
  have hx : x.toNat = 2 ^ (k + 1) * (x.toNat / 2 ^ (k + 1)) + (2 ^ k - 1) := by
    rw [← h.mod_eq, Nat.div_add_mod]
  have hx' : x.toNat + 1 = 2 ^ (k + 1) * (x.toNat / 2 ^ (k + 1)) + 2 ^ k := by omega
  constructor
  · conv_lhs => rw [hx]
    rw [Nat.testBit_two_pow_mul_add _ (by omega), Nat.testBit_two_pow_sub_one]
  · rw [hx', Nat.testBit_two_pow_mul_add _ hlt, Nat.testBit_two_pow]
    simp only [eq_comm]

/-- Adding one does not wrap. -/
theorem LowestClear.toNat_succ {x : Word} {k : ℕ} (h : LowestClear x k) :
    (x + 1).toNat = x.toNat + 1 := by
  have hne : x.toNat ≠ 2 ^ 32 - 1 := by
    intro hx
    have hk := h.2.1
    rw [BitVec.getLsbD, hx, Nat.testBit_two_pow_sub_one, decide_eq_true h.1] at hk
    cases hk
  have hlt := x.isLt
  rw [BitVec.toNat_add, show (1 : Word).toNat = 1 from rfl, Nat.mod_eq_of_lt (by omega)]

/-- **`last_0_pos` finds the lowest clear bit.** -/
theorem last0Pos_eq {x : Word} {k : ℕ} (h : LowestClear x k) : (last0Pos x).toNat = k := by
  have hxor : (x + 1) ^^^ x = BitVec.ofNat 32 (2 ^ (k + 1) - 1) := by
    have hpow : 2 ^ (k + 1) - 1 < 2 ^ 32 := by
      have := Nat.pow_le_pow_right Nat.two_pos (show k + 1 ≤ 32 from h.1)
      have := Nat.two_pow_pos (k + 1)
      omega
    refine BitVec.eq_of_toNat_eq (Nat.eq_of_testBit_eq fun j => ?_)
    rw [BitVec.toNat_xor, h.toNat_succ, BitVec.toNat_ofNat, Nat.mod_eq_of_lt hpow,
      Nat.testBit_xor, (h.testBit j).1, (h.testBit j).2, Nat.testBit_two_pow_sub_one]
    split_ifs with hj
    · rw [decide_eq_true hj]
      by_cases hjk : j = k
      · subst hjk
        simp
      · have : j < k := by omega
        simp [hjk, this]
    · simp [hj]
  unfold last0Pos
  rw [hxor, count1s_ones k h.1, BitVec.toNat_ofNat, Nat.mod_eq_of_lt (h.1.trans (by decide))]

/-- **`set_last_0` sets it**, and nothing else. -/
theorem getLsbD_setLast0 {x : Word} {k : ℕ} (h : LowestClear x k) (j : ℕ) :
    (setLast0 x).getLsbD j = (x.getLsbD j || decide (j = k)) := by
  unfold setLast0 BitVec.getLsbD
  rw [BitVec.toNat_or, h.toNat_succ, Nat.testBit_or, (h.testBit j).1, (h.testBit j).2]
  split_ifs with hj
  · rfl
  · rw [Bool.or_self, decide_eq_false (by omega : j ≠ k), Bool.or_false]

theorem getLsbD_unsetBitN (x : Word) (n j : ℕ) :
    (unsetBitN x n).getLsbD j = (x.getLsbD j && decide (j ≠ n)) := by
  unfold unsetBitN
  by_cases hj : j < 32
  · simp only [BitVec.getLsbD_and, BitVec.getLsbD_not, BitVec.getLsbD_shiftLeft]
    grind
  · rw [BitVec.getLsbD_of_ge _ _ (not_lt.mp hj), BitVec.getLsbD_of_ge _ _ (not_lt.mp hj), Bool.false_and]

/-- `set_last_0` changes the lowest clear bit, and no other. -/
theorem LowestClear.setLast0_ne_iff {x : Word} {k : ℕ} (h : LowestClear x k) (j : ℕ) :
    (setLast0 x).getLsbD j ≠ x.getLsbD j ↔ j = k := by
  rw [getLsbD_setLast0 h]
  constructor
  · intro hne
    by_contra hj
    rw [decide_eq_false hj, Bool.or_false] at hne
    exact hne rfl
  · rintro rfl
    rw [h.2.1, decide_eq_true rfl]
    decide

/-- `unset_bit_n` takes it back. -/
theorem LowestClear.unsetBitN_setLast0 {x : Word} {k : ℕ} (h : LowestClear x k) :
    unsetBitN (setLast0 x) k = x := by
  apply BitVec.eq_of_getLsbD_eq
  intro j _
  rw [getLsbD_unsetBitN, getLsbD_setLast0 h]
  by_cases hj : j = k
  · subst hj
    rw [h.2.1, decide_eq_false (not_not.mpr rfl), Bool.and_false]
  · rw [decide_eq_false hj, Bool.or_false, decide_eq_true hj, Bool.and_true]

/-- **Free bits are found, set and given back exactly**: in a word that is not full,
`last_0_pos` is the lowest clear bit, `set_last_0` changes that bit only, and `unset_bit_n`
undoes it; in every word `unset_bit_n` clears its bit and leaves the others. -/
theorem free_bit_exact :
    (∀ x : Word, x ≠ 0xffffffff →
      LowestClear x (last0Pos x).toNat ∧
      (∀ j, (setLast0 x).getLsbD j ≠ x.getLsbD j ↔ j = (last0Pos x).toNat) ∧
      unsetBitN (setLast0 x) (last0Pos x).toNat = x) ∧
    ∀ (x : Word) (n : ℕ), n < 32 →
      (unsetBitN x n).getLsbD n = false ∧ ∀ j ≠ n, (unsetBitN x n).getLsbD j = x.getLsbD j := by
  refine ⟨fun x hx => ?_, fun x n _ => ⟨?_, fun j hj => ?_⟩⟩
  · obtain ⟨k, hk⟩ := exists_lowestClear hx
    rw [last0Pos_eq hk]
    exact ⟨hk, hk.setLast0_ne_iff, hk.unsetBitN_setLast0⟩
  · rw [getLsbD_unsetBitN, decide_eq_false (not_not.mpr rfl), Bool.and_false]
  · rw [getLsbD_unsetBitN, decide_eq_true hj, Bool.and_true]

theorem free_bit_exact_0xb7 :
    LowestClear 0xb7 3 ∧ setLast0 0xb7 = 0xbf ∧ unsetBitN 0xbf 3 = 0xb7 ∧
      (unsetBitN 0xffffffff 31).getLsbD 31 = false := by
  have hpos : (last0Pos 0xb7).toNat = 3 := by decide
  have hset : setLast0 0xb7 = 0xbf := by decide
  obtain ⟨hlow, -, hback⟩ := free_bit_exact.1 0xb7 (by decide)
  rw [hpos] at hlow hback
  rw [hset] at hback
  exact ⟨hlow, hset, hback, (free_bit_exact.2 0xffffffff 31 (by decide)).1⟩

end Snitchaser.Bithacks
