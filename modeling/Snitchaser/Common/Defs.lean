import Snitchaser.Foundation.Fallible
import Mathlib.Data.BitVec

/-!
# Words, bytes and faults

The vocabulary every part of the model shares. The recorder runs on x86 in 32-bit
mode: `int`, `uint32_t`, `uintptr_t` and pointers are all `Word`s, told apart by
how they are compared (`BitVec.toInt` for the signed types, `BitVec.toNat` for the
others). Arithmetic wraps.

The source ends a run that cannot go on with `assert(..)` or `FATAL(..)`. Both are
a `Fault` here, and a function that can reach one returns an `Except Fault`.
-/

namespace Snitchaser

export Foundation (bind_eq_ok bind_eq_error exists_ok)

/-- A machine word: `int`, `uint32_t`, `uintptr_t` or a pointer. -/
abbrev Word := BitVec 32

/-- A byte of memory or of a file. -/
abbrev Byte := BitVec 8

/-- A character as a byte. -/
def chr (c : Char) : Byte := BitVec.ofNat 8 c.toNat

/-- A text as bytes. -/
def str (s : String) : List Byte := s.toList.map chr

instance lawfulBEqWord : LawfulBEq Word := inferInstance

instance lawfulBEqByte : LawfulBEq Byte := inferInstance

/-- The ways a modelled function ends without a result. -/
inductive Fault where
  /-- `assert(cond)` failed. -/
  | assertion (cond : String)
  /-- `FATAL(..)` with this format text. -/
  | fatal (text : String)
  /-- An `int` size wrapped, so the space allocated is not the space used: what
  the program does from there on is not modelled. -/
  | sizeWrapped
  /-- A loop of the source goes on for ever. -/
  | diverges
  /-- A pointer is followed to where nothing is. -/
  | segfault
  /-- A write beyond the end of a buffer. -/
  | overrun
  deriving DecidableEq, Repr

/-- `assert(cond)`. -/
def assert (cond : Prop) [Decidable cond] (text : String) : Except Fault Unit :=
  if cond then .ok () else .error (.assertion text)

@[simp] theorem assert_of_true {cond : Prop} [Decidable cond] (h : cond) (text : String) :
    assert cond text = .ok () := if_pos h

@[simp] theorem assert_of_false {cond : Prop} [Decidable cond] (h : ¬ cond) (text : String) :
    assert cond text = .error (.assertion text) := if_neg h

/-- An assertion that was passed holds. -/
theorem of_assert {cond : Prop} [Decidable cond] {text : String} {u : Unit}
    (h : assert cond text = .ok u) : cond := by
  by_contra hcond
  rw [assert_of_false hcond] at h
  cases h

/-- An assertion that fails says which it is. -/
theorem eq_assertion_of_assert {cond : Prop} [Decidable cond] {text : String} {e : Fault}
    (h : assert cond text = .error e) : e = .assertion text := by
  unfold assert at h
  split_ifs at h
  exact (Except.error.inj h).symm

/-- Addresses one after the other. -/
theorem add_one_add_ofNat (a : Word) (n : ℕ) :
    a + 1 + BitVec.ofNat 32 n = a + BitVec.ofNat 32 (n + 1) := by
  rw [BitVec.ofNat_add, BitVec.add_assoc, BitVec.add_comm 1]
  rfl

/-- Addresses further on. -/
theorem add_ofNat_add_ofNat (a : Word) (m n : ℕ) :
    a + BitVec.ofNat 32 m + BitVec.ofNat 32 n = a + BitVec.ofNat 32 (m + n) := by
  rw [BitVec.ofNat_add, BitVec.add_assoc]

/-- Different distances from an address lead to different addresses. -/
theorem add_ofNat_inj {a : Word} {m n : ℕ} (hm : m < 2 ^ 32) (hn : n < 2 ^ 32) :
    a + BitVec.ofNat 32 m = a + BitVec.ofNat 32 n ↔ m = n := by
  rw [BitVec.add_right_inj, ← BitVec.toNat_inj, BitVec.toNat_ofNat, BitVec.toNat_ofNat,
    Nat.mod_eq_of_lt hm, Nat.mod_eq_of_lt hn]

/-- A number that fits into a word. -/
theorem toNat_ofNat_of_lt {n : ℕ} (h : n < 2 ^ 32) : (BitVec.ofNat 32 n).toNat = n := by
  rw [BitVec.toNat_ofNat, Nat.mod_eq_of_lt h]

/-- Addresses as numbers, where the sum does not wrap. -/
theorem toNat_add_ofNat {a : Word} {n : ℕ} (h : a.toNat + n < 2 ^ 32) :
    (a + BitVec.ofNat 32 n).toNat = a.toNat + n := by
  rw [BitVec.toNat_add, BitVec.toNat_ofNat]
  omega

/-! ### Alignment -/

/-- `ALIGN_DOWN(v, a)`. -/
def alignDown (v a : Word) : Word := v &&& ~~~ (a - 1)

/-- `ALIGN_UP(v, a)`. -/
def alignUp (v a : Word) : Word := alignDown (v + a - 1) a

theorem getLsbD_twoPow_sub_one {k : ℕ} (hk : k < 32) (i : ℕ) :
    (BitVec.twoPow 32 k - 1).getLsbD i = decide (i < k) := by
  have hpow : 2 ^ k < 2 ^ 32 := Nat.pow_lt_pow_right (by decide) hk
  have hpos : 0 < 2 ^ k := Nat.two_pow_pos k
  have hval : (BitVec.twoPow 32 k - 1).toNat = 2 ^ k - 1 := by
    rw [BitVec.toNat_sub, BitVec.toNat_twoPow, Nat.mod_eq_of_lt hpow]
    have hone : (1 : BitVec 32).toNat = 1 := rfl
    omega
  rw [BitVec.getLsbD, hval, Nat.testBit_two_pow_sub_one]

/-- Aligned down to a power of two. -/
theorem toNat_alignDown (v : Word) {k : ℕ} (hk : k < 32) :
    (alignDown v (BitVec.twoPow 32 k)).toNat = v.toNat / 2 ^ k * 2 ^ k := by
  have hshift : alignDown v (BitVec.twoPow 32 k) = v >>> k <<< k := by
    apply BitVec.eq_of_getLsbD_eq
    intro i hi
    rw [alignDown, BitVec.getLsbD_and, BitVec.getLsbD_not, getLsbD_twoPow_sub_one hk i,
      BitVec.getLsbD_shiftLeft, BitVec.getLsbD_ushiftRight]
    by_cases h : i < k
    · simp [h]
    · rw [show k + (i - k) = i by omega]
      simp [h, hi]
  rw [hshift, BitVec.toNat_shiftLeft, BitVec.toNat_ushiftRight, Nat.shiftLeft_eq,
    Nat.shiftRight_eq_div_pow, Nat.mod_eq_of_lt]
  exact Nat.lt_of_le_of_lt (Nat.div_mul_le_self _ _) v.isLt

end Snitchaser
