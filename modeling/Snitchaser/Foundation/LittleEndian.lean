import Mathlib.Data.BitVec

/-!
# Little-endian words

A 32-bit word as its four bytes, lowest first, and back.
-/

namespace Foundation

/-- The four bytes of a word. -/
def leBytes (w : BitVec 32) : List (BitVec 8) :=
  [w.extractLsb' 0 8, w.extractLsb' 8 8, w.extractLsb' 16 8, w.extractLsb' 24 8]

/-- The word of the first four bytes; bytes that are missing are zero. -/
def leWord (bytes : List (BitVec 8)) : BitVec 32 :=
  bytes.getD 3 0 ++ bytes.getD 2 0 ++ bytes.getD 1 0 ++ bytes.getD 0 0

@[simp] theorem length_leBytes (w : BitVec 32) : (leBytes w).length = 4 := rfl

theorem leBytes_ne_nil (w : BitVec 32) : leBytes w ≠ [] := List.cons_ne_nil _ _

@[simp] theorem leWord_leBytes_append (w : BitVec 32) (rest : List (BitVec 8)) :
    leWord (leBytes w ++ rest) = w := by
  apply BitVec.eq_of_getLsbD_eq
  intro i hi
  simp only [leWord, leBytes, List.cons_append, List.getD_cons_succ, List.getD_cons_zero,
    BitVec.getLsbD_append, BitVec.getLsbD_extractLsb']
  grind

@[simp] theorem leWord_leBytes (w : BitVec 32) : leWord (leBytes w) = w := by
  simpa using leWord_leBytes_append w []

/-- The bytes a word is put together from. -/
theorem leBytes_append (b₃ b₂ b₁ b₀ : BitVec 8) : leBytes (b₃ ++ b₂ ++ b₁ ++ b₀) = [b₀, b₁, b₂, b₃] := by
  have hbits : ∀ (k : ℕ) (b : BitVec 8), (∀ i < 8, (b₃ ++ b₂ ++ b₁ ++ b₀).getLsbD (k + i) = b.getLsbD i) →
      (b₃ ++ b₂ ++ b₁ ++ b₀).extractLsb' k 8 = b := by
    intro k b h
    apply BitVec.eq_of_getLsbD_eq
    intro i hi
    rw [BitVec.getLsbD_extractLsb', h i hi, decide_eq_true hi, Bool.true_and]
  unfold leBytes
  rw [hbits 0 b₀, hbits 8 b₁, hbits 16 b₂, hbits 24 b₃]
  all_goals
    intro i hi
    simp only [BitVec.getLsbD_append]
    grind

theorem leBytes_leWord {bytes : List (BitVec 8)} (h : bytes.length = 4) : leBytes (leWord bytes) = bytes := by
  obtain ⟨b₀, b₁, b₂, b₃, rfl⟩ := List.length_eq_four.mp h
  exact leBytes_append b₃ b₂ b₁ b₀

/-- The bytes of several words. -/
def leBytesList (ws : List (BitVec 32)) : List (BitVec 8) := ws.flatMap leBytes

@[simp] theorem length_leBytesList (ws : List (BitVec 32)) :
    (leBytesList ws).length = 4 * ws.length := by
  induction ws with
  | nil => rfl
  | cons w ws ih =>
    simp only [leBytesList, List.flatMap_cons, List.length_append, length_leBytes] at ih ⊢
    rw [ih, List.length_cons]
    omega

@[simp] theorem leBytesList_cons (w : BitVec 32) (ws : List (BitVec 32)) :
    leBytesList (w :: ws) = leBytes w ++ leBytesList ws := rfl

theorem leBytesList_append (ws vs : List (BitVec 32)) :
    leBytesList (ws ++ vs) = leBytesList ws ++ leBytesList vs :=
  List.flatMap_append

theorem leBytesList_singleton (w : BitVec 32) : leBytesList [w] = leBytes w :=
  List.append_nil _

/-- The first `n` words of some bytes. -/
def leWords : ℕ → List (BitVec 8) → List (BitVec 32)
  | 0, _ => []
  | n + 1, bytes => leWord bytes :: leWords n (bytes.drop 4)

theorem leWords_leBytesList (ws : List (BitVec 32)) : leWords ws.length (leBytesList ws) = ws := by
  induction ws with
  | nil => rfl
  | cons w ws ih =>
    rw [List.length_cons, leWords, leBytesList_cons, leWord_leBytes_append,
      List.drop_left' (length_leBytes w), ih]

end Foundation
