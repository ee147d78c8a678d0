import Mathlib.Data.List.Basic

/-!
# Copies of what was written before

An output that grows at its end, and repeats of it: `copyBack off n` adds `n` elements,
each the one that lies `off` before it. Where `n` is more than `off` the copy reads what
it has itself written.
-/

namespace Foundation

variable {α : Type*} {out data : List α} {off : ℕ}

/-- `n` more elements, each the one that lies `off` before it. -/
def copyBack (off : ℕ) : ℕ → List α → List α
  | 0, out => out
  | n + 1, out => copyBack off n (out ++ out[out.length - off]?.toList)

@[simp] theorem copyBack_zero (off : ℕ) (out : List α) : copyBack off 0 out = out := rfl

theorem copyBack_succ (off n : ℕ) (out : List α) :
    copyBack off (n + 1) out = copyBack off n (out ++ out[out.length - off]?.toList) := rfl

/-- A copy in two parts. -/
theorem copyBack_add (off m n : ℕ) (out : List α) :
    copyBack off (m + n) out = copyBack off n (copyBack off m out) := by
  induction m generalizing out with
  | zero => rw [Nat.zero_add, copyBack_zero]
  | succ m ih => rw [Nat.add_right_comm, copyBack_succ, ih, copyBack_succ]

/-- What lies `off` back, where there is as much. -/
theorem toList_getElem?_back (hpos : 1 ≤ off) (hle : off ≤ out.length) :
    ∃ a, out[out.length - off]? = some a ∧ out[out.length - off]?.toList = [a] := by
  have hlt : out.length - off < out.length := by omega
  refine ⟨out[out.length - off], List.getElem?_eq_getElem hlt, ?_⟩
  rw [List.getElem?_eq_getElem hlt, Option.toList_some]

theorem length_copyBack (n : ℕ) (hpos : 1 ≤ off) (hle : off ≤ out.length) :
    (copyBack off n out).length = out.length + n := by
  induction n generalizing out with
  | zero => rfl
  | succ n ih =>
    obtain ⟨a, -, ha⟩ := toList_getElem?_back hpos hle
    rw [copyBack_succ, ha, ih (by rw [List.length_append]; omega), List.length_append,
      List.length_singleton]
    omega

/-- **Repeats.** Where the data from `i` on are for `n` elements those from `i - off` on,
the copy leads from the data before `i` to the data before `i + n`. -/
theorem copyBack_take {i n : ℕ} (hpos : 1 ≤ off) (hle : off ≤ i) (hn : i + n ≤ data.length)
    (hsame : ∀ k < n, data[i - off + k]? = data[i + k]?) :
    copyBack off n (data.take i) = data.take (i + n) := by
  induction n generalizing i with
  | zero => rfl
  | succ n ih =>
    have hlen : (data.take i).length = i := List.length_take_of_le (by omega)
    have hback : (data.take i)[(data.take i).length - off]? = data[i]? := by
      rw [hlen, List.getElem?_take_of_lt (by omega)]
      exact hsame 0 (by omega)
    have hnext : data.take i ++ data[i]?.toList = data.take (i + 1) := List.take_add_one.symm
    rw [copyBack_succ, hback, hnext, ih (by omega) (by omega) fun k hk => ?_]
    · congr 1
      omega
    · have h := hsame (k + 1) (by omega)
      rw [show i - off + (k + 1) = i + 1 - off + k by omega,
        show i + (k + 1) = i + 1 + k by omega] at h
      exact h

/-- **Blocks.** No more than `off` elements at once are those that lie there. -/
theorem copyBack_eq_append {k : ℕ} (hk : k ≤ off) (hle : off ≤ out.length) :
    copyBack off k out = out ++ (out.drop (out.length - off)).take k := by
  induction k with
  | zero => rw [copyBack_zero, List.take_zero, List.append_nil]
  | succ k ih =>
    have hlen : ((out.drop (out.length - off)).take k).length = k := by
      rw [List.length_take, List.length_drop]
      omega
    rw [copyBack_add, ih (by omega), copyBack_succ, copyBack_zero, List.take_add_one,
      List.append_assoc, List.length_append, hlen, List.getElem?_append_left (by omega),
      List.getElem?_drop, show out.length + k - off = out.length - off + k by omega]

end Foundation
