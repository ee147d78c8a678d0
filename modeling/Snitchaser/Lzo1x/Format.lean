import Snitchaser.Foundation.Lookback
import Snitchaser.Common.Defs

/-!
# Streams of LZO1X

What a compressed stream says, apart from the code that writes it and the code that
reads it: literals and repeats of earlier output, by turns, and literals at the end.

    literals, match, literals, match, .., literals, end

A match is written in one of three forms (`M2`, `M3`, `M4`), by its length and its
distance. Up to three literals are announced in two bits of the match before them, more
of them in bytes of their own.

## The model

* `Match` is a run of literals and the match behind it, `Match.apply` what it adds to the
  output.
* `Stream` is a whole stream. Its matches reach back to what is there, and no further
  than a distance can say (`Match.Fits`).
* `Stream.encode` is the stream as bytes, `Stream.meaning` what it stands for.

## What is proved

`Stream.length_encode_le`: no stream is longer than what it stands for by more than the
sixteenth that `lzo1x_worst_compress` allows for.
-/

namespace Snitchaser.Lzo1x

open Foundation

/-- `M2_MAX_OFFSET`. -/
def m2MaxOffset : ℕ := 0x0800

/-- `M3_MAX_OFFSET`. -/
def m3MaxOffset : ℕ := 0x4000

/-- `M4_MAX_OFFSET`. -/
def m4MaxOffset : ℕ := 0xbfff

/-- `M2_MAX_LEN`. -/
def m2MaxLen : ℕ := 8

/-- `M4_MAX_LEN`. -/
def m4MaxLen : ℕ := 9

/-- `M3_MARKER`. -/
def m3Marker : ℕ := 32

/-- `M4_MARKER`. -/
def m4Marker : ℕ := 16

/-! ### Numbers -/

/-- How many zero bytes stand before the last byte of a number. -/
def zeroBytes (n : ℕ) : ℕ := (n - 1) / 255

/-- A number that is not zero: 255 for each zero byte, and the rest in a byte. -/
def count (n : ℕ) : List Byte :=
  List.replicate (zeroBytes n) 0 ++ [BitVec.ofNat 8 (n - 255 * zeroBytes n)]

theorem length_count (n : ℕ) : (count n).length = zeroBytes n + 1 := by
  rw [count, List.length_append, List.length_replicate, List.length_singleton]

/-- The last byte of a number is not zero. -/
theorem sub_zeroBytes {n : ℕ} (h : 1 ≤ n) :
    1 ≤ n - 255 * zeroBytes n ∧ n - 255 * zeroBytes n ≤ 255 ∧ 255 * zeroBytes n < n := by
  unfold zeroBytes
  omega

/-! ### Parts of a stream -/

/-- What announces `t` literals, where the match before them does not. -/
def litHead (t : ℕ) : List Byte :=
  if t ≤ 3 then []
  else if t ≤ 18 then [BitVec.ofNat 8 (t - 3)]
  else 0 :: count (t - 18)

/-- What the match before them says about `t` literals. -/
def low (t : ℕ) : ℕ := if t ≤ 3 then t else 0

theorem low_le (t : ℕ) : low t ≤ 3 := by
  unfold low
  split_ifs <;> omega

/-- A length, less two, together with a marker. -/
def lenBytes (marker max l : ℕ) : List Byte :=
  if l ≤ max then [BitVec.ofNat 8 (marker + l)]
  else BitVec.ofNat 8 marker :: count (l - max)

/-- A distance of a long match, with `t` literals to come. -/
def offBytes (d t : ℕ) : List Byte := [BitVec.ofNat 8 (d % 64 * 4 + t), BitVec.ofNat 8 (d / 64)]

/-- A match, with `t` literals to come. -/
def matchBytes (off len t : ℕ) : List Byte :=
  if len ≤ m2MaxLen ∧ off ≤ m2MaxOffset then
    [BitVec.ofNat 8 ((len - 1) * 32 + (off - 1) % 8 * 4 + t), BitVec.ofNat 8 ((off - 1) / 8)]
  else if off ≤ m3MaxOffset then
    lenBytes m3Marker 31 (len - 2) ++ offBytes (off - 1) t
  else
    lenBytes (m4Marker + (off - 0x4000) / 0x4000 * 8) 7 (len - 2) ++ offBytes (off - 0x4000) t

/-- What a stream ends with. -/
def endBytes : List Byte := [17, 0, 0]

/-! ### Streams -/

/-- Literals, and a match behind them. -/
structure Match where
  /-- The literals. -/
  lits : List Byte
  /-- How far back the match lies. -/
  off : ℕ
  /-- How long it is. -/
  len : ℕ
  deriving DecidableEq

/-- The output with the literals and the match. -/
def Match.apply (out : List Byte) (m : Match) : List Byte := copyBack m.off m.len (out ++ m.lits)

/-- A match that can be written, and that lies in the output. -/
structure Match.Fits (m : Match) (out : List Byte) : Prop where
  off_pos : 1 ≤ m.off
  off_le : m.off ≤ (out ++ m.lits).length
  off_max : m.off ≤ m4MaxOffset
  len_ge : 3 ≤ m.len
  /-- A distance of more bytes is for longer matches only. -/
  len_far : m2MaxOffset < m.off → 4 ≤ m.len

theorem Match.Fits.length_apply {m : Match} {out : List Byte} (h : m.Fits out) :
    (m.apply out).length = out.length + m.lits.length + m.len := by
  rw [apply, length_copyBack _ h.off_pos h.off_le, List.length_append]

/-- Matches that fit, one after the other. -/
def Fit : List Byte → List Match → Prop
  | _, [] => True
  | out, m :: ms => m.Fits out ∧ Fit (m.apply out) ms

theorem fit_append {out : List Byte} {ms ms' : List Match} :
    Fit out (ms ++ ms') ↔ Fit out ms ∧ Fit (ms.foldl Match.apply out) ms' := by
  induction ms generalizing out with
  | nil => simp [Fit]
  | cons m ms ih => simp [Fit, ih, and_assoc]

/-- A stream: nothing is said about literals before the first match but in bytes of their
own, so there are four at least. -/
structure Stream where
  /-- The matches, each with the literals before it. -/
  runs : List Match
  /-- The literals behind the last match. -/
  tail : List Byte
  fit : Fit [] runs
  four_le : ∀ m ∈ runs.head?, 4 ≤ m.lits.length

/-- What a stream stands for. -/
def Stream.meaning (s : Stream) : List Byte := s.runs.foldl Match.apply [] ++ s.tail

/-- How many literals come next. -/
def nextLits : List Match → ℕ → ℕ
  | [], tail => tail
  | m :: _, _ => m.lits.length

/-- Matches as bytes, with a number of literals behind the last. -/
def encodeMatches : List Match → ℕ → List Byte
  | [], _ => []
  | m :: ms, tail =>
    litHead m.lits.length ++ m.lits ++ matchBytes m.off m.len (low (nextLits ms tail)) ++
      encodeMatches ms tail

/-- What announces the literals at the end: there may be no match before them. -/
def tailHead (ms : List Match) (t : ℕ) : List Byte :=
  if ms = [] ∧ 1 ≤ t ∧ t ≤ 238 then [BitVec.ofNat 8 (17 + t)] else litHead t

/-- A stream as bytes. -/
def Stream.encode (s : Stream) : List Byte :=
  encodeMatches s.runs s.tail.length ++ tailHead s.runs s.tail.length ++ s.tail ++ endBytes

/-! ### Lengths -/

theorem length_litHead (t : ℕ) :
    (litHead t).length = if t ≤ 3 then 0 else if t ≤ 18 then 1 else 2 + zeroBytes (t - 18) := by
  unfold litHead
  split_ifs
  · rfl
  · rfl
  · rw [List.length_cons, length_count]
    omega

theorem length_lenBytes (marker max l : ℕ) :
    (lenBytes marker max l).length = if l ≤ max then 1 else 2 + zeroBytes (l - max) := by
  unfold lenBytes
  split_ifs
  · rfl
  · rw [List.length_cons, length_count]
    omega

theorem length_matchBytes (off len t : ℕ) :
    (matchBytes off len t).length =
      if len ≤ m2MaxLen ∧ off ≤ m2MaxOffset then 2
      else if off ≤ m3MaxOffset then 2 + (lenBytes m3Marker 31 (len - 2)).length
      else 2 + (lenBytes (m4Marker + (off - 0x4000) / 0x4000 * 8) 7 (len - 2)).length := by
  unfold matchBytes
  split_ifs
  · rfl
  · rw [List.length_append, Nat.add_comm]
    rfl
  · rw [List.length_append, Nat.add_comm]
    rfl

theorem two_le_length_matchBytes (off len t : ℕ) : 2 ≤ (matchBytes off len t).length := by
  rw [length_matchBytes]
  split_ifs <;> omega

/-- What is written for a match and the literals before it, and what they stand for. -/
theorem Match.Fits.length_le {m : Match} {out : List Byte} (h : m.Fits out) (t : ℕ) :
    16 * ((litHead m.lits.length).length + m.lits.length + (matchBytes m.off m.len t).length) ≤
      17 * (m.lits.length + m.len) := by
  have hlen := h.len_ge
  have hfar := h.len_far
  -- What a length costs is small against the length, in either form.
  have hcost : ∀ marker, (lenBytes marker 31 (m.len - 2)).length ≤ 1 + m.len / 33 ∧
      (lenBytes marker 7 (m.len - 2)).length ≤ 1 + m.len / 9 := by
    intro marker
    rw [length_lenBytes, length_lenBytes]
    unfold zeroBytes
    split_ifs <;> omega
  obtain ⟨hm3, -⟩ := hcost m3Marker
  obtain ⟨-, hm4⟩ := hcost (m4Marker + (m.off - 0x4000) / 0x4000 * 8)
  have hmatch : 16 * (matchBytes m.off m.len t).length + 13 ≤ 17 * m.len := by
    rw [length_matchBytes]
    unfold m2MaxLen m2MaxOffset at *
    split_ifs <;> omega
  have hhead : 16 * (litHead m.lits.length).length ≤ m.lits.length + 13 := by
    rw [length_litHead]
    unfold zeroBytes
    split_ifs <;> omega
  omega

theorem length_encodeMatches_le {ms : List Match} {out : List Byte} (h : Fit out ms) (tail : ℕ) :
    16 * (encodeMatches ms tail).length + 17 * out.length ≤
      17 * (ms.foldl Match.apply out).length := by
  induction ms generalizing out with
  | nil => simp [encodeMatches]
  | cons m ms ih =>
    obtain ⟨hm, hms⟩ := h
    have hrest := ih hms
    have hone := hm.length_le (low (nextLits ms tail))
    rw [hm.length_apply] at hrest
    simp only [encodeMatches, List.length_append, List.foldl_cons]
    omega

theorem length_tailHead_le (ms : List Match) (t : ℕ) : 16 * (tailHead ms t).length ≤ t + 32 := by
  unfold tailHead
  split_ifs with h
  · rw [List.length_singleton]
    omega
  · rw [length_litHead]
    unfold zeroBytes
    split_ifs <;> omega

/-- **Expansion.** A stream is no longer than the buffer that is made for it. -/
theorem Stream.length_encode_le (s : Stream) :
    s.encode.length ≤ s.meaning.length + s.meaning.length / 16 + 64 + 3 := by
  have hmatches := length_encodeMatches_le s.fit s.tail.length
  have htail := length_tailHead_le s.runs s.tail.length
  have hend : endBytes.length = 3 := rfl
  rw [List.length_nil] at hmatches
  simp only [encode, meaning, List.length_append, hend]
  omega

end Snitchaser.Lzo1x
