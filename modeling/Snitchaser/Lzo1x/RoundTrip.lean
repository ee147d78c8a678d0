import Snitchaser.Lzo1x.Compress
import Snitchaser.Lzo1x.Decompress
import Mathlib.Logic.Relation

/-!
# What was compressed comes back

The decompressor over the bytes of a stream. One lemma for each way a part of a stream is
written says which steps the decompressor takes over it; the run over a whole stream
follows by induction over its matches.

`match_done` is where two parts meet. Whatever the match was, its last byte but one then
lies two before `ip`, and says whether the literals that follow are announced in it
(`Announced`).

## What is proved

* `decompress_encode`: the decompressor writes what a stream stands for, to any buffer
  with room for it, and returns `LZO_E_OK`.
* `decompress_compress_ok`: so for what the compressor writes it gives back the input,
  whatever the work memory had in it.
-/

namespace Snitchaser.Lzo1x

open Foundation

/-! ### Bytes of the input -/

/-- These bytes stand in the input, from `i` on. -/
def Source.At (b : Source) (i : ℕ) (xs : List Byte) : Prop :=
  ∃ before rest, b.data = before ++ (xs ++ rest) ∧ before.length = i

section At

variable {b : Source} {i : ℕ} {xs ys : List Byte} {x : Byte}

theorem Source.At.le (h : b.At i xs) : i + xs.length ≤ b.data.length := by
  obtain ⟨before, rest, hdata, rfl⟩ := h
  rw [hdata, List.length_append, List.length_append]
  omega

theorem Source.At.left (h : b.At i (xs ++ ys)) : b.At i xs := by
  obtain ⟨before, rest, hdata, hlen⟩ := h
  exact ⟨before, ys ++ rest, by rw [hdata, List.append_assoc xs], hlen⟩

theorem Source.At.right (h : b.At i (xs ++ ys)) : b.At (i + xs.length) ys := by
  obtain ⟨before, rest, hdata, rfl⟩ := h
  exact ⟨before ++ xs, rest, by rw [hdata]; simp only [List.append_assoc], List.length_append⟩

theorem Source.At.tail (h : b.At i (x :: xs)) : b.At (i + 1) xs :=
  Source.At.right (show b.At i ([x] ++ xs) from h)

theorem Source.length_data_le (b : Source) : b.data.length ≤ b.mem.length := by
  rw [mem, List.length_append]
  omega

theorem Source.At.read (h : b.At i (x :: xs)) : b.read i = .ok x := by
  obtain ⟨before, rest, hdata, rfl⟩ := h
  have hget : b.mem[before.length]? = some x := by
    rw [Source.mem, hdata, List.append_assoc, List.getElem?_append_right le_rfl, Nat.sub_self]
    rfl
  rw [Source.read, hget]

theorem Source.At.slice (h : b.At i xs) : b.slice i xs.length = xs := by
  obtain ⟨before, rest, hdata, rfl⟩ := h
  rw [Source.slice, Source.mem, hdata, List.append_assoc, List.drop_left, List.append_assoc,
    List.take_left]

end At

section Tests

variable {b : Source} {x ip off : ℕ} {out : List Byte}

theorem not_haveIp (hlen : b.data.length < 2 ^ 32) (h : ip + x ≤ b.data.length) :
    ¬ b.haveIp x ip := by
  unfold Source.haveIp
  omega

theorem not_haveOp (hlen : b.outLen < 2 ^ 32) (h : out.length + x ≤ b.outLen) :
    ¬ b.haveOp x out := by
  unfold Source.haveOp
  omega

theorem not_haveLb (hpos : 1 ≤ off) (h : off ≤ out.length) : ¬ haveLb off out := by
  unfold haveLb
  omega

end Tests

/-! ### Steps -/

/-- A step that leaves fewer steps. -/
def Source.Goes (b : Source) (p q : Label × Cursor) : Prop :=
  b.step p.1 p.2 = .ok (.goto q.1 q.2) ∧ b.left q.1 q.2 < b.left p.1 p.2

/-- The steps from one place to another. -/
def Source.Reaches (b : Source) : Label × Cursor → Label × Cursor → Prop :=
  Relation.ReflTransGen b.Goes

/-- A run that reaches a place from where it returns. -/
theorem Source.Reaches.run_eq {b : Source} {p q : Label × Cursor} (h : b.Reaches p q) {c : Code}
    {out : List Byte} (hdone : b.step q.1 q.2 = .ok (.done c out)) {n : ℕ}
    (hn : b.left p.1 p.2 < n) : b.run n p.1 p.2 = .ok (c, out) := by
  induction h using Relation.ReflTransGen.head_induction_on generalizing n with
  | refl =>
    obtain ⟨n, rfl⟩ := Nat.exists_eq_succ_of_ne_zero (by omega : n ≠ 0)
    rw [Source.run, hdone]
    rfl
  | head hgoes _ ih =>
    obtain ⟨n, rfl⟩ := Nat.exists_eq_succ_of_ne_zero (by omega : n ≠ 0)
    obtain ⟨hstep, hlt⟩ := hgoes
    rw [Source.run, hstep]
    exact ih (by omega)

/-- The output has room, and sizes are those of a `size_t`. -/
structure Source.Sized (b : Source) : Prop where
  data_lt : b.data.length < 2 ^ 32
  outLen_lt : b.outLen < 2 ^ 32

/-! ### Numbers -/

section Numbers

variable {b : Source}

theorem skipZeros_eq {k f t ip : ℕ} {x : Byte} (hb : b.Sized)
    (hat : b.At ip (List.replicate k 0 ++ [x])) (hx : x ≠ 0) (hf : k < f)
    (ht : t + 255 * k < 2 ^ 32) : skipZeros b f t ip = .ok (some (t + 255 * k, ip + k)) := by
  induction k generalizing f t ip with
  | zero =>
    obtain ⟨f, rfl⟩ := Nat.exists_eq_succ_of_ne_zero (by omega : f ≠ 0)
    rw [skipZeros, if_neg (not_haveIp (x := 1) hb.data_lt hat.le), hat.read]
    exact if_neg hx
  | succ k ih =>
    obtain ⟨f, rfl⟩ := Nat.exists_eq_succ_of_ne_zero (by omega : f ≠ 0)
    have hle := hat.le
    rw [List.length_append, List.length_singleton] at hle
    rw [List.replicate_succ, List.cons_append] at hat
    rw [skipZeros, if_neg (not_haveIp hb.data_lt (by omega)), hat.read]
    change skipZeros b f (sizeT (t + 255)) (ip + 1) = _
    rw [Nat.mul_succ, ← Nat.add_assoc] at ht
    rw [sizeT_of_lt (by omega), ih hat.tail (by omega) (by omega), Nat.mul_succ]
    congr 3 <;> omega

theorem readCount_count {n base ip : ℕ} (hb : b.Sized) (hat : b.At ip (count n)) (hn : 1 ≤ n)
    (hlt : base + n < 2 ^ 32) :
    readCount b 0 base ip = .ok (some (base + n, ip + (count n).length)) := by
  obtain ⟨hpos, h255, hle⟩ := sub_zeroBytes hn
  have hnat : (BitVec.ofNat 8 (n - 255 * zeroBytes n)).toNat = n - 255 * zeroBytes n := by
    rw [BitVec.toNat_ofNat]
    omega
  have hx : BitVec.ofNat 8 (n - 255 * zeroBytes n) ≠ 0 := by
    intro h
    rw [h] at hnat
    change 0 = _ at hnat
    omega
  have hlen := hat.le
  have hmem := b.length_data_le
  rw [length_count] at hlen
  have hlast : b.read (ip + zeroBytes n) = .ok (BitVec.ofNat 8 (n - 255 * zeroBytes n)) := by
    have h := hat.right.read
    rwa [List.length_replicate] at h
  rw [readCount, if_pos rfl, skipZeros_eq hb hat hx (by omega) (by omega)]
  simp only [bind, Except.bind, hlast, hnat]
  rw [sizeT_of_lt (by omega), length_count]
  congr 3
  omega

/-- The byte that a length begins with. -/
def lenCode (max l : ℕ) : ℕ := if l ≤ max then l else 0

/-- A length, read from its first byte on. -/
theorem read_lenBytes {marker max l ip : ℕ} {rest : List Byte} (hb : b.Sized)
    (hat : b.At ip (lenBytes marker max l ++ rest)) (hl : 1 ≤ l) (hlt : l < 2 ^ 32) :
    b.read ip = .ok (BitVec.ofNat 8 (marker + lenCode max l)) ∧
      readCount b (lenCode max l) max (ip + 1) =
        .ok (some (l, ip + (lenBytes marker max l).length)) := by
  unfold lenBytes lenCode at *
  by_cases hle : l ≤ max
  · rw [if_pos hle] at hat ⊢
    refine ⟨hat.read, ?_⟩
    rw [if_pos hle, readCount, if_neg (by omega)]
    rfl
  · rw [if_neg hle] at hat ⊢
    refine ⟨hat.read, ?_⟩
    rw [if_neg hle, readCount_count hb hat.left.tail (by omega) (by omega), List.length_cons,
      Nat.add_sub_cancel' (by omega), Nat.add_comm (count _).length, Nat.add_assoc]

/-- A distance, and what it says about the literals that follow. -/
theorem le16_offBytes {d t ip : ℕ} (hat : b.At ip (offBytes d t)) (ht : t ≤ 3) :
    ∃ w, le16 b ip = .ok w ∧ w >>> 2 = d % 0x4000 := by
  refine ⟨_, by rw [le16, hat.read, hat.tail.read]; rfl, ?_⟩
  rw [BitVec.toNat_ofNat, BitVec.toNat_ofNat, Nat.shiftRight_eq_div_pow]
  omega

end Numbers

/-! ### Literals -/

/-- The last match says that literals follow, or how many do not fit there. -/
def Announced (b : Source) (ip n : ℕ) : Prop :=
  2 ≤ ip ∧ ∃ y, b.read (ip - 2) = .ok y ∧ y.toNat % 4 = low n

section Literals

variable {b : Source} {ip : ℕ} {out lits : List Byte} {x : Byte}

theorem litHead_small {t : ℕ} (h : t ≤ 3) : litHead t = [] := if_pos h

theorem goes_outer_match (hat : b.At ip [x]) (hx : 16 ≤ x.toNat) :
    b.Goes (.outer, ⟨ip, out⟩) (.matchAt x.toNat, ⟨ip + 1, out⟩) := by
  have hle := hat.le
  have hmem := b.length_data_le
  rw [List.length_singleton] at hle
  constructor
  · change stepOuter b ⟨ip, out⟩ = _
    rw [stepOuter, if_pos (by change ip < _; omega)]
    simp only [bind, Except.bind, hat.read]
    exact if_pos hx
  · simp only [Source.left]
    omega

theorem goes_firstLiteralRun (hat : b.At ip [x]) (hx : 16 ≤ x.toNat) :
    b.Goes (.firstLiteralRun, ⟨ip, out⟩) (.matchAt x.toNat, ⟨ip + 1, out⟩) := by
  have hle := hat.le
  have hmem := b.length_data_le
  rw [List.length_singleton] at hle
  constructor
  · change stepFirstLiteralRun b ⟨ip, out⟩ = _
    rw [stepFirstLiteralRun]
    simp only [bind, Except.bind, hat.read]
    exact if_pos hx
  · simp only [Source.left]
    omega

/-- The number of the literals in a run, read by the outer loop. -/
theorem read_litHead {n : ℕ} {rest : List Byte} (hb : b.Sized) (hat : b.At ip (litHead n ++ rest))
    (hn : 4 ≤ n) (hlt : n < 2 ^ 32) :
    ∃ x : Byte, b.read ip = .ok x ∧ x.toNat < 16 ∧
      readCount b x.toNat 15 (ip + 1) = .ok (some (n - 3, ip + (litHead n).length)) := by
  unfold litHead at *
  rw [if_neg (by omega)] at hat ⊢
  by_cases h18 : n ≤ 18
  · rw [if_pos h18] at hat ⊢
    have hnat : (BitVec.ofNat 8 (n - 3)).toNat = n - 3 := by
      rw [BitVec.toNat_ofNat]
      omega
    refine ⟨_, hat.read, by omega, ?_⟩
    rw [hnat, readCount, if_neg (by omega)]
    rfl
  · rw [if_neg h18] at hat ⊢
    refine ⟨0, hat.read, by decide, ?_⟩
    change readCount b 0 15 (ip + 1) = _
    rw [readCount_count hb hat.left.tail (by omega) (by omega), List.length_cons]
    congr 3 <;> omega

theorem goes_outer_literals (hb : b.Sized) (hat : b.At ip (litHead lits.length ++ lits))
    (hfour : 4 ≤ lits.length) (hmore : ip + (litHead lits.length ++ lits).length < b.data.length)
    (hroom : out.length + lits.length ≤ b.outLen) :
    b.Goes (.outer, ⟨ip, out⟩)
      (.firstLiteralRun, ⟨ip + (litHead lits.length ++ lits).length, out ++ lits⟩) := by
  have hmem := b.length_data_le
  have hout := hb.outLen_lt
  obtain ⟨x, hread, hx, hcount⟩ := read_litHead hb hat hfour (by omega)
  have hslice : b.slice (ip + (litHead lits.length).length) lits.length = lits := hat.right.slice
  rw [List.length_append] at hmore ⊢
  constructor
  · have hcopy := copyLiterals_eq (b := b) (t := lits.length - 3)
      (s := ⟨ip + (litHead lits.length).length, out⟩) (by omega) (by omega)
      (by change _ + (litHead _).length + _ ≤ _; omega) (by change out.length + _ ≤ _; omega)
    rw [Nat.sub_add_cancel (by omega), hslice] at hcopy
    have hop : ¬ b.haveOp (lits.length - 3 + 3) out := not_haveOp hout (by omega)
    have hip : ¬ b.haveIp (lits.length - 3 + 4) (ip + (litHead lits.length).length) :=
      not_haveIp hb.data_lt (by omega)
    change stepOuter b ⟨ip, out⟩ = _
    rw [stepOuter, if_pos (by change ip < _; omega)]
    simp only [bind, Except.bind, hread, hcount]
    rw [if_neg (by omega), if_neg hop, if_neg hip]
    simp only [hcopy, Nat.add_assoc]
  · simp only [Source.left]
    omega

theorem goes_matchNext (hb : b.Sized) (hat : b.At ip (lits ++ [x])) (hpos : 1 ≤ lits.length)
    (hthree : lits.length ≤ 3) (hmore : ip + (lits ++ [x]).length < b.data.length)
    (hroom : out.length + lits.length ≤ b.outLen) :
    b.Goes (.matchNext lits.length, ⟨ip, out⟩)
      (.matchAt x.toNat, ⟨ip + (lits ++ [x]).length, out ++ lits⟩) := by
  have hmem := b.length_data_le
  have hslice : b.slice ip lits.length = lits := hat.left.slice
  have hread : b.read (ip + lits.length) = .ok x := hat.right.read
  rw [List.length_append, List.length_singleton] at hmore ⊢
  constructor
  · have hnum : (if lits.length > 1 then if lits.length > 2 then 3 else 2 else 1) = lits.length := by
      split_ifs <;> omega
    have hcopy := copyIn_eq (b := b) (n := lits.length) (s := ⟨ip, out⟩)
      (by change ip + _ ≤ _; omega) hroom
    rw [hslice] at hcopy
    change stepMatchNext b lits.length ⟨ip, out⟩ = _
    rw [stepMatchNext, if_neg (not_haveOp hb.outLen_lt hroom),
      if_neg (not_haveIp hb.data_lt (by change ip + _ ≤ _; omega)), hnum]
    simp only [bind, Except.bind, hcopy, hread]
    exact if_pos (by omega)
  · simp only [Source.left]
    omega

theorem goes_matchDone {n : ℕ} (han : Announced b ip n) :
    b.Goes (.matchDone, ⟨ip, out⟩) (if low n = 0 then .outer else .matchNext (low n), ⟨ip, out⟩) := by
  obtain ⟨htwo, y, hread, hy⟩ := han
  have hand : y.toNat &&& 3 = low n := by rw [Nat.and_two_pow_sub_one_eq_mod y.toNat 2, ← hy]
  constructor
  · change stepMatchDone b ⟨ip, out⟩ = _
    rw [stepMatchDone, if_neg (by change ¬ ip < 2; omega)]
    simp only [bind, Except.bind, hread, hand]
    split_ifs <;> rfl
  · by_cases hlow : low n = 0 <;> simp [hlow, Source.left]

/-- A run of four literals or more, from the outer loop on. -/
theorem reaches_of_outer (hb : b.Sized) (hat : b.At ip (litHead lits.length ++ lits ++ [x]))
    (hx : 16 ≤ x.toNat) (hfour : 4 ≤ lits.length) (hroom : out.length + lits.length ≤ b.outLen) :
    b.Reaches (.outer, ⟨ip, out⟩)
      (.matchAt x.toNat, ⟨ip + (litHead lits.length ++ lits ++ [x]).length, out ++ lits⟩) := by
  have hle := hat.le
  have hlen : (litHead lits.length ++ lits ++ [x]).length =
      (litHead lits.length ++ lits).length + 1 := List.length_append
  rw [hlen] at hle ⊢
  exact .head (goes_outer_literals hb hat.left hfour (by omega) hroom)
    (.single (goes_firstLiteralRun hat.right hx))

/-- **Literals.** However many literals follow a match, they are copied, up to the first
byte of what is behind them. -/
theorem reaches_matchAt (hb : b.Sized) (han : Announced b ip lits.length)
    (hat : b.At ip (litHead lits.length ++ lits ++ [x])) (hx : 16 ≤ x.toNat)
    (hmore : ip + (litHead lits.length ++ lits ++ [x]).length < b.data.length)
    (hroom : out.length + lits.length ≤ b.outLen) :
    b.Reaches (.matchDone, ⟨ip, out⟩)
      (.matchAt x.toNat, ⟨ip + (litHead lits.length ++ lits ++ [x]).length, out ++ lits⟩) := by
  have hdone : b.Goes (.matchDone, ⟨ip, out⟩)
      (if low lits.length = 0 then .outer else .matchNext (low lits.length), ⟨ip, out⟩) :=
    goes_matchDone han
  by_cases hfour : 4 ≤ lits.length
  · have hlow : low lits.length = 0 := if_neg (by omega)
    rw [if_pos hlow] at hdone
    exact .head hdone (reaches_of_outer hb hat hx hfour hroom)
  · have hlow : low lits.length = lits.length := if_pos (by omega)
    rw [litHead_small (by omega), List.nil_append] at hat hmore ⊢
    by_cases hzero : lits.length = 0
    · obtain rfl : lits = [] := List.eq_nil_of_length_eq_zero hzero
      rw [if_pos (hlow.trans hzero)] at hdone
      rw [List.append_nil]
      exact .head hdone (.single (goes_outer_match hat hx))
    · rw [hlow, if_neg hzero] at hdone
      exact .head hdone (.single (goes_matchNext hb hat (by omega) (by omega) hmore hroom))

end Literals

/-! ### Matches -/

section Matches

variable {b : Source} {ip off len t : ℕ} {out : List Byte}

/-- The literals behind a match are announced in it. -/
theorem announced_of_at {n : ℕ} (hat : b.At ip (matchBytes off len (low n))) :
    Announced b (ip + (matchBytes off len (low n)).length) n := by
  obtain ⟨pre, c, y, hbytes⟩ := matchBytes_eq off len
  have hlow := low_le n
  rw [hbytes] at hat ⊢
  have hlen : ip + (pre ++ [BitVec.ofNat 8 (4 * c + low n), y]).length = ip + pre.length + 2 := by
    rw [List.length_append, Nat.add_assoc]
    rfl
  rw [hlen]
  refine ⟨by omega, _, hat.right.read, ?_⟩
  rw [BitVec.toNat_ofNat]
  omega

theorem copyChecked_eq {copy : Source → ℕ → ℕ → List Byte → Except Fault (List Byte)} (hb : b.Sized)
    (hpos : 1 ≤ off) (hle : off ≤ out.length) (hroom : out.length + (t + 2) ≤ b.outLen)
    (hcopy : copy b off t out = .ok (copyBack off (t + 2) out)) :
    copyChecked b copy off t ⟨ip, out⟩ =
      .ok (.goto .matchDone ⟨ip, copyBack off (t + 2) out⟩) := by
  rw [copyChecked, if_neg (not_haveLb hpos hle),
    if_neg (not_haveOp (x := t + 3 - 1) hb.outLen_lt hroom)]
  simp only [bind, Except.bind, hcopy]

/-- What a match is read under: it lies in the output, and there is room for it. -/
structure Readable (b : Source) (off len : ℕ) (out : List Byte) : Prop where
  sized : b.Sized
  off_pos : 1 ≤ off
  off_le : off ≤ out.length
  off_max : off ≤ m4MaxOffset
  len_ge : 3 ≤ len
  room : out.length + len ≤ b.outLen

/-- A match is read, and copied. -/
def ReadsMatch (b : Source) (ip : ℕ) (bytes : List Byte) (off len : ℕ) (out : List Byte) : Prop :=
  ∃ x xs, bytes = x :: xs ∧ 16 ≤ x.toNat ∧
    stepMatch b x.toNat ⟨ip + 1, out⟩ =
      .ok (.goto .matchDone ⟨ip + bytes.length, copyBack off len out⟩)

theorem readsMatch_m2 (h : Readable b off len out) (ht : t ≤ 3)
    (hm2 : len ≤ m2MaxLen ∧ off ≤ m2MaxOffset)
    (hat : b.At ip [BitVec.ofNat 8 ((len - 1) * 32 + (off - 1) % 8 * 4 + t),
      BitVec.ofNat 8 ((off - 1) / 8)]) :
    ReadsMatch b ip [BitVec.ofNat 8 ((len - 1) * 32 + (off - 1) % 8 * 4 + t),
      BitVec.ofNat 8 ((off - 1) / 8)] off len out := by
  have hlen := h.len_ge
  have hpos := h.off_pos
  have hlen8 : len ≤ 8 := hm2.1
  have hoff : off ≤ 0x800 := hm2.2
  have hx : (BitVec.ofNat 8 ((len - 1) * 32 + (off - 1) % 8 * 4 + t)).toNat =
      (len - 1) * 32 + (off - 1) % 8 * 4 + t := by
    rw [BitVec.toNat_ofNat]
    omega
  have hy : (BitVec.ofNat 8 ((off - 1) / 8)).toNat = (off - 1) / 8 := by
    rw [BitVec.toNat_ofNat]
    omega
  refine ⟨_, _, rfl, by omega, ?_⟩
  have hdist : 1 + ((((len - 1) * 32 + (off - 1) % 8 * 4 + t) >>> 2) &&& 7) +
      (((off - 1) / 8) <<< 3) = off := by
    rw [Nat.and_two_pow_sub_one_eq_mod _ 3, Nat.shiftRight_eq_div_pow, Nat.shiftLeft_eq]
    omega
  have hl : (((len - 1) * 32 + (off - 1) % 8 * 4 + t) >>> 5) - 1 = len - 2 := by
    rw [Nat.shiftRight_eq_div_pow]
    omega
  have hroom := h.room
  rw [hx, stepMatch, if_pos (by omega), hat.tail.read]
  simp only [bind, Except.bind]
  rw [hy, hdist, hl, copyChecked_eq h.sized hpos h.off_le (by omega)
    (copyMatch_eq (by omega) hpos h.off_le (by omega)), Nat.sub_add_cancel (by omega)]
  rfl

theorem readsMatch_m3 (h : Readable b off len out) (ht : t ≤ 3) (hm3 : off ≤ m3MaxOffset)
    (hat : b.At ip (lenBytes m3Marker 31 (len - 2) ++ offBytes (off - 1) t)) :
    ReadsMatch b ip (lenBytes m3Marker 31 (len - 2) ++ offBytes (off - 1) t) off len out := by
  have hlen := h.len_ge
  have hpos := h.off_pos
  have hoff : off ≤ 0x4000 := hm3
  have hroom := h.room
  have hlt := h.sized.outLen_lt
  obtain ⟨hread, hcount⟩ := read_lenBytes h.sized hat (show 1 ≤ len - 2 by omega) (by omega)
  obtain ⟨w, hw, hdist⟩ := le16_offBytes hat.right ht
  have hcode : lenCode 31 (len - 2) ≤ 31 := by
    unfold lenCode
    split_ifs <;> omega
  have hx : (BitVec.ofNat 8 (m3Marker + lenCode 31 (len - 2))).toNat =
      32 + lenCode 31 (len - 2) := by
    rw [BitVec.toNat_ofNat]
    exact Nat.mod_eq_of_lt (by unfold m3Marker; omega)
  obtain ⟨xs, hxs⟩ : ∃ xs, lenBytes m3Marker 31 (len - 2) ++ offBytes (off - 1) t =
      BitVec.ofNat 8 (m3Marker + lenCode 31 (len - 2)) :: xs := by
    unfold lenBytes lenCode
    split_ifs
    · exact ⟨_, rfl⟩
    · exact ⟨_, rfl⟩
  refine ⟨_, xs, hxs, by omega, ?_⟩
  have hand : (32 + lenCode 31 (len - 2)) &&& 31 = lenCode 31 (len - 2) := by
    rw [Nat.and_two_pow_sub_one_eq_mod _ 5]
    omega
  rw [hx, stepMatch, if_neg (by omega), if_pos (by omega), hand, hcount]
  simp only [bind, Except.bind, hw]
  rw [hdist, show 1 + (off - 1) % 0x4000 = off by omega,
    copyChecked_eq h.sized hpos h.off_le (by omega)
      (copyLong_eq (by omega) hpos h.off_le (by omega)), Nat.sub_add_cancel (by omega),
    List.length_append, Nat.add_assoc]
  rfl

theorem readsMatch_m4 {d : ℕ} (h : Readable b (d + 0x4000) len out) (ht : t ≤ 3) (hd : 1 ≤ d)
    (hat : b.At ip (lenBytes (m4Marker + d / 0x4000 * 8) 7 (len - 2) ++ offBytes d t)) :
    ReadsMatch b ip (lenBytes (m4Marker + d / 0x4000 * 8) 7 (len - 2) ++ offBytes d t)
      (d + 0x4000) len out := by
  have hlen := h.len_ge
  have hmax : d + 0x4000 ≤ 0xbfff := h.off_max
  have hroom := h.room
  have hlt := h.sized.outLen_lt
  obtain ⟨hread, hcount⟩ := read_lenBytes h.sized hat (show 1 ≤ len - 2 by omega) (by omega)
  obtain ⟨w, hw, hdist⟩ := le16_offBytes hat.right ht
  have hcode : lenCode 7 (len - 2) ≤ 7 := by
    unfold lenCode
    split_ifs <;> omega
  have hx : (BitVec.ofNat 8 (m4Marker + d / 0x4000 * 8 + lenCode 7 (len - 2))).toNat =
      16 + d / 0x4000 * 8 + lenCode 7 (len - 2) := by
    rw [BitVec.toNat_ofNat]
    exact Nat.mod_eq_of_lt (by unfold m4Marker; omega)
  obtain ⟨xs, hxs⟩ : ∃ xs, lenBytes (m4Marker + d / 0x4000 * 8) 7 (len - 2) ++ offBytes d t =
      BitVec.ofNat 8 (m4Marker + d / 0x4000 * 8 + lenCode 7 (len - 2)) :: xs := by
    unfold lenBytes lenCode
    split_ifs
    · exact ⟨_, rfl⟩
    · exact ⟨_, rfl⟩
  refine ⟨_, xs, hxs, by omega, ?_⟩
  -- The distance has one bit more than its two bytes hold: that bit is with the length.
  have hbits : ∀ q < 2, ∀ l < 8, (16 + q * 8 + l) &&& 7 = l ∧ ((16 + q * 8 + l) &&& 8) <<< 11 =
      q * 0x4000 := by decide
  obtain ⟨hand, hbit⟩ := hbits (d / 0x4000) (by omega) (lenCode 7 (len - 2)) (by omega)
  rw [hx, stepMatch, if_neg (by omega), if_neg (by omega), if_pos (by omega), hand, hcount]
  simp only [bind, Except.bind, hw]
  rw [hbit, hdist, Nat.div_add_mod', copyFar, if_neg (by omega),
    copyChecked_eq h.sized h.off_pos h.off_le (by omega)
      (copyLong_eq (by omega) h.off_pos h.off_le (by omega)), Nat.sub_add_cancel (by omega),
    List.length_append, Nat.add_assoc]
  rfl

/-- **A match.** In whichever form it is written, it is read and copied. -/
theorem readsMatch (h : Readable b off len out) (ht : t ≤ 3)
    (hat : b.At ip (matchBytes off len t)) :
    ReadsMatch b ip (matchBytes off len t) off len out := by
  unfold matchBytes at hat ⊢
  split_ifs at hat ⊢ with hm2 hm3
  · exact readsMatch_m2 h ht hm2 hat
  · exact readsMatch_m3 h ht hm3 hat
  · have hfar : 0x4000 < off := Nat.lt_of_not_le hm3
    have hoff : off - 0x4000 + 0x4000 = off := Nat.sub_add_cancel (by omega)
    have hmatch := readsMatch_m4 (d := off - 0x4000) (by rwa [hoff]) ht (by omega) hat
    rwa [hoff] at hmatch

end Matches

/-! ### Streams -/

section Streams

variable {b : Source} {ip : ℕ} {out : List Byte}

/-- What ends a stream ends the run. -/
theorem step_endBytes (hat : b.At ip endBytes) (hend : ip + endBytes.length = b.data.length) :
    b.step (.matchAt 17) ⟨ip + 1, out⟩ = .ok (.done .ok out) := by
  have hread : le16 b (ip + 1) = .ok 0 := by
    rw [le16, hat.tail.read, hat.tail.tail.read]
    rfl
  change stepMatch b 17 ⟨ip + 1, out⟩ = _
  have hcount : readCount b (17 &&& 7) 7 (ip + 1) = .ok (some (1, ip + 1)) := rfl
  rw [stepMatch, if_neg (by omega), if_neg (by omega), if_pos (by omega), hcount]
  simp only [bind, Except.bind, hread]
  change Except.ok (eofFound b ⟨ip + 1 + 2, out⟩) = _
  rw [eofFound, if_pos (by rw [← hend]; rfl)]

theorem length_foldl_apply {ms : List Match} (h : Fit out ms) :
    out.length ≤ (ms.foldl Match.apply out).length := by
  have := length_encodeMatches_le h 0
  omega

/-- A match and the literals before it, wherever the literals are read from. -/
theorem reaches_matchDone {m : Match} {n : ℕ} {p : Label × Cursor} (hb : b.Sized)
    (hm : m.Fits out)
    (hat : b.At ip (litHead m.lits.length ++ m.lits ++ matchBytes m.off m.len (low n)))
    (hroom : (m.apply out).length ≤ b.outLen)
    (hlits : ∀ x : Byte, 16 ≤ x.toNat → b.At ip (litHead m.lits.length ++ m.lits ++ [x]) →
      ip + (litHead m.lits.length ++ m.lits ++ [x]).length < b.data.length →
      b.Reaches p
        (.matchAt x.toNat, ⟨ip + (litHead m.lits.length ++ m.lits ++ [x]).length, out ++ m.lits⟩)) :
    b.Reaches p (.matchDone, ⟨ip + (litHead m.lits.length ++ m.lits ++
        matchBytes m.off m.len (low n)).length, m.apply out⟩) ∧
      Announced b (ip + (litHead m.lits.length ++ m.lits ++
        matchBytes m.off m.len (low n)).length) n := by
  have hmem := b.length_data_le
  have hle := hat.le
  have htwo := two_le_length_matchBytes m.off m.len (low n)
  rw [hm.length_apply] at hroom
  have hread : Readable b m.off m.len (out ++ m.lits) :=
    ⟨hb, hm.off_pos, hm.off_le, hm.off_max, hm.len_ge, by rw [List.length_append]; omega⟩
  obtain ⟨x, xs, hx, hx16, hstep⟩ := readsMatch hread (low_le n) hat.right
  have hlen : (litHead m.lits.length ++ m.lits ++ [x]).length =
      (litHead m.lits.length ++ m.lits).length + 1 := List.length_append
  have hathead : b.At ip (litHead m.lits.length ++ m.lits ++ [x]) := by
    rw [hx] at hat
    rw [show x :: xs = [x] ++ xs from rfl, ← List.append_assoc] at hat
    exact hat.left
  rw [List.length_append] at hle ⊢
  have hreach := hlits x hx16 hathead (by omega)
  rw [hlen, ← Nat.add_assoc] at hreach
  rw [← Nat.add_assoc]
  refine ⟨hreach.tail ⟨hstep, ?_⟩, announced_of_at hat.right⟩
  simp only [Source.left]
  omega

/-- The literals at the end, wherever they are read from, and the end. -/
theorem done_of_tail {p : Label × Cursor} {head tail : List Byte}
    (hat : b.At ip (head ++ tail ++ endBytes))
    (hend : ip + (head ++ tail ++ endBytes).length = b.data.length)
    (hlits : b.At ip (head ++ tail ++ [17]) → ip + (head ++ tail ++ [17]).length < b.data.length →
      b.Reaches p (.matchAt 17, ⟨ip + (head ++ tail ++ [17]).length, out⟩)) :
    ∃ q, b.Reaches p q ∧ b.step q.1 q.2 = .ok (.done .ok out) := by
  have hendlen : endBytes.length = 3 := rfl
  have hlen : (head ++ tail ++ [(17 : Byte)]).length = (head ++ tail).length + 1 :=
    List.length_append
  have hhead : b.At ip (head ++ tail ++ [17]) := by
    rw [show endBytes = [17] ++ [0, 0] from rfl, ← List.append_assoc] at hat
    exact hat.left
  rw [List.length_append, hendlen] at hend
  have hstep : b.step (.matchAt 17) ⟨ip + (head ++ tail).length + 1, out⟩ = .ok (.done .ok out) :=
    step_endBytes hat.right (by omega)
  rw [Nat.add_assoc, ← hlen] at hstep
  exact ⟨_, hlits hhead (by omega), hstep⟩

/-- From the place behind a match to the end: each match is read with the literals before
it, and then the literals at the end. -/
theorem reaches_end {ms : List Match} {tail : List Byte} (hb : b.Sized) (hfit : Fit out ms)
    (han : Announced b ip (nextLits ms tail.length))
    (hat : b.At ip (encodeMatches ms tail.length ++ (litHead tail.length ++ tail ++ endBytes)))
    (hend : ip + (encodeMatches ms tail.length ++
      (litHead tail.length ++ tail ++ endBytes)).length = b.data.length)
    (hroom : (ms.foldl Match.apply out).length + tail.length ≤ b.outLen) :
    ∃ q, b.Reaches (.matchDone, ⟨ip, out⟩) q ∧
      b.step q.1 q.2 = .ok (.done .ok (ms.foldl Match.apply out ++ tail)) := by
  induction ms generalizing ip out with
  | nil =>
    exact done_of_tail hat hend fun hat17 hmore =>
      reaches_matchAt hb han hat17 (by decide) hmore hroom
  | cons m ms ih =>
    obtain ⟨hm, hms⟩ := hfit
    have hgrow := length_foldl_apply hms
    rw [List.foldl_cons] at hroom ⊢
    have hsplit : ∀ rest, encodeMatches (m :: ms) tail.length ++ rest =
        litHead m.lits.length ++ m.lits ++ matchBytes m.off m.len (low (nextLits ms tail.length)) ++
          (encodeMatches ms tail.length ++ rest) := fun rest => by
      simp only [encodeMatches, List.append_assoc]
    rw [hsplit] at hat hend
    obtain ⟨hreach, han'⟩ := reaches_matchDone hb hm hat.left (by omega) fun x hx hatx hmore =>
      reaches_matchAt hb han hatx hx hmore (by rw [hm.length_apply] at hgrow; omega)
    rw [List.length_append, ← Nat.add_assoc] at hend
    obtain ⟨q, hq, hdone⟩ := ih hms han' hat.right hend hroom
    exact ⟨q, hreach.trans hq, hdone⟩

end Streams

/-! ### The whole -/

section Whole

variable {b : Source}

/-- A run that starts at a label, and reaches a place from where it returns. -/
theorem decompress_of_reaches {l : Label} {s : Cursor} {c : Code} {out : List Byte}
    (hstart : b.start = .ok (.goto l s))
    (hdone : ∃ q, b.Reaches (l, s) q ∧ b.step q.1 q.2 = .ok (.done c out)) :
    lzo1xDecompressSafe b = .ok (c, out) := by
  obtain ⟨q, hreach, hstep⟩ := hdone
  rw [lzo1xDecompressSafe, hstart]
  exact hreach.run_eq hstep (Nat.lt_succ_self _)

theorem start_of_le {x : Byte} (hread : b.read 0 = .ok x) (hx : x.toNat ≤ 17) :
    b.start = .ok (.goto .outer ⟨0, []⟩) := by
  rw [Source.start, hread]
  exact if_neg (by omega)

/-- A stream that is nothing but literals, announced in its first byte. -/
theorem decompress_short {tail : List Byte} (hb : b.Sized) (hpos : 1 ≤ tail.length)
    (h238 : tail.length ≤ 238)
    (hdata : b.data = [BitVec.ofNat 8 (17 + tail.length)] ++ tail ++ endBytes)
    (hroom : tail.length ≤ b.outLen) : lzo1xDecompressSafe b = .ok (.ok, tail) := by
  have hat : b.At 0 ([BitVec.ofNat 8 (17 + tail.length)] ++ tail ++ endBytes) :=
    ⟨[], [], by rw [hdata, List.nil_append, List.append_nil], rfl⟩
  have hend : 0 + ([BitVec.ofNat 8 (17 + tail.length)] ++ tail ++ endBytes).length =
      b.data.length := by rw [hdata, Nat.zero_add]
  have hx : (BitVec.ofNat 8 (17 + tail.length)).toNat = 17 + tail.length := by
    rw [BitVec.toNat_ofNat]
    exact Nat.mod_eq_of_lt (by omega)
  have hmem := b.length_data_le
  have hlen : ([BitVec.ofNat 8 (17 + tail.length)] ++ tail ++ [(17 : Byte)]).length =
      1 + (tail.length + 1) := by
    simp only [List.length_append, List.length_singleton, Nat.add_assoc]
  by_cases hfour : tail.length < 4
  · refine decompress_of_reaches (l := .matchNext tail.length) (s := ⟨1, []⟩) ?_
      (done_of_tail hat hend fun hat17 hmore => ?_)
    · rw [Source.start, hat.left.left.read]
      simp only [bind, Except.bind, hx]
      rw [if_pos (by omega), Nat.add_sub_cancel_left, if_pos hfour]
    · rw [hlen] at hmore ⊢
      have hat1 : b.At 1 (tail ++ [17]) := by
        rw [List.append_assoc] at hat17
        exact hat17.right
      have hlen1 : (tail ++ [(17 : Byte)]).length = tail.length + 1 := List.length_append
      have hgoes : b.Goes (.matchNext tail.length, ⟨1, []⟩)
          (.matchAt 17, ⟨1 + (tail ++ [(17 : Byte)]).length, [] ++ tail⟩) :=
        goes_matchNext hb hat1 hpos (by omega) (by omega) (by rw [List.length_nil]; omega)
      rw [List.length_append, List.length_singleton, List.nil_append] at hgoes
      rw [Nat.zero_add]
      exact .single hgoes
  · have hcopy := copyIn_eq (b := b) (n := tail.length) (s := ⟨1, []⟩)
      (by
        have := hat.left.le
        rw [List.length_append, List.length_singleton] at this
        change 1 + _ ≤ _
        omega)
      (by change 0 + _ ≤ _; omega)
    have hslice : b.slice 1 tail.length = tail := hat.left.right.slice
    rw [hslice, List.nil_append] at hcopy
    refine decompress_of_reaches (l := .firstLiteralRun) (s := ⟨1 + tail.length, tail⟩) ?_
      (done_of_tail hat hend fun hat17 hmore => ?_)
    · have hle : 1 + tail.length + 3 = b.data.length := by
        rw [← hend]
        simp only [List.length_append, List.length_singleton, Nat.zero_add]
        rfl
      rw [Source.start, hat.left.left.read]
      simp only [bind, Except.bind, hx]
      rw [if_pos (by omega), Nat.add_sub_cancel_left, if_neg hfour,
        if_neg (not_haveOp hb.outLen_lt (by rw [List.length_nil]; omega)),
        if_neg (not_haveIp hb.data_lt (by omega)), hcopy]
    · rw [hlen] at hmore ⊢
      have hat1 : b.At (1 + tail.length) [17] := by
        have h := hat17.right
        rwa [List.length_append, List.length_singleton, Nat.zero_add] at h
      have hgoes : b.Goes (.firstLiteralRun, ⟨1 + tail.length, tail⟩)
          (.matchAt 17, ⟨1 + tail.length + 1, tail⟩) := goes_firstLiteralRun hat1 (by decide)
      rw [Nat.zero_add, ← Nat.add_assoc]
      exact .single hgoes

/-- A stream that is nothing but literals. -/
theorem decompress_literals {tail : List Byte} (hb : b.Sized)
    (hdata : b.data = tailHead [] tail.length ++ tail ++ endBytes) (hroom : tail.length ≤ b.outLen) :
    lzo1xDecompressSafe b = .ok (.ok, tail) := by
  unfold tailHead at hdata
  by_cases hshort : 1 ≤ tail.length ∧ tail.length ≤ 238
  · rw [if_pos ⟨rfl, hshort⟩] at hdata
    exact decompress_short hb hshort.1 hshort.2 hdata hroom
  · rw [if_neg fun h => hshort h.2] at hdata
    have hat : b.At 0 (litHead tail.length ++ tail ++ endBytes) :=
      ⟨[], [], by rw [hdata, List.nil_append, List.append_nil], rfl⟩
    have hend : 0 + (litHead tail.length ++ tail ++ endBytes).length = b.data.length := by
      rw [hdata, Nat.zero_add]
    by_cases hzero : tail.length = 0
    · obtain rfl : tail = [] := List.eq_nil_of_length_eq_zero hzero
      exact decompress_of_reaches (start_of_le hat.read (by decide))
        (done_of_tail hat hend fun hat17 _ => .single (goes_outer_match hat17 (by decide)))
    · have hlt := hb.outLen_lt
      obtain ⟨x, hread, hx, -⟩ := read_litHead hb (by rwa [List.append_assoc] at hat)
        (show 4 ≤ tail.length by omega) (by omega)
      have hroom' : ([] : List Byte).length + tail.length ≤ b.outLen := by
        rwa [List.length_nil, Nat.zero_add]
      exact decompress_of_reaches (start_of_le hread (by omega))
        (done_of_tail hat hend fun hat17 _ =>
          reaches_of_outer hb hat17 (by decide) (by omega) hroom')

/-- **Streams.** The decompressor writes what a stream stands for. -/
theorem decompress_encode {s : Stream} (hb : b.Sized) (hdata : b.data = s.encode)
    (hroom : s.meaning.length ≤ b.outLen) : lzo1xDecompressSafe b = .ok (.ok, s.meaning) := by
  obtain ⟨runs, tail, hfit, hfour⟩ := s
  cases runs with
  | nil => exact decompress_literals hb hdata hroom
  | cons m ms =>
    obtain ⟨hm, hms⟩ := hfit
    have hgrow := length_foldl_apply hms
    rw [Stream.meaning, List.length_append, List.foldl_cons] at hroom
    have hhead : tailHead (m :: ms) tail.length = litHead tail.length :=
      if_neg fun h => absurd h.1 (List.cons_ne_nil _ _)
    have hsplit : b.data = litHead m.lits.length ++ m.lits ++
        matchBytes m.off m.len (low (nextLits ms tail.length)) ++
          (encodeMatches ms tail.length ++ (litHead tail.length ++ tail ++ endBytes)) := by
      simp only [hdata, Stream.encode, hhead, encodeMatches, List.append_assoc]
    have hat : b.At 0 (litHead m.lits.length ++ m.lits ++
        matchBytes m.off m.len (low (nextLits ms tail.length)) ++
          (encodeMatches ms tail.length ++ (litHead tail.length ++ tail ++ endBytes))) :=
      ⟨[], [], by rw [hsplit, List.nil_append, List.append_nil], rfl⟩
    have hlits : ([] : List Byte).length + m.lits.length ≤ b.outLen := by
      rw [hm.length_apply] at hgrow
      omega
    have hlt := hb.outLen_lt
    have hm4 : 4 ≤ m.lits.length := hfour m rfl
    obtain ⟨x, hread, hx, -⟩ := read_litHead (n := m.lits.length) hb
      (by simp only [List.append_assoc] at hat; exact hat) hm4 (by omega)
    obtain ⟨hreach, han⟩ := reaches_matchDone hb hm hat.left (by omega) fun x hx hatx _ =>
      reaches_of_outer hb hatx hx hm4 hlits
    have hend : 0 + (litHead m.lits.length ++ m.lits ++
        matchBytes m.off m.len (low (nextLits ms tail.length))).length +
          (encodeMatches ms tail.length ++ (litHead tail.length ++ tail ++ endBytes)).length =
        b.data.length := by
      rw [hsplit, Nat.zero_add, ← List.length_append]
    obtain ⟨q, hq, hdone⟩ := reaches_end hb hms han hat.right hend hroom
    exact decompress_of_reaches (start_of_le hread (by omega)) ⟨q, hreach.trans hq, hdone⟩

end Whole

/-- **The round trip.** Whatever is compressed, with whatever the work memory had in it, fits
into the buffer that is made for it and comes back, all of it, from any buffer with room
for it. -/
theorem decompress_compress_ok (b : Input) (wrkmem : Dict) (beyond : List Byte) {outLen : ℕ}
    (hlen : b.data.length < 2 ^ 31) (hroom : b.data.length ≤ outLen) (hout : outLen < 2 ^ 32) :
    ∃ compressed wrkmem', lzo1x1Compress b wrkmem = .ok (compressed, wrkmem') ∧
      compressed.length ≤ b.data.length + b.data.length / 16 + 64 + 3 ∧
      lzo1xDecompressSafe ⟨compressed, beyond, outLen⟩ = .ok (.ok, b.data) := by
  obtain ⟨s, wrkmem', hmeaning, hcompress⟩ := compress_eq_encode b wrkmem
  have hsize := s.length_encode_le
  rw [hmeaning] at hsize
  refine ⟨s.encode, wrkmem', hcompress, hsize, ?_⟩
  have hb : Source.Sized ⟨s.encode, beyond, outLen⟩ := ⟨by change s.encode.length < _; omega, hout⟩
  rw [decompress_encode hb rfl (by rwa [hmeaning]), hmeaning]

/-- Twenty bytes that repeat, at an address of their own, and work memory with pointers to the
first of them only. -/
def repeating : Input :=
  ⟨0x10000, [1, 2, 3, 4, 1, 2, 3, 4, 1, 2, 3, 4, 1, 2, 3, 4, 1, 2, 3, 4], by decide, by decide⟩

theorem decompress_compress_ok_repeating :
    ∃ compressed wrkmem', lzo1x1Compress repeating (fun _ => 0x10000) = .ok (compressed, wrkmem') ∧
      compressed.length ≤ repeating.data.length + repeating.data.length / 16 + 64 + 3 ∧
      lzo1xDecompressSafe ⟨compressed, [], 20⟩ = .ok (.ok, repeating.data) :=
  decompress_compress_ok repeating (fun _ => 0x10000) [] (by decide) (by decide) (by decide)

end Snitchaser.Lzo1x
