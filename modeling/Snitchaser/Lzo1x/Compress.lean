import Snitchaser.Lzo1x.Format
import Mathlib.Data.Nat.Bitwise

/-!
# The compressor

`lzo1x_compress.c`. At each position of the input a hash of the next four bytes chooses a
pointer of the work memory. Where it points to the same bytes, not too far back, there is
a match; where not, the position goes on as a literal. The pointer is set to the position
in either case.

The work memory is not cleared before a run: it has the pointers that the run before left,
or anything. So a pointer is looked at before it is used, and what it leads to is compared
byte by byte.

## The model

* Positions in the input are distances from `in`, the pointers of the work memory are
  words. `Input` is the buffer: it does not lie in the lowest pages of memory, so no
  pointer above it is a small distance away, as a `size_t`.
* A read outside the input is a `segfault`. A write before the output (`op[-2]`, where
  nothing is written yet) is an `overrun`.

## What is proved

`compress_eq_encode`: with any work memory the compressor writes a stream that stands for
the input. It does not read outside of the input, or write before the output.
-/

namespace Snitchaser.Lzo1x

open Foundation

/-- `D_MASK`. -/
def dMask : Word := 0x3fff

/-- `D_HIGH`. -/
def dHigh : Word := 0x2000

/-- The work memory, `dict`. -/
abbrev Dict : Type := Word → Word

/-- The buffer with the input. -/
structure Input where
  /-- `in`. -/
  base : ℕ
  /-- The bytes from there to `in_end`. -/
  data : List Byte
  above : m4MaxOffset ≤ base
  inside : base + data.length ≤ 2 ^ 32

/-- A byte of the input. -/
def Input.read (b : Input) (i : ℕ) : Except Fault Byte :=
  match b.data[i]? with
  | some x => .ok x
  | none => .error .segfault

/-- A position as a pointer. -/
def Input.ptr (b : Input) (i : ℕ) : Word := BitVec.ofNat 32 (b.base + i)

/-- `DX2(p, s1, s2)`. -/
def dx2 (p₀ p₁ p₂ : Byte) (s₁ s₂ : ℕ) : Word :=
  ((p₂.setWidth 32 <<< s₂ ^^^ p₁.setWidth 32) <<< s₁) ^^^ p₀.setWidth 32

/-- `DX3(p, s1, s2, s3)`. -/
def dx3 (p₀ p₁ p₂ p₃ : Byte) (s₁ s₂ s₃ : ℕ) : Word :=
  (dx2 p₁ p₂ p₃ s₂ s₃ <<< s₁) ^^^ p₀.setWidth 32

/-- The `dindex` that is tried first. -/
def firstIndex (b : Input) (ip : ℕ) : Except Fault Word := do
  let p₀ ← b.read ip
  let p₁ ← b.read (ip + 1)
  let p₂ ← b.read (ip + 2)
  let p₃ ← b.read (ip + 3)
  .ok (((0x21 * dx3 p₀ p₁ p₂ p₃ 5 5 6) >>> 5) &&& dMask)

/-- The `dindex` that is tried next. -/
def secondIndex (dindex : Word) : Word := (dindex &&& (dMask &&& 0x7ff)) ^^^ (dHigh ||| 0x1f)

/-- Where a pointer of the work memory leads. -/
inductive Probe where
  /-- `goto literal`. -/
  | literal
  /-- `goto try_match`, with `m_pos` at a position of the input. -/
  | tryMatch (m : ℕ)
  /-- Neither. -/
  | next

/-- What is asked of `m_pos = dict[dindex]`. -/
def probe (b : Input) (ip : ℕ) (mPos : Word) : Except Fault Probe :=
  if mPos.toNat < b.base then .ok .literal
  else if b.ptr ip = mPos ∨ (b.ptr ip - mPos).toNat > m4MaxOffset then .ok .literal
  else
    let m := mPos.toNat - b.base
    if (b.ptr ip - mPos).toNat ≤ m2MaxOffset then .ok (.tryMatch m)
    else do
      if (← b.read (m + 3)) = (← b.read (ip + 3)) then .ok (.tryMatch m) else .ok .next

/-- `try_match`: are the first three bytes the same? -/
def sameStart (b : Input) (m ip : ℕ) : Except Fault Bool := do
  if (← b.read m) = (← b.read ip) ∧ (← b.read (m + 1)) = (← b.read (ip + 1)) then
    .ok ((← b.read (m + 2)) = (← b.read (ip + 2)))
  else .ok false

/-- From `try_match` to `match`, with `m_pos`, or to `literal`. -/
def tryMatch (b : Input) (m ip : ℕ) : Except Fault (Option ℕ) := do
  if ← sameStart b m ip then .ok (some m) else .ok none

/-- The body of the loop up to `literal` or `match`: the `dindex` to set, and `m_pos` of a
match. -/
def search (b : Input) (dict : Dict) (ip : ℕ) : Except Fault (Word × Option ℕ) := do
  let dindex ← firstIndex b ip
  match ← probe b ip (dict dindex) with
  | .literal => .ok (dindex, none)
  | .tryMatch m => .ok (dindex, ← tryMatch b m ip)
  | .next =>
    let dindex := secondIndex dindex
    match ← probe b ip (dict dindex) with
    | .literal => .ok (dindex, none)
    | .tryMatch m => .ok (dindex, ← tryMatch b m ip)
    | .next => .ok (dindex, none)

/-- `op[-2] |= t`. -/
def orBack (out : List Byte) (t : ℕ) : Except Fault (List Byte) :=
  if out.length < 2 then .error .overrun
  else .ok (out.modify (out.length - 2) (· ||| BitVec.ofNat 8 t))

/-- `while (tt > 255) { tt -= 255; *op++ = 0; } *op++ = tt`. -/
def putCount : ℕ → ℕ → List Byte
  | 0, tt => [BitVec.ofNat 8 tt]
  | n + 1, tt => if tt > 255 then 0 :: putCount n (tt - 255) else [BitVec.ofNat 8 tt]

/-- What is written before `t` literals. -/
def putLitHead (out : List Byte) (t : ℕ) : Except Fault (List Byte) :=
  if t ≤ 3 then orBack out t
  else if t ≤ 18 then .ok (out ++ [BitVec.ofNat 8 (t - 3)])
  else
    let tt := t - 18
    .ok (out ++ 0 :: putCount tt tt)

/-- `do { *op++ = *ii++; } while (--t > 0)`: the bytes. -/
def readMany (b : Input) : ℕ → ℕ → Except Fault (List Byte)
  | _, 0 => .ok []
  | ii, t + 1 => do
    let x ← b.read ii
    let xs ← readMany b (ii + 1) t
    .ok (x :: xs)

/-- `m3_m4_offset`. -/
def putOffset (mOff : ℕ) : List Byte :=
  [BitVec.ofNat 8 ((mOff &&& 63) <<< 2), BitVec.ofNat 8 (mOff >>> 6)]

/-- A match of at most `M2_MAX_LEN` bytes. -/
def shortMatch (mOff mLen : ℕ) : List Byte :=
  if mOff ≤ m2MaxOffset then
    let mOff := mOff - 1
    [BitVec.ofNat 8 (((mLen - 1) <<< 5) ||| ((mOff &&& 7) <<< 2)), BitVec.ofNat 8 (mOff >>> 3)]
  else if mOff ≤ m3MaxOffset then
    BitVec.ofNat 8 (m3Marker ||| (mLen - 2)) :: putOffset (mOff - 1)
  else
    let mOff := mOff - 0x4000
    BitVec.ofNat 8 (m4Marker ||| ((mOff &&& 0x4000) >>> 11) ||| (mLen - 2)) :: putOffset mOff

/-- A longer match. -/
def longMatch (mOff mLen : ℕ) : List Byte :=
  if mOff ≤ m3MaxOffset then
    let mOff := mOff - 1
    if mLen ≤ 33 then BitVec.ofNat 8 (m3Marker ||| (mLen - 2)) :: putOffset mOff
    else
      let mLen := mLen - 33
      BitVec.ofNat 8 (m3Marker ||| 0) :: (putCount mLen mLen ++ putOffset mOff)
  else
    let mOff := mOff - 0x4000
    if mLen ≤ m4MaxLen then
      BitVec.ofNat 8 (m4Marker ||| ((mOff &&& 0x4000) >>> 11) ||| (mLen - 2)) :: putOffset mOff
    else
      let mLen := mLen - m4MaxLen
      BitVec.ofNat 8 (m4Marker ||| ((mOff &&& 0x4000) >>> 11)) ::
        (putCount mLen mLen ++ putOffset mOff)

/-- `m_pos[k] != *ip++ || ..`, for `n` bytes: the first that is different. -/
def firstDiff (b : Input) (m ip : ℕ) : ℕ → ℕ → Except Fault (Option ℕ)
  | _, 0 => .ok none
  | k, n + 1 => do
    if (← b.read (m + k)) ≠ (← b.read (ip + k)) then .ok (some k) else firstDiff b m ip (k + 1) n

/-- `while (ip < end && *m == *ip) { m++; ip++; }`, with `n` bytes to the end: how far it
goes. -/
def sameRun (b : Input) : ℕ → ℕ → ℕ → Except Fault ℕ
  | _, _, 0 => .ok 0
  | m, ip, n + 1 => do
    if (← b.read m) = (← b.read ip) then .ok ((← sameRun b (m + 1) (ip + 1) n) + 1) else .ok 0

/-- `match`, behind the literals: `m_len`, and the bytes written. -/
def putMatch (b : Input) (m ip : ℕ) : Except Fault (ℕ × List Byte) := do
  match ← firstDiff b m ip 3 6 with
  | some mLen => .ok (mLen, shortMatch (ip - m) mLen)
  | none =>
    let more ← sameRun b (m + m2MaxLen + 1) (ip + 9) (b.data.length - (ip + 9))
    let mLen := 9 + more
    .ok (mLen, longMatch (ip - m) mLen)

/-- The variables of the loop. -/
structure Loop where
  /-- `ip`. -/
  ip : ℕ
  /-- `ii`. -/
  ii : ℕ
  /-- The work memory. -/
  dict : Dict
  /-- The bytes from `out` to `op`. -/
  out : List Byte

/-- The literals before a match, where there are any. -/
def putLiterals (b : Input) (s : Loop) : Except Fault (List Byte) :=
  if s.ip ≠ s.ii then do
    let t := s.ip - s.ii
    let out ← putLitHead s.out t
    .ok (out ++ (← readMany b s.ii t))
  else .ok s.out

/-- The body of the loop. -/
def step (b : Input) (s : Loop) : Except Fault Loop := do
  let (dindex, found) ← search b s.dict s.ip
  let dict := Function.update s.dict dindex (b.ptr s.ip)
  match found with
  | none => .ok { s with dict := dict, ip := s.ip + 1 }
  | some m =>
    let out ← putLiterals b s
    let (mLen, bytes) ← putMatch b m s.ip
    .ok ⟨s.ip + mLen, s.ip + mLen, dict, out ++ bytes⟩

/-- The loop, of so many rounds at most. -/
def loop (b : Input) : ℕ → Loop → Except Fault Loop
  | 0, _ => .error .diverges
  | n + 1, s => do
    let s ← step b s
    if s.ip ≥ b.data.length - m2MaxLen - 5 then .ok s else loop b n s

/-- `_lzo1x_1_do_compress`: the output, how much is left of the input, and the work
memory. -/
def lzo1x1DoCompress (b : Input) (wrkmem : Dict) : Except Fault (List Byte × ℕ × Dict) := do
  let s ← loop b b.data.length ⟨4, 0, wrkmem, []⟩
  .ok (s.out, b.data.length - s.ii, s.dict)

/-- The literals at the end of `lzo1x_1_compress`. -/
def putTail (b : Input) (out : List Byte) (t : ℕ) : Except Fault (List Byte) :=
  if t > 0 then do
    let ii := b.data.length - t
    let out ←
      if out = [] ∧ t ≤ 238 then .ok (out ++ [BitVec.ofNat 8 (17 + t)]) else putLitHead out t
    .ok (out ++ (← readMany b ii t))
  else .ok out

/-- `lzo1x_1_compress`: the output, and the work memory. -/
def lzo1x1Compress (b : Input) (wrkmem : Dict) : Except Fault (List Byte × Dict) := do
  let (out, t, wrkmem) ←
    if b.data.length ≤ m2MaxLen + 5 then .ok ([], b.data.length, wrkmem)
    else lzo1x1DoCompress b wrkmem
  let out ← putTail b out t
  .ok (out ++ [BitVec.ofNat 8 (m4Marker ||| 1), 0, 0], wrkmem)

/-! ### Reads -/

/-- A byte of the input, where there is one. -/
def Input.byte (b : Input) (i : ℕ) : Byte := b.data.getD i 0

theorem Input.getElem?_of_lt {b : Input} {i : ℕ} (h : i < b.data.length) :
    b.data[i]? = some (b.byte i) := by
  rw [byte, List.getD_eq_getElem?_getD, List.getElem?_eq_getElem h, Option.getD_some]

theorem Input.read_of_lt {b : Input} {i : ℕ} (h : i < b.data.length) : b.read i = .ok (b.byte i) := by
  rw [read, getElem?_of_lt h]

theorem readMany_eq {b : Input} {i n : ℕ} (h : i + n ≤ b.data.length) :
    readMany b i n = .ok ((b.data.drop i).take n) := by
  induction n generalizing i with
  | zero => rfl
  | succ n ih =>
    have hi : i < b.data.length := by omega
    have hdrop : b.data.drop i = b.byte i :: b.data.drop (i + 1) := by
      rw [List.drop_eq_getElem_cons hi, Input.byte, List.getD_eq_getElem?_getD,
        List.getElem?_eq_getElem hi, Option.getD_some]
    rw [hdrop, List.take_succ_cons, readMany, b.read_of_lt hi, ih (by omega)]
    rfl

/-- The same `n` bytes at two positions. -/
def Same (b : Input) (m ip n : ℕ) : Prop := ∀ k < n, b.byte (m + k) = b.byte (ip + k)

theorem Same.succ {b : Input} {m ip n : ℕ} (h : Same b m ip n)
    (hn : b.byte (m + n) = b.byte (ip + n)) : Same b m ip (n + 1) := by
  intro k hk
  obtain hlt | rfl := Nat.lt_succ_iff_lt_or_eq.mp hk
  · exact h k hlt
  · exact hn

/-! ### The search -/

section Search

variable {b : Input} {ip : ℕ}

theorem toNat_ptr (h : ip < b.data.length) : (b.ptr ip).toNat = b.base + ip := by
  have := b.inside
  rw [Input.ptr, toNat_ofNat_of_lt (by omega)]

/-- A pointer that is not too far away, as a `size_t`, lies before the position. -/
theorem lt_of_near {mPos : Word} (h : ip < b.data.length) (hne : b.ptr ip ≠ mPos)
    (hnear : (b.ptr ip - mPos).toNat ≤ m4MaxOffset) :
    mPos.toNat < b.base + ip ∧ (b.ptr ip - mPos).toNat = b.base + ip - mPos.toNat := by
  have habove := b.above
  have hlt := mPos.isLt
  have hptr := toNat_ptr h
  have hne' : b.base + ip ≠ mPos.toNat := by
    rw [← hptr]
    exact fun e => hne (BitVec.eq_of_toNat_eq e)
  have hinside := b.inside
  rw [BitVec.toNat_sub, hptr] at hnear ⊢
  omega

/-- What may be relied on about a match that was found. -/
structure Found (b : Input) (ip m : ℕ) : Prop where
  lt : m < ip
  near : ip - m ≤ m4MaxOffset
  far : m2MaxOffset < ip - m → b.byte (m + 3) = b.byte (ip + 3)

theorem probe_spec (hip : ip + 4 ≤ b.data.length) (mPos : Word) :
    ∃ p, probe b ip mPos = .ok p ∧ ∀ m, p = .tryMatch m → Found b ip m := by
  unfold probe
  split_ifs with hbelow hfar hm2
  · exact ⟨_, rfl, nofun⟩
  · exact ⟨_, rfl, nofun⟩
  · obtain ⟨hne, hnear⟩ := not_or.mp hfar
    obtain ⟨hlt, hoff⟩ := lt_of_near (by omega) hne (Nat.not_lt.mp hnear)
    refine ⟨_, rfl, ?_⟩
    rintro m ⟨⟩
    exact ⟨by omega, by omega, fun h => by omega⟩
  · obtain ⟨hne, hnear⟩ := not_or.mp hfar
    obtain ⟨hlt, hoff⟩ := lt_of_near (by omega) hne (Nat.not_lt.mp hnear)
    dsimp only
    rw [b.read_of_lt (show mPos.toNat - b.base + 3 < _ by omega),
      b.read_of_lt (show ip + 3 < _ by omega)]
    by_cases hsame : b.byte (mPos.toNat - b.base + 3) = b.byte (ip + 3)
    · refine ⟨.tryMatch (mPos.toNat - b.base), if_pos hsame, ?_⟩
      rintro m ⟨⟩
      exact ⟨by omega, by omega, fun _ => hsame⟩
    · exact ⟨.next, if_neg hsame, nofun⟩

theorem tryMatch_spec {m : ℕ} (hip : ip + 4 ≤ b.data.length) (hm : m < ip) :
    ∃ r, tryMatch b m ip = .ok r ∧ ∀ m', r = some m' → m' = m ∧ Same b m ip 3 := by
  unfold tryMatch sameStart
  rw [b.read_of_lt (show m < _ by omega), b.read_of_lt (show ip < _ by omega),
    b.read_of_lt (show m + 1 < _ by omega), b.read_of_lt (show ip + 1 < _ by omega),
    b.read_of_lt (show m + 2 < _ by omega), b.read_of_lt (show ip + 2 < _ by omega)]
  by_cases h₀ : b.byte m = b.byte ip ∧ b.byte (m + 1) = b.byte (ip + 1)
  · by_cases h₂ : b.byte (m + 2) = b.byte (ip + 2)
    · refine ⟨some m, by simp [h₀, h₂, bind, Except.bind], ?_⟩
      rintro m' ⟨⟩
      exact ⟨rfl, Same.succ (Same.succ (Same.succ (fun k hk => absurd hk (by omega)) h₀.1) h₀.2) h₂⟩
    · exact ⟨none, by simp [h₀, h₂, bind, Except.bind], nofun⟩
  · exact ⟨none, by simp [h₀, bind, Except.bind], nofun⟩

theorem search_spec (dict : Dict) (hip : ip + 4 ≤ b.data.length) :
    ∃ r, search b dict ip = .ok r ∧ ∀ m, r.2 = some m → Found b ip m ∧ Same b m ip 3 := by
  obtain ⟨d, hd⟩ : ∃ d, firstIndex b ip = .ok d := by
    unfold firstIndex
    rw [b.read_of_lt (show ip < _ by omega), b.read_of_lt (show ip + 1 < _ by omega),
      b.read_of_lt (show ip + 2 < _ by omega), b.read_of_lt (show ip + 3 < _ by omega)]
    exact ⟨_, rfl⟩
  -- Either pointer may be the one that is tried.
  have htry : ∀ dindex m, Found b ip m → ∃ r : Word × Option ℕ,
      (do .ok (dindex, ← tryMatch b m ip) : Except Fault (Word × Option ℕ)) = .ok r ∧
        ∀ m, r.2 = some m → Found b ip m ∧ Same b m ip 3 := by
    intro dindex m hfound
    obtain ⟨r, hr, hsame⟩ := tryMatch_spec hip hfound.lt
    refine ⟨(dindex, r), by rw [hr]; rfl, fun m' hm' => ?_⟩
    obtain ⟨rfl, h3⟩ := hsame m' hm'
    exact ⟨hfound, h3⟩
  unfold search
  rw [hd]
  obtain ⟨p, hp, hfound⟩ := probe_spec hip (dict d)
  simp only [bind, Except.bind, hp]
  cases p with
  | literal => exact ⟨_, rfl, nofun⟩
  | tryMatch m => exact htry d m (hfound m rfl)
  | next =>
    obtain ⟨p, hp, hfound⟩ := probe_spec hip (dict (secondIndex d))
    simp only [hp]
    cases p with
    | literal => exact ⟨_, rfl, nofun⟩
    | tryMatch m => exact htry (secondIndex d) m (hfound m rfl)
    | next => exact ⟨_, rfl, nofun⟩

end Search

/-! ### What is written -/

theorem putCount_eq_count {f n : ℕ} (hn : 1 ≤ n) (hf : n ≤ 255 * f + 255) :
    putCount f n = count n := by
  induction f generalizing n with
  | zero =>
    have hz : zeroBytes n = 0 := by unfold zeroBytes; omega
    rw [putCount, count, hz]
    rfl
  | succ f ih =>
    rw [putCount]
    by_cases hlt : n > 255
    · have hz : zeroBytes n = zeroBytes (n - 255) + 1 := by unfold zeroBytes; omega
      rw [if_pos hlt, ih (by omega) (by omega), count, count, hz, List.replicate_succ,
        List.cons_append, Nat.mul_add, Nat.mul_one, Nat.add_comm _ 255, Nat.sub_sub]
    · have hz : zeroBytes n = 0 := by unfold zeroBytes; omega
      rw [if_neg hlt, count, hz]
      rfl

theorem putOffset_eq (d : ℕ) : putOffset d = offBytes d 0 := by
  rw [putOffset, offBytes, Nat.and_two_pow_sub_one_eq_mod d 6, Nat.shiftLeft_eq,
    Nat.shiftRight_eq_div_pow, Nat.add_zero]

theorem m3Marker_or {l : ℕ} (h : l ≤ 31) : m3Marker ||| l = m3Marker + l :=
  (Nat.two_pow_add_eq_or_of_lt (i := 5) (by omega) 1).symm

theorem and_shiftRight {d : ℕ} (h : d < 0x8000) : (d &&& 0x4000) >>> 11 = d / 0x4000 * 8 := by
  have hand : d &&& 0x4000 = (d.testBit 14).toNat * 2 ^ 14 := Nat.and_two_pow d 14
  have hbit : (d.testBit 14).toNat = d / 0x4000 := by
    rw [Nat.toNat_testBit]
    omega
  rw [hand, hbit, Nat.shiftRight_eq_div_pow]
  omega

theorem m4Marker_or {d l : ℕ} (hd : d < 0x8000) (hl : l ≤ 7) :
    m4Marker ||| ((d &&& 0x4000) >>> 11) ||| l = m4Marker + d / 0x4000 * 8 + l := by
  have hall : ∀ q < 2, ∀ l < 8, 16 ||| q * 8 ||| l = 16 + q * 8 + l := by decide
  rw [and_shiftRight hd]
  exact hall _ (by omega) l (by omega)

theorem shortMatch_eq {off len : ℕ} (hoff : 1 ≤ off) (hmax : off ≤ m4MaxOffset) (hlen : 3 ≤ len)
    (hshort : len ≤ m2MaxLen) : shortMatch off len = matchBytes off len 0 := by
  have h8 : len ≤ 8 := hshort
  have hb : off ≤ 0xbfff := hmax
  unfold shortMatch matchBytes
  by_cases hm2 : off ≤ m2MaxOffset
  · have hor : ((len - 1) <<< 5) ||| (((off - 1) &&& 7) <<< 2) =
        (len - 1) * 32 + (off - 1) % 8 * 4 := by
      rw [Nat.and_two_pow_sub_one_eq_mod _ 3, Nat.shiftLeft_eq _ 2,
        ← Nat.shiftLeft_add_eq_or_of_lt (by omega), Nat.shiftLeft_eq]
    rw [if_pos hm2, if_pos ⟨hshort, hm2⟩]
    dsimp only
    rw [hor, Nat.shiftRight_eq_div_pow, Nat.add_zero]
  · have hnm2 : ¬ (len ≤ m2MaxLen ∧ off ≤ m2MaxOffset) := fun h => hm2 h.2
    rw [if_neg hm2, if_neg hnm2]
    by_cases hm3 : off ≤ m3MaxOffset
    · rw [if_pos hm3, if_pos hm3, m3Marker_or (by omega), putOffset_eq, lenBytes,
        if_pos (by omega)]
      rfl
    · rw [if_neg hm3, if_neg hm3]
      dsimp only
      rw [m4Marker_or (by omega) (by omega), putOffset_eq, lenBytes, if_pos (by omega)]
      rfl

theorem longMatch_eq {off len : ℕ} (hmax : off ≤ m4MaxOffset) (hlong : m2MaxLen < len) :
    longMatch off len = matchBytes off len 0 := by
  have h8 : 8 < len := hlong
  have hb : off ≤ 0xbfff := hmax
  have hnm2 : ¬ (len ≤ m2MaxLen ∧ off ≤ m2MaxOffset) := fun h => absurd h.1 (Nat.not_le.mpr hlong)
  unfold longMatch matchBytes lenBytes
  rw [if_neg hnm2]
  by_cases hm3 : off ≤ m3MaxOffset
  · rw [if_pos hm3, if_pos hm3]
    dsimp only
    by_cases h33 : len ≤ 33
    · rw [if_pos h33, if_pos (show len - 2 ≤ 31 by omega), m3Marker_or (by omega), putOffset_eq]
      rfl
    · rw [if_neg h33, if_neg (show ¬ len - 2 ≤ 31 by omega), Nat.or_zero, putOffset_eq,
        putCount_eq_count (by omega) (by omega), Nat.sub_sub]
      rfl
  · rw [if_neg hm3, if_neg hm3]
    dsimp only
    by_cases h9 : len ≤ m4MaxLen
    · have h9' : len ≤ 9 := h9
      rw [if_pos h9, if_pos (show len - 2 ≤ 7 by omega), m4Marker_or (by omega) (by omega),
        putOffset_eq]
      rfl
    · have h9' : ¬ len ≤ 9 := h9
      have hmarker : m4Marker ||| (((off - 0x4000) &&& 0x4000) >>> 11) =
          m4Marker + (off - 0x4000) / 0x4000 * 8 := by
        have h := m4Marker_or (d := off - 0x4000) (l := 0) (by omega) (by omega)
        rwa [Nat.or_zero, Nat.add_zero] at h
      rw [if_neg h9, if_neg (show ¬ len - 2 ≤ 7 by omega), hmarker, putOffset_eq,
        putCount_eq_count (by unfold m4MaxLen; omega) (by omega), Nat.sub_sub]
      rfl

/-! ### Literals -/

/-- Only the last byte but one of a match depends on the literals that follow. -/
theorem matchBytes_eq (off len : ℕ) :
    ∃ pre c y, ∀ t, matchBytes off len t = pre ++ [BitVec.ofNat 8 (4 * c + t), y] := by
  unfold matchBytes offBytes
  split_ifs
  · refine ⟨[], (len - 1) * 8 + (off - 1) % 8, BitVec.ofNat 8 ((off - 1) / 8), fun t => ?_⟩
    rw [List.nil_append, show 4 * ((len - 1) * 8 + (off - 1) % 8) + t =
      (len - 1) * 32 + (off - 1) % 8 * 4 + t by omega]
  · exact ⟨_, (off - 1) % 64, _, fun t => by rw [Nat.mul_comm 4]⟩
  · exact ⟨_, (off - 0x4000) % 64, _, fun t => by rw [Nat.mul_comm 4]⟩

theorem orBack_append (pre : List Byte) (x y : Byte) (t : ℕ) :
    orBack (pre ++ [x, y]) t = .ok (pre ++ [x ||| BitVec.ofNat 8 t, y]) := by
  have hlen : (pre ++ [x, y]).length = pre.length + 2 := by
    rw [List.length_append]
    rfl
  rw [orBack, if_neg (by omega), hlen, Nat.add_sub_cancel,
    List.modify_eq_take_cons_drop (by omega)]
  simp

theorem ofNat_or_ofNat {c t : ℕ} (ht : t ≤ 3) :
    BitVec.ofNat 8 (4 * c) ||| BitVec.ofNat 8 t = BitVec.ofNat 8 (4 * c + t) := by
  rw [← BitVec.ofNat_or]
  congr 1
  exact (Nat.two_pow_add_eq_or_of_lt (i := 2) (by omega) c).symm

theorem encodeMatches_append (ms ms' : List Match) (tail : ℕ) :
    encodeMatches (ms ++ ms') tail =
      encodeMatches ms (nextLits ms' tail) ++ encodeMatches ms' tail := by
  induction ms with
  | nil => rfl
  | cons m ms ih =>
    have hnext : nextLits (ms ++ ms') tail = nextLits ms (nextLits ms' tail) := by cases ms <;> rfl
    rw [List.cons_append, encodeMatches, encodeMatches, ih, hnext, List.append_assoc _ _ (encodeMatches ms' tail)]

theorem encodeMatches_of_low (ms : List Match) {t : ℕ} (h : low t = 0) :
    encodeMatches ms t = encodeMatches ms 0 := by
  induction ms with
  | nil => rfl
  | cons m ms ih =>
    have hnext : low (nextLits ms t) = low (nextLits ms 0) := by
      cases ms with
      | nil => exact h
      | cons => rfl
    rw [encodeMatches, encodeMatches, ih, hnext]

/-- The literals that follow are announced in the last match. -/
theorem orBack_encodeMatches {ms : List Match} (hne : ms ≠ []) {t : ℕ} (ht : t ≤ 3) :
    orBack (encodeMatches ms 0) t = .ok (encodeMatches ms t) := by
  obtain ⟨init, m, rfl⟩ := (List.eq_nil_or_concat' ms).resolve_left hne
  obtain ⟨pre, c, y, hm⟩ := matchBytes_eq m.off m.len
  have hlow : low t = t := if_pos ht
  rw [encodeMatches_append, encodeMatches_append]
  simp only [encodeMatches, nextLits, hm, hlow, List.append_nil, ← List.append_assoc]
  rw [orBack_append]
  simp [low, ofNat_or_ofNat ht]

theorem putLitHead_eq {ms : List Match} {t : ℕ} (h : ms = [] → 4 ≤ t) :
    putLitHead (encodeMatches ms 0) t = .ok (encodeMatches ms t ++ litHead t) := by
  unfold putLitHead litHead
  by_cases h3 : t ≤ 3
  · have hne : ms ≠ [] := fun hms => absurd (h hms) (by omega)
    rw [if_pos h3, if_pos h3, orBack_encodeMatches hne h3, List.append_nil]
  · rw [if_neg h3, if_neg h3, encodeMatches_of_low ms (if_neg h3)]
    by_cases h18 : t ≤ 18
    · rw [if_pos h18, if_pos h18]
    · rw [if_neg h18, if_neg h18]
      dsimp only
      rw [putCount_eq_count (by omega) (by omega)]

/-! ### Matches -/

section Match

variable {b : Input} {m ip : ℕ}

theorem firstDiff_spec {k n : ℕ} (hm : m < ip) (hlen : ip + k + n ≤ b.data.length)
    (hsame : Same b m ip k) :
    ∃ r, firstDiff b m ip k n = .ok r ∧ (r = none → Same b m ip (k + n)) ∧
      ∀ j, r = some j → j < k + n ∧ k ≤ j ∧ Same b m ip j ∧ b.byte (m + j) ≠ b.byte (ip + j) := by
  induction n generalizing k with
  | zero => exact ⟨none, rfl, fun _ => hsame, nofun⟩
  | succ n ih =>
    rw [firstDiff, b.read_of_lt (show m + k < _ by omega), b.read_of_lt (show ip + k < _ by omega)]
    by_cases hne : b.byte (m + k) ≠ b.byte (ip + k)
    · refine ⟨some k, if_pos hne, nofun, ?_⟩
      rintro j ⟨⟩
      exact ⟨by omega, le_rfl, hsame, hne⟩
    · obtain ⟨r, hr, hnone, hsome⟩ := ih (by omega) (hsame.succ (not_not.mp hne))
      refine ⟨r, (if_neg hne).trans hr, fun h => ?_, fun j hj => ?_⟩
      · rw [← Nat.add_right_comm, Nat.add_assoc] at hnone
        exact hnone h
      · obtain ⟨h₁, h₂, h₃⟩ := hsome j hj
        exact ⟨by omega, by omega, h₃⟩

theorem sameRun_spec {n : ℕ} (hm : m < ip) (hlen : ip + n ≤ b.data.length) :
    ∃ r ≤ n, sameRun b m ip n = .ok r ∧ Same b m ip r := by
  induction n generalizing m ip with
  | zero => exact ⟨0, le_rfl, rfl, fun k hk => absurd hk (Nat.not_lt_zero k)⟩
  | succ n ih =>
    rw [sameRun, b.read_of_lt (show m < _ by omega), b.read_of_lt (show ip < _ by omega)]
    by_cases heq : b.byte m = b.byte ip
    · obtain ⟨r, hle, hr, hsame⟩ := ih (show m + 1 < ip + 1 by omega) (by omega)
      refine ⟨r + 1, by omega, (if_pos heq).trans (by rw [hr]; rfl), fun k hk => ?_⟩
      cases k with
      | zero => exact heq
      | succ k =>
        have h := hsame k (by omega)
        rwa [Nat.add_assoc, Nat.add_comm 1 k, Nat.add_assoc, Nat.add_comm 1 k] at h
    · exact ⟨0, by omega, if_neg heq, fun k hk => absurd hk (Nat.not_lt_zero k)⟩

/-- The match behind the literals: a run of the same bytes, in the form for its length and
its distance. -/
theorem putMatch_spec (hfound : Found b ip m) (hsame : Same b m ip 3)
    (hip : ip + 10 ≤ b.data.length) :
    ∃ mLen, putMatch b m ip = .ok (mLen, matchBytes (ip - m) mLen 0) ∧ 3 ≤ mLen ∧
      (m2MaxOffset < ip - m → 4 ≤ mLen) ∧ ip + mLen ≤ b.data.length ∧ Same b m ip mLen := by
  have hlt := hfound.lt
  obtain ⟨r, hr, hnone, hsome⟩ := firstDiff_spec (n := 6) hlt (by omega) hsame
  cases r with
  | some j =>
    obtain ⟨hj9, hj3, hsj, hne⟩ := hsome j rfl
    refine ⟨j, ?_, hj3, fun hfar => ?_, by omega, hsj⟩
    · rw [putMatch, hr, ← shortMatch_eq (by omega) hfound.near hj3 (by unfold m2MaxLen; omega)]
      rfl
    · by_contra hj
      obtain rfl : j = 3 := by omega
      exact hne (hfound.far hfar)
  | none =>
    obtain ⟨more, hmore, hrun, hsm⟩ := sameRun_spec (show m + 9 < ip + 9 by omega)
      (show ip + 9 + (b.data.length - (ip + 9)) ≤ b.data.length by omega)
    have h9 := hnone rfl
    refine ⟨9 + more, ?_, by omega, fun _ => by omega, by omega, fun k hk => ?_⟩
    · have hrun' : sameRun b (m + m2MaxLen + 1) (ip + 9) (b.data.length - (ip + 9)) = .ok more := hrun
      rw [← longMatch_eq hfound.near (by unfold m2MaxLen; omega), putMatch, hr]
      simp only [bind, Except.bind, hrun']
    · by_cases hk9 : k < 9
      · exact h9 k hk9
      · have h := hsm (k - 9) (by omega)
        rwa [show m + 9 + (k - 9) = m + k by omega, show ip + 9 + (k - 9) = ip + k by omega] at h

end Match

/-! ### The loop -/

/-- What was written so far stands for the input up to `ii`. -/
structure Written (b : Input) (s : Loop) (ms : List Match) : Prop where
  out_eq : s.out = encodeMatches ms 0
  meaning_eq : ms.foldl Match.apply [] = b.data.take s.ii
  fit : Fit [] ms
  four_le : ∀ m ∈ ms.head?, 4 ≤ m.lits.length
  ii_eq_zero : ms = [] → s.ii = 0
  ii_le : s.ii ≤ s.ip
  ip_ge : 4 ≤ s.ip
  ip_le : s.ip ≤ b.data.length

section Step

variable {b : Input} {s : Loop} {ms : List Match}

theorem putLiterals_spec (h : Written b s ms) :
    putLiterals b s = .ok (encodeMatches ms (s.ip - s.ii) ++ litHead (s.ip - s.ii) ++
      (b.data.drop s.ii).take (s.ip - s.ii)) := by
  have hii := h.ii_le
  have hip := h.ip_le
  unfold putLiterals
  by_cases hne : s.ip ≠ s.ii
  · have hfour : ms = [] → 4 ≤ s.ip - s.ii := fun hms => by
      have := h.ii_eq_zero hms
      have := h.ip_ge
      omega
    rw [if_pos hne, h.out_eq]
    dsimp only
    rw [putLitHead_eq hfour, readMany_eq (by omega)]
    rfl
  · rw [if_neg hne, h.out_eq, show s.ip - s.ii = 0 by omega, List.take_zero, List.append_nil]
    exact congrArg Except.ok (List.append_nil _).symm

/-- A match that was found is added to what is written. -/
theorem Written.snoc (h : Written b s ms) {m mLen : ℕ} (dict : Dict) (hfound : Found b s.ip m)
    (hlen : 3 ≤ mLen) (hfar : m2MaxOffset < s.ip - m → 4 ≤ mLen)
    (hle : s.ip + mLen ≤ b.data.length) (hsame : Same b m s.ip mLen) :
    Written b ⟨s.ip + mLen, s.ip + mLen, dict, encodeMatches ms (s.ip - s.ii) ++
        litHead (s.ip - s.ii) ++ (b.data.drop s.ii).take (s.ip - s.ii) ++
          matchBytes (s.ip - m) mLen 0⟩
      (ms ++ [⟨(b.data.drop s.ii).take (s.ip - s.ii), s.ip - m, mLen⟩]) := by
  have hii := h.ii_le
  have hlt := hfound.lt
  have hlits : ((b.data.drop s.ii).take (s.ip - s.ii)).length = s.ip - s.ii := by
    rw [List.length_take, List.length_drop]
    omega
  have hupto : b.data.take s.ii ++ (b.data.drop s.ii).take (s.ip - s.ii) = b.data.take s.ip := by
    rw [← List.take_add, Nat.add_sub_cancel' hii]
  have hcopy : copyBack (s.ip - m) mLen (b.data.take s.ip) = b.data.take (s.ip + mLen) := by
    refine copyBack_take (by omega) (by omega) hle fun k hk => ?_
    rw [show s.ip - (s.ip - m) + k = m + k by omega, Input.getElem?_of_lt (by omega),
      Input.getElem?_of_lt (by omega), hsame k hk]
  constructor
  · rw [encodeMatches_append]
    simp only [encodeMatches, nextLits, hlits, List.append_nil, List.append_assoc]
    rfl
  · rw [List.foldl_append, h.meaning_eq, List.foldl_cons, List.foldl_nil, Match.apply, hupto]
    exact hcopy
  · refine fit_append.mpr ⟨h.fit, ⟨by change 1 ≤ s.ip - m; omega, ?_, hfound.near, hlen, hfar⟩, trivial⟩
    rw [h.meaning_eq, hupto, List.length_take_of_le (by omega)]
    exact Nat.sub_le _ _
  · intro x hx
    cases ms with
    | nil =>
      obtain rfl : _ = x := Option.some.inj hx
      have := h.ii_eq_zero rfl
      have := h.ip_ge
      simp only [hlits]
      omega
    | cons => exact h.four_le x hx
  · exact fun hnil => absurd hnil (by simp)
  · exact le_rfl
  · have := h.ip_ge
    change 4 ≤ s.ip + mLen
    omega
  · exact hle

/-- **One round.** It goes on in the input, and what was written is the input up to `ii`. -/
theorem step_written (h : Written b s ms) (hip : s.ip + 10 ≤ b.data.length) :
    ∃ s' ms', step b s = .ok s' ∧ Written b s' ms' ∧ s.ip < s'.ip := by
  obtain ⟨⟨dindex, found⟩, hr, hfound⟩ := search_spec (b := b) s.dict (show s.ip + 4 ≤ _ by omega)
  cases found with
  | none =>
    refine ⟨⟨s.ip + 1, s.ii, Function.update s.dict dindex (b.ptr s.ip), s.out⟩, ms,
      by rw [step, hr]; rfl, ?_, Nat.lt_succ_self _⟩
    exact { h with
      ii_le := Nat.le_succ_of_le h.ii_le
      ip_ge := Nat.le_succ_of_le h.ip_ge
      ip_le := by change s.ip + 1 ≤ _; omega }
  | some m =>
    obtain ⟨hm, h3⟩ := hfound m rfl
    obtain ⟨mLen, hput, hlen, hfar, hle, hsame⟩ := putMatch_spec hm h3 hip
    refine ⟨_, _, ?_, h.snoc (Function.update s.dict dindex (b.ptr s.ip)) hm hlen hfar hle hsame,
      by change s.ip < s.ip + mLen; omega⟩
    rw [step, hr]
    simp only [bind, Except.bind, putLiterals_spec h, hput]

/-- **The loop.** It ends, with the input written up to `ii`. -/
theorem loop_written {n : ℕ} (h : Written b s ms) (hip : s.ip + 10 ≤ b.data.length)
    (hn : b.data.length < s.ip + n) : ∃ s' ms', loop b n s = .ok s' ∧ Written b s' ms' := by
  induction n generalizing s ms with
  | zero => omega
  | succ n ih =>
    obtain ⟨s', ms', hstep, h', hlt⟩ := step_written h hip
    rw [loop, hstep]
    by_cases hend : s'.ip ≥ b.data.length - m2MaxLen - 5
    · exact ⟨s', ms', if_pos hend, h'⟩
    · have hgo : s'.ip + 13 < b.data.length := by
        unfold m2MaxLen at hend
        omega
      obtain ⟨s'', ms'', hloop, h''⟩ := ih h' (by omega) (by omega)
      exact ⟨s'', ms'', (if_neg hend).trans hloop, h''⟩

end Step

/-! ### The whole -/

/-- What was written is empty only where there is no match. -/
theorem encodeMatches_eq_nil {ms : List Match} {t : ℕ} : encodeMatches ms t = [] ↔ ms = [] := by
  cases ms with
  | nil => exact iff_of_true rfl rfl
  | cons m ms =>
    refine iff_of_false (fun h => ?_) (List.cons_ne_nil _ _)
    have hlen := two_le_length_matchBytes m.off m.len (low (nextLits ms t))
    simp only [encodeMatches, List.append_eq_nil_iff] at h
    rw [h.1.2] at hlen
    exact absurd hlen (by simp)

theorem putTail_eq {b : Input} {ms : List Match} {ii : ℕ} (hii : ii ≤ b.data.length)
    (hnil : ms = [] → ii = 0) :
    putTail b (encodeMatches ms 0) (b.data.length - ii) =
      .ok (encodeMatches ms (b.data.drop ii).length ++ tailHead ms (b.data.drop ii).length ++
        b.data.drop ii) := by
  have hlen : (b.data.drop ii).length = b.data.length - ii := List.length_drop
  have hread : readMany b (b.data.length - (b.data.length - ii)) (b.data.length - ii) =
      .ok (b.data.drop ii) := by
    rw [readMany_eq (by omega), Nat.sub_sub_self hii, List.take_of_length_le (by omega)]
  unfold putTail tailHead
  rw [hlen]
  by_cases hpos : b.data.length - ii > 0
  · rw [if_pos hpos]
    dsimp only
    rw [hread]
    by_cases hms : ms = [] ∧ b.data.length - ii ≤ 238
    · obtain ⟨rfl, h238⟩ := hms
      rw [if_pos ⟨rfl, h238⟩, if_pos ⟨rfl, hpos, h238⟩]
      rfl
    · have hshort : ¬ (encodeMatches ms 0 = [] ∧ b.data.length - ii ≤ 238) := by
        rwa [encodeMatches_eq_nil]
      rw [if_neg hshort, if_neg (fun h => hms ⟨h.1, h.2.2⟩), putLitHead_eq (fun h => by
        by_contra h4
        exact hms ⟨h, by omega⟩)]
      rfl
  · have hzero : b.data.length - ii = 0 := by omega
    have hdrop : b.data.drop ii = [] := List.drop_eq_nil_of_le (by omega)
    rw [if_neg hpos, hzero, hdrop, if_neg (by omega), List.append_nil]
    exact congrArg Except.ok (List.append_nil _).symm

/-- **The compressor.** With any work memory it writes a stream that stands for the
input. -/
theorem compress_eq_encode (b : Input) (wrkmem : Dict) :
    ∃ (s : Stream) (wrkmem' : Dict), s.meaning = b.data ∧
      lzo1x1Compress b wrkmem = .ok (s.encode, wrkmem') := by
  unfold lzo1x1Compress
  by_cases hshort : b.data.length ≤ m2MaxLen + 5
  · refine ⟨⟨[], b.data, trivial, nofun⟩, wrkmem, rfl, ?_⟩
    have htail := putTail_eq (Nat.zero_le b.data.length) fun _ : ([] : List Match) = [] => rfl
    rw [Nat.sub_zero, List.drop_zero] at htail
    change putTail b [] b.data.length = _ at htail
    rw [if_pos hshort]
    simp only [bind, Except.bind, htail]
    rfl
  · have hlen : 14 ≤ b.data.length := by
      unfold m2MaxLen at hshort
      omega
    have hstart : Written b ⟨4, 0, wrkmem, []⟩ [] :=
      ⟨rfl, rfl, trivial, nofun, fun _ => rfl, Nat.zero_le _, le_rfl, by
        change 4 ≤ _
        omega⟩
    obtain ⟨s, ms, hloop, h⟩ := loop_written (n := b.data.length) hstart
      (by change 4 + 10 ≤ _; omega) (by change _ < 4 + _; omega)
    refine ⟨⟨ms, b.data.drop s.ii, h.fit, h.four_le⟩, s.dict, ?_, ?_⟩
    · rw [Stream.meaning, h.meaning_eq, List.take_append_drop]
    · have htail := putTail_eq (h.ii_le.trans h.ip_le) h.ii_eq_zero
      rw [← h.out_eq] at htail
      rw [if_neg hshort, lzo1x1DoCompress, hloop]
      simp only [bind, Except.bind, htail]
      rfl

end Snitchaser.Lzo1x
