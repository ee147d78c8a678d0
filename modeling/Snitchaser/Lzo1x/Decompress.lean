import Snitchaser.Lzo1x.Format

/-!
# The decompressor

`lzo1x_decompress_safe` of `lzo1x_decompress.c`. The body is a loop in a loop with jumps
into both and from one to the other; the labels of the source are the places where a run
can stand (`Label`), and a step leads from one to the next.

## The model

* `Source` is the input, with what lies behind it in memory, and the size of the buffer
  for the output. A read behind both is a `segfault`, a write behind the buffer an
  `overrun`.
* `t` is a `size_t`: sums with it are taken modulo `2 ^ 32`, as is the difference that
  `HAVE_IP` and `HAVE_OP` compare.
* `m_pos` is a distance from `op`.
-/

namespace Snitchaser.Lzo1x

open Foundation

/-- The buffers of a run. -/
structure Source where
  /-- The bytes from `in` to `ip_end`. -/
  data : List Byte
  /-- What lies behind them. -/
  beyond : List Byte
  /-- `*out_len`, the size of the buffer `out`. -/
  outLen : ℕ

/-- All that can be read. -/
def Source.mem (b : Source) : List Byte := b.data ++ b.beyond

/-- `*ip`. -/
def Source.read (b : Source) (ip : ℕ) : Except Fault Byte :=
  match b.mem[ip]? with
  | some x => .ok x
  | none => .error .segfault

/-- A write at `op`. -/
def Source.put (b : Source) (out xs : List Byte) : Except Fault (List Byte) :=
  if out.length + xs.length ≤ b.outLen then .ok (out ++ xs) else .error .overrun

/-- `HAVE_IP(x, ip_end, ip)`. -/
def Source.haveIp (b : Source) (x ip : ℕ) : Prop :=
  (b.data.length + 2 ^ 32 - ip) % 2 ^ 32 < x % 2 ^ 32

/-- `HAVE_OP(x, op_end, op)`. -/
def Source.haveOp (b : Source) (x : ℕ) (out : List Byte) : Prop :=
  (b.outLen + 2 ^ 32 - out.length) % 2 ^ 32 < x % 2 ^ 32

/-- `HAVE_LB(m_pos, out, op)`. -/
def haveLb (off : ℕ) (out : List Byte) : Prop := out.length < off ∨ off = 0

instance (b : Source) (x ip : ℕ) : Decidable (b.haveIp x ip) := Nat.decLt _ _

instance (b : Source) (x : ℕ) (out : List Byte) : Decidable (b.haveOp x out) := Nat.decLt _ _

instance (off : ℕ) (out : List Byte) : Decidable (haveLb off out) := instDecidableOr

/-- The variables of a run. -/
structure Cursor where
  /-- `ip`. -/
  ip : ℕ
  /-- The bytes from `out` to `op`. -/
  out : List Byte

/-- A sum as a `size_t`. -/
def sizeT (n : ℕ) : ℕ := n % 2 ^ 32

theorem sizeT_of_lt {n : ℕ} (h : n < 2 ^ 32) : sizeT n = n := Nat.mod_eq_of_lt h

/-- `--t`. -/
def decrement (t : ℕ) : ℕ := sizeT (t + 2 ^ 32 - 1)

theorem decrement_of_pos {t : ℕ} (hpos : 1 ≤ t) (hlt : t < 2 ^ 32) : decrement t = t - 1 := by
  unfold decrement sizeT
  omega

/-! ### Copies -/

/-- `do { *op++ = *ip++; } while (--t > 0)`, for `t` bytes. -/
def copyIn (b : Source) : ℕ → Cursor → Except Fault Cursor
  | 0, s => .ok s
  | t + 1, s => do
    let x ← b.read s.ip
    let out ← b.put s.out [x]
    copyIn b t ⟨s.ip + 1, out⟩

/-- `COPY4(op, ip); op += 4; ip += 4`. -/
def copy4In (b : Source) (s : Cursor) : Except Fault Cursor := do
  let x₀ ← b.read s.ip
  let x₁ ← b.read (s.ip + 1)
  let x₂ ← b.read (s.ip + 2)
  let x₃ ← b.read (s.ip + 3)
  let out ← b.put s.out [x₀, x₁, x₂, x₃]
  .ok ⟨s.ip + 4, out⟩

/-- Four bytes at a time while `t >= 4`, and then byte by byte. -/
def copyIn4 (b : Source) : ℕ → Cursor → Except Fault Cursor
  | t + 4, s => do
    let s ← copy4In b s
    copyIn4 b t s
  | t, s => copyIn b t s

/-- What is left of a run of literals after the first four. -/
def copyRest (b : Source) (t : ℕ) (s : Cursor) : Except Fault Cursor :=
  if t > 0 then
    if t ≥ 4 then copyIn4 b t s else copyIn b t s
  else .ok s

/-- The literals of a run, of which `t` is three less. -/
def copyLiterals (b : Source) (t : ℕ) (s : Cursor) : Except Fault Cursor := do
  let s ← copy4In b s
  copyRest b (decrement t) s

/-- `*m_pos`. -/
def readBack (out : List Byte) (off : ℕ) : Except Fault Byte :=
  if haveLb off out then .error .segfault
  else
    match out[out.length - off]? with
    | some x => .ok x
    | none => .error .segfault

/-- `*op++ = *m_pos++`, for `n` bytes. -/
def copyOut (b : Source) (off : ℕ) : ℕ → List Byte → Except Fault (List Byte)
  | 0, out => .ok out
  | n + 1, out => do
    let x ← readBack out off
    let out ← b.put out [x]
    copyOut b off n out

/-- `COPY4(op, m_pos); op += 4; m_pos += 4`. -/
def copy4Out (b : Source) (off : ℕ) (out : List Byte) : Except Fault (List Byte) := do
  let x₀ ← readBack out off
  let x₁ ← readBack out (off - 1)
  let x₂ ← readBack out (off - 2)
  let x₃ ← readBack out (off - 3)
  b.put out [x₀, x₁, x₂, x₃]

/-- Four bytes at a time while `t >= 4`, and then byte by byte. -/
def copyOut4 (b : Source) (off : ℕ) : ℕ → List Byte → Except Fault (List Byte)
  | t + 4, out => do
    let out ← copy4Out b off out
    copyOut4 b off t out
  | t, out => copyOut b off t out

/-- `copy_match`. The loop has its test at the end. -/
def copyMatch (b : Source) (off t : ℕ) (out : List Byte) : Except Fault (List Byte) := do
  let out ← copyOut b off 2 out
  copyOut b off (if t = 0 then 2 ^ 32 else t) out

/-- The copy for a match that may be long. -/
def copyLong (b : Source) (off t : ℕ) (out : List Byte) : Except Fault (List Byte) :=
  if t ≥ 2 * 4 - (3 - 1) ∧ off ≥ 4 then do
    let out ← copy4Out b off out
    copyOut4 b off (t - (4 - (3 - 1))) out
  else copyMatch b off t out

/-! ### Numbers -/

/-- `while (*ip == 0) { t += 255; ip++; .. }`, with the test for the end of the input
before each round. -/
def skipZeros (b : Source) : ℕ → ℕ → ℕ → Except Fault (Option (ℕ × ℕ))
  | 0, _, _ => .error .diverges
  | n + 1, t, ip =>
    if b.haveIp 1 ip then .ok none
    else do
      let x ← b.read ip
      if x = 0 then skipZeros b n (sizeT (t + 255)) (ip + 1) else .ok (some (t, ip))

/-- A number that goes on in more bytes if `t == 0`: with `t` and `ip` after that, or
`goto input_overrun`. -/
def readCount (b : Source) (t base ip : ℕ) : Except Fault (Option (ℕ × ℕ)) :=
  if t = 0 then do
    match ← skipZeros b (b.mem.length + 1 - ip) t ip with
    | none => .ok none
    | some (t, ip) =>
      let x ← b.read ip
      .ok (some (sizeT (t + base + x.toNat), ip + 1))
  else .ok (some (t, ip))

/-- `get_unaligned_le16(ip)`. -/
def le16 (b : Source) (ip : ℕ) : Except Fault ℕ := do
  let x₀ ← b.read ip
  let x₁ ← b.read (ip + 1)
  .ok (x₀.toNat + x₁.toNat * 256)

/-! ### The run -/

/-- What is returned. -/
inductive Code where
  /-- `LZO_E_OK`. -/
  | ok
  /-- `LZO_E_INPUT_OVERRUN`. -/
  | inputOverrun
  /-- `LZO_E_OUTPUT_OVERRUN`. -/
  | outputOverrun
  /-- `LZO_E_LOOKBEHIND_OVERRUN`. -/
  | lookbehindOverrun
  /-- `LZO_E_EOF_NOT_FOUND`. -/
  | eofNotFound
  /-- `LZO_E_INPUT_NOT_CONSUMED`. -/
  | inputNotConsumed
  deriving DecidableEq

/-- Where a run stands, with `t` where it is still read. -/
inductive Label where
  /-- The test of the outer loop. -/
  | outer
  /-- `first_literal_run`. -/
  | firstLiteralRun
  /-- `match`. -/
  | matchAt (t : ℕ)
  /-- `match_done`. -/
  | matchDone
  /-- `match_next`. -/
  | matchNext (t : ℕ)
  deriving DecidableEq

/-- Where a step leads. -/
inductive Next where
  /-- On to a label. -/
  | goto (l : Label) (s : Cursor)
  /-- A return, with the output so far. -/
  | done (c : Code) (out : List Byte)

/-- A match of `t + 2` bytes: the tests, and the copy. -/
def copyChecked (b : Source) (copy : Source → ℕ → ℕ → List Byte → Except Fault (List Byte))
    (off t : ℕ) (s : Cursor) : Except Fault Next :=
  if haveLb off s.out then .ok (.done .lookbehindOverrun s.out)
  else if b.haveOp (t + 3 - 1) s.out then .ok (.done .outputOverrun s.out)
  else do .ok (.goto .matchDone ⟨s.ip, ← copy b off t s.out⟩)

/-- A match of two or three bytes, of those with a distance of their own. -/
def copyFixed (b : Source) (off n : ℕ) (s : Cursor) : Except Fault Next :=
  if haveLb off s.out then .ok (.done .lookbehindOverrun s.out)
  else if b.haveOp n s.out then .ok (.done .outputOverrun s.out)
  else do .ok (.goto .matchDone ⟨s.ip, ← copyOut b off n s.out⟩)

/-- The outer loop, up to `first_literal_run`. -/
def stepOuter (b : Source) (s : Cursor) : Except Fault Next :=
  if s.ip < b.data.length then do
    let t := (← b.read s.ip).toNat
    let ip := s.ip + 1
    if t ≥ 16 then .ok (.goto (.matchAt t) ⟨ip, s.out⟩)
    else
      match ← readCount b t 15 ip with
      | none => .ok (.done .inputOverrun s.out)
      | some (t, ip) =>
        if b.haveOp (t + 3) s.out then .ok (.done .outputOverrun s.out)
        else if b.haveIp (t + 4) ip then .ok (.done .inputOverrun s.out)
        else do .ok (.goto .firstLiteralRun (← copyLiterals b t ⟨ip, s.out⟩))
  else .ok (.done .eofNotFound s.out)

/-- `first_literal_run`. -/
def stepFirstLiteralRun (b : Source) (s : Cursor) : Except Fault Next := do
  let t := (← b.read s.ip).toNat
  if t ≥ 16 then .ok (.goto (.matchAt t) ⟨s.ip + 1, s.out⟩)
  else
    let x ← b.read (s.ip + 1)
    copyFixed b (1 + m2MaxOffset + (t >>> 2) + (x.toNat <<< 2)) 3 ⟨s.ip + 2, s.out⟩

/-- `eof_found`. -/
def eofFound (b : Source) (s : Cursor) : Next :=
  .done (if s.ip = b.data.length then .ok
    else if s.ip < b.data.length then .inputNotConsumed else .inputOverrun) s.out

/-- A match that is not in the nearest part of the output, or the end. -/
def copyFar (b : Source) (off t : ℕ) (s : Cursor) : Except Fault Next :=
  if off = 0 then .ok (eofFound b s) else copyChecked b copyLong (off + 0x4000) t s

/-- `match`. -/
def stepMatch (b : Source) (t : ℕ) (s : Cursor) : Except Fault Next :=
  if t ≥ 64 then do
    let x ← b.read s.ip
    copyChecked b copyMatch (1 + ((t >>> 2) &&& 7) + (x.toNat <<< 3)) ((t >>> 5) - 1)
      ⟨s.ip + 1, s.out⟩
  else if t ≥ 32 then do
    match ← readCount b (t &&& 31) 31 s.ip with
    | none => .ok (.done .inputOverrun s.out)
    | some (t, ip) =>
      let w ← le16 b ip
      copyChecked b copyLong (1 + (w >>> 2)) t ⟨ip + 2, s.out⟩
  else if t ≥ 16 then do
    match ← readCount b (t &&& 7) 7 s.ip with
    | none => .ok (.done .inputOverrun s.out)
    | some (t', ip) =>
      let w ← le16 b ip
      copyFar b (((t &&& 8) <<< 11) + (w >>> 2)) t' ⟨ip + 2, s.out⟩
  else do
    let x ← b.read s.ip
    copyFixed b (1 + (t >>> 2) + (x.toNat <<< 2)) 2 ⟨s.ip + 1, s.out⟩

/-- `match_done`: `ip[-2]` says how many literals follow. -/
def stepMatchDone (b : Source) (s : Cursor) : Except Fault Next :=
  if s.ip < 2 then .error .segfault
  else do
    let t := (← b.read (s.ip - 2)).toNat &&& 3
    if t = 0 then .ok (.goto .outer s) else .ok (.goto (.matchNext t) s)

/-- `match_next`, with the test of the inner loop. -/
def stepMatchNext (b : Source) (t : ℕ) (s : Cursor) : Except Fault Next :=
  if b.haveOp t s.out then .ok (.done .outputOverrun s.out)
  else if b.haveIp (t + 1) s.ip then .ok (.done .inputOverrun s.out)
  else do
    let s ← copyIn b (if t > 1 then if t > 2 then 3 else 2 else 1) s
    let t := (← b.read s.ip).toNat
    let ip := s.ip + 1
    if ip < b.data.length then .ok (.goto (.matchAt t) ⟨ip, s.out⟩)
    else .ok (.goto .outer ⟨ip, s.out⟩)

/-- One step. -/
def Source.step (b : Source) : Label → Cursor → Except Fault Next
  | .outer, s => stepOuter b s
  | .firstLiteralRun, s => stepFirstLiteralRun b s
  | .matchAt t, s => stepMatch b t s
  | .matchDone, s => stepMatchDone b s
  | .matchNext t, s => stepMatchNext b t s

/-- The steps from a label on. -/
def Source.run (b : Source) : ℕ → Label → Cursor → Except Fault (Code × List Byte)
  | 0, _, _ => .error .diverges
  | n + 1, l, s => do
    match ← b.step l s with
    | .goto l s => b.run n l s
    | .done c out => .ok (c, out)

/-- What comes before the loops. -/
def Source.start (b : Source) : Except Fault Next := do
  let x := (← b.read 0).toNat
  if x > 17 then
    let t := x - 17
    if t < 4 then .ok (.goto (.matchNext t) ⟨1, []⟩)
    else if b.haveOp t [] then .ok (.done .outputOverrun [])
    else if b.haveIp (t + 1) 1 then .ok (.done .inputOverrun [])
    else do .ok (.goto .firstLiteralRun (← copyIn b t ⟨1, []⟩))
  else .ok (.goto .outer ⟨0, []⟩)

/-- How many steps are left at most: each reads a byte at least, but for those at
`match_done`, which no two of follow each other. -/
def Source.left (b : Source) : Label → Cursor → ℕ
  | .matchDone, s => 2 * (b.mem.length - s.ip) + 1
  | _, s => 2 * (b.mem.length - s.ip)

/-- `lzo1x_decompress_safe`: the code, and the output. -/
def lzo1xDecompressSafe (b : Source) : Except Fault (Code × List Byte) := do
  match ← b.start with
  | .goto l s => b.run (b.left l s + 1) l s
  | .done c out => .ok (c, out)

/-! ### What the parts do -/

section Parts

variable {b : Source}

theorem Source.read_of_lt {i : ℕ} (h : i < b.mem.length) : b.read i = .ok (b.mem.getD i 0) := by
  rw [read, List.getD_eq_getElem?_getD, List.getElem?_eq_getElem h, Option.getD_some]

theorem Source.put_of_le {out xs : List Byte} (h : out.length + xs.length ≤ b.outLen) :
    b.put out xs = .ok (out ++ xs) := if_pos h

/-- Some bytes of memory. -/
def Source.slice (b : Source) (i n : ℕ) : List Byte := (b.mem.drop i).take n

theorem Source.length_slice {i n : ℕ} (h : i + n ≤ b.mem.length) : (b.slice i n).length = n := by
  rw [slice, List.length_take, List.length_drop]
  omega

theorem Source.slice_add (i m n : ℕ) : b.slice i (m + n) = b.slice i m ++ b.slice (i + m) n := by
  rw [slice, slice, slice, List.take_add, List.drop_drop]

theorem Source.slice_one {i : ℕ} (h : i < b.mem.length) : b.slice i 1 = [b.mem.getD i 0] := by
  rw [slice, List.drop_eq_getElem_cons h, List.take_succ_cons, List.take_zero,
    List.getD_eq_getElem?_getD, List.getElem?_eq_getElem h, Option.getD_some]

theorem copyIn_eq {n : ℕ} {s : Cursor} (hin : s.ip + n ≤ b.mem.length)
    (hout : s.out.length + n ≤ b.outLen) :
    copyIn b n s = .ok ⟨s.ip + n, s.out ++ b.slice s.ip n⟩ := by
  induction n generalizing s with
  | zero =>
    rw [copyIn, Source.slice, List.take_zero, List.append_nil]
    rfl
  | succ n ih =>
    have hput : b.put s.out [b.mem.getD s.ip 0] = .ok (s.out ++ [b.mem.getD s.ip 0]) :=
      Source.put_of_le (by rw [List.length_singleton]; omega)
    rw [copyIn, b.read_of_lt (by omega)]
    simp only [bind, Except.bind, hput]
    rw [ih (by change s.ip + 1 + n ≤ _; omega) (by rw [List.length_append, List.length_singleton]; omega),
      Nat.add_comm n 1, Source.slice_add, Source.slice_one (by omega), List.append_assoc,
      Nat.add_assoc]

theorem copy4In_eq {s : Cursor} (hin : s.ip + 4 ≤ b.mem.length) (hout : s.out.length + 4 ≤ b.outLen) :
    copy4In b s = .ok ⟨s.ip + 4, s.out ++ b.slice s.ip 4⟩ := by
  have hslice : b.slice s.ip 4 = [b.mem.getD s.ip 0, b.mem.getD (s.ip + 1) 0,
      b.mem.getD (s.ip + 2) 0, b.mem.getD (s.ip + 3) 0] := by
    rw [b.slice_add s.ip 1 3, b.slice_add _ 1 2, b.slice_add _ 1 1, Source.slice_one (by omega),
      Source.slice_one (by omega), Source.slice_one (by omega), Source.slice_one (by omega)]
    rfl
  have hput : b.put s.out (b.slice s.ip 4) = .ok (s.out ++ b.slice s.ip 4) :=
    b.put_of_le (by rwa [b.length_slice hin])
  rw [hslice] at hput ⊢
  rw [copy4In, b.read_of_lt (by omega), b.read_of_lt (by omega), b.read_of_lt (by omega),
    b.read_of_lt (by omega)]
  simp only [bind, Except.bind, hput]

theorem copyIn4_eq {t : ℕ} {s : Cursor} (hin : s.ip + t ≤ b.mem.length)
    (hout : s.out.length + t ≤ b.outLen) :
    copyIn4 b t s = .ok ⟨s.ip + t, s.out ++ b.slice s.ip t⟩ := by
  fun_induction copyIn4 b t s with
  | case1 t s ih =>
    rw [copy4In_eq (by omega) (by omega)]
    simp only [bind, Except.bind]
    rw [ih _ (by change s.ip + 4 + t ≤ _; omega)
      (by rw [List.length_append, b.length_slice (by omega)]; omega),
      show t.succ.succ.succ.succ = 4 + t by omega, Source.slice_add, List.append_assoc,
      Nat.add_assoc]
  | case2 t s => exact copyIn_eq hin hout

/-- The rest of a run, in fours or not. -/
theorem copyRest_eq {t : ℕ} {s : Cursor} (hin : s.ip + t ≤ b.mem.length)
    (hout : s.out.length + t ≤ b.outLen) :
    copyRest b t s = .ok ⟨s.ip + t, s.out ++ b.slice s.ip t⟩ := by
  unfold copyRest
  split_ifs with hpos hfour
  · exact copyIn4_eq hin hout
  · exact copyIn_eq hin hout
  · obtain rfl : t = 0 := by omega
    exact copyIn_eq hin hout

theorem copyLiterals_eq {t : ℕ} {s : Cursor} (hpos : 1 ≤ t) (hlt : t < 2 ^ 32)
    (hin : s.ip + (t + 3) ≤ b.mem.length) (hout : s.out.length + (t + 3) ≤ b.outLen) :
    copyLiterals b t s = .ok ⟨s.ip + (t + 3), s.out ++ b.slice s.ip (t + 3)⟩ := by
  have hlen := b.length_slice (i := s.ip) (n := 4) (by omega)
  rw [copyLiterals, copy4In_eq (by omega) (by omega), decrement_of_pos hpos hlt]
  simp only [bind, Except.bind]
  rw [copyRest_eq (by change s.ip + 4 + (t - 1) ≤ _; omega)
    (by rw [List.length_append, hlen]; omega), show t + 3 = 4 + (t - 1) by omega,
    Source.slice_add, List.append_assoc, Nat.add_assoc]

theorem readBack_eq {out : List Byte} {off : ℕ} (hpos : 1 ≤ off) (hle : off ≤ out.length) :
    ∃ x, readBack out off = .ok x ∧ out[out.length - off]? = some x := by
  obtain ⟨x, hx, -⟩ := toList_getElem?_back hpos hle
  refine ⟨x, ?_, hx⟩
  rw [readBack, if_neg (by unfold haveLb; omega), hx]

theorem copyOut_eq {off n : ℕ} {out : List Byte} (hpos : 1 ≤ off) (hle : off ≤ out.length)
    (hout : out.length + n ≤ b.outLen) : copyOut b off n out = .ok (copyBack off n out) := by
  induction n generalizing out with
  | zero => rfl
  | succ n ih =>
    obtain ⟨x, hread, hx⟩ := readBack_eq hpos hle
    have hput : b.put out [x] = .ok (out ++ [x]) :=
      Source.put_of_le (by rw [List.length_singleton]; omega)
    rw [copyOut, hread]
    simp only [bind, Except.bind, hput]
    rw [ih (by rw [List.length_append]; omega)
      (by rw [List.length_append, List.length_singleton]; omega), copyBack_succ, hx,
      Option.toList_some]

/-- Four bytes at once, no nearer than four bytes, are those that would be copied one by
one. -/
theorem copy4Out_eq {off : ℕ} {out : List Byte} (hfour : 4 ≤ off) (hle : off ≤ out.length)
    (hout : out.length + 4 ≤ b.outLen) : copy4Out b off out = .ok (copyBack off 4 out) := by
  obtain ⟨x₀, hr₀, hx₀⟩ := readBack_eq (show 1 ≤ off by omega) hle
  obtain ⟨x₁, hr₁, hx₁⟩ := readBack_eq (show 1 ≤ off - 1 by omega) (show _ ≤ out.length by omega)
  obtain ⟨x₂, hr₂, hx₂⟩ := readBack_eq (show 1 ≤ off - 2 by omega) (show _ ≤ out.length by omega)
  obtain ⟨x₃, hr₃, hx₃⟩ := readBack_eq (show 1 ≤ off - 3 by omega) (show _ ≤ out.length by omega)
  have hblock : (out.drop (out.length - off)).take 4 = [x₀, x₁, x₂, x₃] := by
    rw [List.take_add_one, List.take_add_one, List.take_add_one, List.take_add_one, List.take_zero]
    simp only [List.getElem?_drop, Nat.add_zero]
    rw [hx₀, show out.length - off + 1 = out.length - (off - 1) by omega, hx₁,
      show out.length - off + 2 = out.length - (off - 2) by omega, hx₂,
      show out.length - off + 3 = out.length - (off - 3) by omega, hx₃]
    rfl
  rw [copyBack_eq_append hfour hle, hblock, copy4Out, hr₀, hr₁, hr₂, hr₃]
  exact Source.put_of_le hout

theorem copyOut4_eq {off t : ℕ} {out : List Byte} (hfour : 4 ≤ off) (hle : off ≤ out.length)
    (hout : out.length + t ≤ b.outLen) : copyOut4 b off t out = .ok (copyBack off t out) := by
  fun_induction copyOut4 b off t out with
  | case1 t out ih =>
    have hlen := length_copyBack 4 (by omega : 1 ≤ off) hle
    rw [copy4Out_eq hfour hle (by omega)]
    simp only [bind, Except.bind]
    rw [ih _ (by omega) (by omega), show t.succ.succ.succ.succ = 4 + t by omega, copyBack_add]
  | case2 t out => exact copyOut_eq (by omega) hle hout

section Match

variable {off t : ℕ} {out : List Byte}

theorem copyMatch_eq (ht : 1 ≤ t) (hpos : 1 ≤ off) (hle : off ≤ out.length)
    (hout : out.length + (t + 2) ≤ b.outLen) :
    copyMatch b off t out = .ok (copyBack off (t + 2) out) := by
  have hlen := length_copyBack 2 hpos hle
  rw [copyMatch, copyOut_eq hpos hle (by omega), if_neg (by omega)]
  simp only [bind, Except.bind]
  rw [copyOut_eq hpos (by omega) (by omega), Nat.add_comm t 2, copyBack_add]

/-- **The fast copy.** Where it is taken it copies what the plain one would. -/
theorem copyLong_eq (ht : 1 ≤ t) (hpos : 1 ≤ off) (hle : off ≤ out.length)
    (hout : out.length + (t + 2) ≤ b.outLen) :
    copyLong b off t out = .ok (copyBack off (t + 2) out) := by
  unfold copyLong
  split_ifs with hfast
  · have hlen := length_copyBack 4 hpos hle
    rw [copy4Out_eq hfast.2 hle (by omega)]
    simp only [bind, Except.bind]
    rw [copyOut4_eq hfast.2 (by omega) (by omega), ← copyBack_add]
    congr 2
    omega
  · exact copyMatch_eq ht hpos hle hout

end Match

end Parts

end Snitchaser.Lzo1x
