import Snitchaser.Common.Defs
import Snitchaser.Foundation.X86State

/-!
# Reading and writing the target's memory

The kernel lets a tracer see the memory of the target one word at a time. `ptrace_dupmem` and
`ptrace_updmem` make bytes out of that: the first peeks all words the range touches and copies
the bytes out of them; the second pokes whole words, and at a ragged end it peeks the word and
pokes it back with some bytes changed.

## The model

The target's memory is a `Mem`; a peek is `load32`, a poke is `store32`, and both succeed. The
source buffer is the list of bytes from `src` to `src_end`, so that `len` is its length. What
`xmalloc` returns is uninitialised: its contents are a parameter. A copy beyond the end of a
buffer is a fault. The loops take fuel.

## What is proved

`pokeFragment_ok` and `pokeLoop_ok` say what the parts of an update write; put together, an update
is one `store` of the source (`ptraceUpdmem_ok`), for every alignment. With `ptraceDupmem_ok` comes
`updmem_dupmem_iff`: the update is exact and is read back **if and only if** the range, rounded
out to words, ends before the last address and is no longer than an `int` can say.
-/

namespace Snitchaser.Host

open Foundation Foundation.X86

/-! ### Words and bytes -/

/-- `LONGSZ`. -/
def longsz : Word := 4

/-- What a copy into the bytes of `val` leaves there. -/
def patch (val : Word) (offset : ℕ) (bytes : List Byte) : Except Fault Word :=
  if offset + bytes.length ≤ 4 then
    .ok (leWord ((leBytes val).take offset ++ bytes ++ (leBytes val).drop (offset + bytes.length)))
  else .error .overrun

/-- A word is peeked, some of its bytes are replaced, and it is poked back. -/
def pokeFragment (m : Mem) (word : Word) (offset : ℕ) (bytes : List Byte) : Except Fault Mem := do
  let val ← patch (load32 m word) offset bytes
  .ok (store32 m word val)

/-! ### `ptrace_dupmem` -/

/-- `while (target_ptr < target_end)`: what is written of `tmp_ptr` so far, and what is left
of it. -/
def peekLoop (m : Mem) (targetEnd : Word) : ℕ → Word → List Byte → List Byte → Except Fault (List Byte)
  | 0, _, _, _ => .error .diverges
  | fuel + 1, targetPtr, done, room =>
    if targetPtr < targetEnd then
      if room.length < 4 then .error .overrun
      else peekLoop m targetEnd fuel (targetPtr + longsz) (done ++ leBytes (load32 m targetPtr))
        (room.drop 4)
    else .ok (done ++ room)

/-- `ptrace_dupmem`, with these bytes in the memory `xmalloc` returns. -/
def ptraceDupmem (heap : ℕ → Byte) (fuel : ℕ) (m : Mem) (addr : Word) (len : ℕ) :
    Except Fault (List Byte) := do
  let targetStart := alignDown addr longsz
  let targetEnd := alignUp (addr + BitVec.ofNat 32 len) longsz
  -- `int tmp_sz`
  assert (longsz.toInt ≤ (targetEnd - targetStart).toInt) "tmp_sz >= (int)LONGSZ"
  let tmp ← peekLoop m targetEnd fuel targetStart []
    ((List.range (targetEnd - targetStart).toNat).map heap)
  if tmp.length < (addr - targetStart).toNat + len then .error .segfault
  else .ok ((tmp.drop (addr - targetStart).toNat).take len)

/-! ### `ptrace_updmem` -/

/-- `while (ptr < to)`: the memory, the next address and what is left of the source. -/
def pokeLoop (ptrEnd : Word) : ℕ → Mem → Word → List Byte → Except Fault (Mem × Word × List Byte)
  | 0, _, _, _ => .error .diverges
  | fuel + 1, m, ptr, src =>
    if ptr < ptrEnd then
      if src.length < 4 then .error .segfault
      else pokeLoop ptrEnd fuel (store32 m ptr (leWord src)) (ptr + longsz) (src.drop 4)
    else .ok (m, ptr, src)

/-- The head fragment: up to the end of the word `addr` is in. -/
def updHead (m : Mem) (addr : Word) (src : List Byte) : Except Fault (Mem × Word × List Byte) :=
  if addr % longsz ≠ 0 then do
    let fragWord := alignDown addr longsz
    let offset := (addr % longsz).toNat
    let cpLen := min src.length (longsz.toNat - offset)
    let m ← pokeFragment m fragWord offset (src.take cpLen)
    .ok (m, addr + BitVec.ofNat 32 cpLen, src.drop cpLen)
  else .ok (m, addr, src)

/-- The main contents and the tail fragment. -/
def updRest (fuel : ℕ) (m : Mem) (addr : Word) (src : List Byte) : Except Fault Mem := do
  assert (addr % longsz = 0) "addr % LONGSZ == 0"
  let (m, ptr, src) ← pokeLoop (alignDown (addr + BitVec.ofNat 32 src.length) longsz) fuel m addr src
  if src = [] then .ok m
  else pokeFragment m ptr 0 src

/-- `ptrace_updmem`. -/
def ptraceUpdmem (fuel : ℕ) (m : Mem) (addr : Word) (src : List Byte) : Except Fault Mem :=
  if src = [] then .ok m
  else do
    let (m, addr, src) ← updHead m addr src
    if src = [] then .ok m else updRest fuel m addr src

/-! ### Rounding -/

theorem toNat_mod_longsz (v : Word) : (v % longsz).toNat = v.toNat % 4 := BitVec.toNat_umod

theorem toNat_alignDown_longsz (v : Word) : (alignDown v longsz).toNat = v.toNat / 4 * 4 :=
  toNat_alignDown v (k := 2) (by decide)

/-- Where a word begins and how far into it an address is. -/
theorem alignDown_add (v : Word) : alignDown v longsz + BitVec.ofNat 32 (v % longsz).toNat = v := by
  have hv := v.isLt
  apply BitVec.eq_of_toNat_eq
  rw [toNat_mod_longsz, toNat_add_ofNat] <;> rw [toNat_alignDown_longsz] <;> omega

/-! ### The parts of an update -/

/-- **A fragment is written, and nothing else.** -/
theorem pokeFragment_ok (m : Mem) (word : Word) {offset : ℕ} {bytes : List Byte}
    (h : offset + bytes.length ≤ 4) :
    pokeFragment m word offset bytes = .ok (store m (word + BitVec.ofNat 32 offset) bytes) := by
  set val := leBytes (load32 m word) with hval
  have hsplit : val.take offset ++ (val.drop offset).take bytes.length ++
      val.drop (offset + bytes.length) = val := by
    rw [← List.drop_drop, List.append_assoc, List.take_append_drop, List.take_append_drop]
  have hoffset : (val.take offset).length = offset := by
    simp [hval]
    omega
  have hmid : bytes.length = ((val.drop offset).take bytes.length).length := by
    simp [hval]
    omega
  have hold : store m word val = m := by rw [hval, leBytes_load32, store_loadBytes]
  have hnew := store_store_inside m word (val.take offset) hmid (val.drop (offset + bytes.length))
    (by rw [hsplit, hval, length_leBytes]; decide)
  rw [hsplit, hold, hoffset] at hnew
  rw [pokeFragment, patch, if_pos h, hnew, ← hval]
  simp only [bind, Except.bind]
  rw [store32, leBytes_leWord]
  simp [hval]
  omega

/-- One word of a range of words. -/
theorem words_succ {ptr ptrEnd : Word} {n : ℕ} (hend : ptrEnd = ptr + BitVec.ofNat 32 (4 * (n + 1)))
    (hfit : ptr.toNat + 4 * (n + 1) < 2 ^ 32) :
    ptr < ptrEnd ∧ (ptr + longsz).toNat = ptr.toNat + 4 ∧
      ptrEnd = ptr + longsz + BitVec.ofNat 32 (4 * n) := by
  refine ⟨?_, toNat_add_ofNat (n := 4) (by omega), ?_⟩
  · rw [hend, BitVec.lt_def, toNat_add_ofNat hfit]
    omega
  · rw [hend, Nat.mul_succ, Nat.add_comm, BitVec.ofNat_add, ← BitVec.add_assoc]
    rfl

/-- The words of the main contents. -/
theorem pokeLoop_ok {m : Mem} {ptr ptrEnd : Word} {fuel n : ℕ} {front : List Byte}
    (back : List Byte) (hfront : front.length = 4 * n) (hend : ptrEnd = ptr + BitVec.ofNat 32 (4 * n))
    (hfit : ptr.toNat + 4 * n < 2 ^ 32) (hfuel : n < fuel) :
    pokeLoop ptrEnd fuel m ptr (front ++ back) = .ok (store m ptr front, ptrEnd, back) := by
  induction n generalizing m ptr fuel front with
  | zero =>
    obtain ⟨fuel, rfl⟩ := Nat.exists_eq_add_one_of_ne_zero (Nat.ne_zero_of_lt hfuel)
    obtain rfl := List.length_eq_zero_iff.mp hfront
    obtain rfl : ptrEnd = ptr := by simpa using hend
    rw [pokeLoop, if_neg (BitVec.lt_irrefl _)]
    rfl
  | succ n ih =>
    obtain ⟨fuel, rfl⟩ := Nat.exists_eq_add_one_of_ne_zero (Nat.ne_zero_of_lt hfuel)
    obtain ⟨hlt, hnext, hend'⟩ := words_succ hend hfit
    have htake : (front.take 4).length = 4 := by
      rw [List.length_take]
      omega
    have hword : store32 m ptr (leWord (front ++ back)) = store m ptr (front.take 4) := by
      have hlow : leWord (front ++ back) = leWord (front.take 4) := by
        rw [← leWord_leBytes_append (leWord (front.take 4)) (front.drop 4 ++ back),
          leBytes_leWord htake, ← List.append_assoc, List.take_append_drop]
      rw [store32, hlow, leBytes_leWord htake]
    have hmore : pokeLoop ptrEnd fuel (store m ptr (front.take 4)) (ptr + longsz) (front.drop 4 ++ back) =
        .ok (store (store m ptr (front.take 4)) (ptr + longsz) (front.drop 4), ptrEnd, back) :=
      ih (by rw [List.length_drop]; omega) hend' (by omega) (by omega)
    have hstore : store (store m ptr (front.take 4)) (ptr + longsz) (front.drop 4) = store m ptr front :=
      store_take_drop m ptr (k := 4) (by omega) (by omega)
    rw [pokeLoop, if_pos hlt, if_neg (by rw [List.length_append]; omega), hword,
      List.drop_append_of_le_length (by omega), hmore, hstore]

/-- The head fragment ends with the source or with its word. -/
theorem updHead_ok (m : Mem) (addr : Word) (src : List Byte) :
    ∃ k ≤ src.length, (k = src.length ∨ (addr.toNat + k) % 4 = 0) ∧
      updHead m addr src =
        .ok (store m addr (src.take k), addr + BitVec.ofNat 32 k, src.drop k) := by
  unfold updHead
  split_ifs with h
  · have hmod := toNat_mod_longsz addr
    refine ⟨min src.length (4 - (addr % longsz).toNat), Nat.min_le_left _ _, by omega, ?_⟩
    have hfit : (addr % longsz).toNat +
        (src.take (min src.length (4 - (addr % longsz).toNat))).length ≤ 4 := by
      rw [List.length_take]
      omega
    simp only [show longsz.toNat = 4 from rfl, pokeFragment_ok m (alignDown addr longsz) hfit, alignDown_add]
    rfl
  · refine ⟨0, Nat.zero_le _, .inr ?_, ?_⟩
    · rw [Nat.add_zero, ← toNat_mod_longsz, not_not.mp h]
      rfl
    · rw [List.take_zero, List.drop_zero, BitVec.add_zero]
      rfl

/-- From the beginning of a word on. -/
theorem updRest_ok {fuel : ℕ} (m : Mem) {addr : Word} {src : List Byte} (halign : addr.toNat % 4 = 0)
    (hfit : addr.toNat + src.length < 2 ^ 32) (hfuel : src.length / 4 < fuel) :
    updRest fuel m addr src = .ok (store m addr src) := by
  set n := src.length / 4 with hn
  have hassert : addr % longsz = 0 := by
    apply BitVec.eq_of_toNat_eq
    rw [toNat_mod_longsz, halign]
    rfl
  have hend : alignDown (addr + BitVec.ofNat 32 src.length) longsz = addr + BitVec.ofNat 32 (4 * n) := by
    apply BitVec.eq_of_toNat_eq
    rw [toNat_alignDown_longsz, toNat_add_ofNat hfit, toNat_add_ofNat (by omega)]
    omega
  have hfront : (src.take (4 * n)).length = 4 * n := by
    rw [List.length_take]
    omega
  have hloop := pokeLoop_ok (m := m) (src.drop (4 * n)) hfront hend (by omega) hfuel
  have hall := store_take_drop m addr (show 4 * n ≤ src.length by omega) (by omega)
  rw [List.take_append_drop] at hloop
  rw [updRest, assert_of_true hassert, hloop]
  simp only [bind, Except.bind]
  split_ifs with hback
  · rw [← hall, hback]
    rfl
  · rw [pokeFragment_ok _ _ (by rw [List.length_drop]; omega), hend, BitVec.add_zero,
      hall]

/-- **An update is one write of the source**, whatever the alignment. -/
theorem ptraceUpdmem_ok {fuel : ℕ} (m : Mem) {addr : Word} {src : List Byte}
    (hfit : addr.toNat + src.length < 2 ^ 32) (hfuel : src.length / 4 < fuel) :
    ptraceUpdmem fuel m addr src = .ok (store m addr src) := by
  unfold ptraceUpdmem
  split_ifs with hsrc
  · rw [hsrc]
    rfl
  · obtain ⟨k, hk, hpos, hhead⟩ := updHead_ok m addr src
    rw [hhead]
    simp only [bind, Except.bind]
    split_ifs with hdrop
    · rw [List.take_of_length_le (List.drop_eq_nil_iff.mp hdrop)]
    · have hlt : k < src.length := by
        rw [List.drop_eq_nil_iff] at hdrop
        omega
      have haddr := toNat_add_ofNat (a := addr) (n := k) (by omega)
      rw [updRest_ok _ (by omega) (by rw [haddr, List.length_drop]; omega)
        (by rw [List.length_drop]; omega), store_take_drop m addr hk (by omega)]

/-! ### Reading a range -/

theorem peekLoop_ok {m : Mem} {targetPtr targetEnd : Word} {fuel n : ℕ} {done room : List Byte}
    (hroom : room.length = 4 * n) (hend : targetEnd = targetPtr + BitVec.ofNat 32 (4 * n))
    (hfit : targetPtr.toNat + 4 * n < 2 ^ 32) (hfuel : n < fuel) :
    peekLoop m targetEnd fuel targetPtr done room = .ok (done ++ loadBytes m targetPtr (4 * n)) := by
  induction n generalizing targetPtr fuel done room with
  | zero =>
    obtain ⟨fuel, rfl⟩ := Nat.exists_eq_add_one_of_ne_zero (Nat.ne_zero_of_lt hfuel)
    obtain rfl := List.length_eq_zero_iff.mp hroom
    obtain rfl : targetEnd = targetPtr := by simpa using hend
    rw [peekLoop, if_neg (BitVec.lt_irrefl _)]
    rfl
  | succ n ih =>
    obtain ⟨fuel, rfl⟩ := Nat.exists_eq_add_one_of_ne_zero (Nat.ne_zero_of_lt hfuel)
    obtain ⟨hlt, hnext, hend'⟩ := words_succ hend hfit
    rw [peekLoop, if_pos hlt, if_neg (by omega), ih (by rw [List.length_drop]; omega) hend'
      (by omega) (by omega), leBytes_load32, List.append_assoc, Nat.mul_succ, Nat.add_comm (4 * n),
      loadBytes_add]
    rfl

/-- A range and the bytes for it: some, and none beyond the last address. That is so if and only
if it is so of the words they are in. -/
structure Range where
  addr : Word
  src : List Byte
  nonempty : src ≠ []
  inside : addr.toNat + src.length ≤ 2 ^ 32

namespace Range

variable (r : Range)

/-- Where the first word begins. -/
def start : ℕ := r.addr.toNat / 4 * 4

/-- Where the last word ends. -/
def stop : ℕ := (r.addr.toNat + r.src.length + 3) / 4 * 4

/-- The bytes of the range are those of the source, and the others are as they were. -/
def Updated (m m' : Mem) : Prop :=
  (∀ i < r.src.length, m' (r.addr + BitVec.ofNat 32 i) = r.src.getD i 0) ∧
    ∀ x, x.toNat < r.addr.toNat ∨ r.addr.toNat + r.src.length ≤ x.toNat → m' x = m x

/-- An update of the target sets exactly the range, and reading it back returns the source,
whatever was in the target and on the heap. -/
def Exact : Prop :=
  ∀ m heap fuel, (r.stop - r.start) / 4 < fuel →
    ∃ m', ptraceUpdmem fuel m r.addr r.src = .ok m' ∧ r.Updated m m' ∧
      ptraceDupmem heap fuel m' r.addr r.src.length = .ok r.src

/-- `target_start`. -/
abbrev targetStart : Word := alignDown r.addr longsz

/-- `target_end`. -/
abbrev targetEnd : Word := alignUp (r.addr + BitVec.ofNat 32 r.src.length) longsz

variable {r}

theorem updated_store (m : Mem) : r.Updated m (store m r.addr r.src) := by
  have hin := r.inside
  refine ⟨fun i hi => store_inside m r.addr hi (by omega) 0, fun x hx => store_outside m ?_⟩
  have hxlt := x.isLt
  rw [BitVec.toNat_sub]
  omega

theorem toNat_targetEnd : r.targetEnd.toNat = r.stop % 2 ^ 32 := by
  have hin := r.inside
  have hthree : r.addr + BitVec.ofNat 32 r.src.length + longsz - 1 =
      r.addr + BitVec.ofNat 32 (r.src.length + 3) := by
    rw [BitVec.ofNat_add, ← BitVec.add_assoc, BitVec.sub_eq_add_neg, BitVec.add_assoc _ longsz]
    rfl
  rw [targetEnd, alignUp, hthree, toNat_alignDown_longsz, BitVec.toNat_add, BitVec.toNat_ofNat, stop]
  omega

/-- The size of the words, as long as it is not that of all memory. -/
theorem toNat_tmpSz : (r.targetEnd - r.targetStart).toNat = (r.stop - r.start) % 2 ^ 32 := by
  have hin := r.inside
  rw [BitVec.toNat_sub, toNat_targetEnd, toNat_alignDown_longsz, stop, start]
  omega

theorem length_src_le : r.src.length ≤ r.stop - r.start := by
  unfold stop start
  omega

/-- How far into the words the range begins. -/
theorem toNat_addr_sub : (r.addr - r.targetStart).toNat = r.addr.toNat - r.start := by
  have := r.addr.isLt
  rw [BitVec.toNat_sub, toNat_alignDown_longsz, start]
  omega

/-- When the assertion on the size holds. -/
theorem longsz_le_tmpSz_iff :
    longsz.toInt ≤ (r.targetEnd - r.targetStart).toInt ↔ r.stop - r.start < 2 ^ 31 := by
  have hpos := List.length_pos_iff.mpr r.nonempty
  have hin := r.inside
  have hsize : r.stop - r.start ≤ 2 ^ 32 ∧ 4 ≤ r.stop - r.start ∧ 4 ∣ r.stop - r.start := by
    unfold stop start
    omega
  have hfour : longsz.toInt = 4 := rfl
  rw [hfour, BitVec.toInt_eq_toNat_cond, toNat_tmpSz]
  omega

/-- The words of a range: the bytes before it, its own, and those behind it. -/
theorem loadBytes_words (m : Mem) : loadBytes m r.targetStart (r.stop - r.start) =
    loadBytes m r.targetStart (r.addr.toNat - r.start) ++ (loadBytes m r.addr r.src.length ++
      loadBytes m (r.addr + BitVec.ofNat 32 r.src.length) (r.stop - (r.addr.toNat + r.src.length))) := by
  have haddr : r.targetStart + BitVec.ofNat 32 (r.addr.toNat - r.start) = r.addr := by
    rw [← toNat_addr_sub, BitVec.ofNat_toNat, BitVec.setWidth_eq, BitVec.add_comm, BitVec.sub_add_cancel]
  have hsum : r.stop - r.start =
      r.addr.toNat - r.start + (r.src.length + (r.stop - (r.addr.toNat + r.src.length))) := by
    unfold stop start
    omega
  rw [hsum, loadBytes_add, haddr, loadBytes_add]

/-- The words of a range, read one by one. -/
theorem ptraceDupmem_ok {heap : ℕ → Byte} {fuel : ℕ} {m : Mem} (hstop : r.stop < 2 ^ 32)
    (hsize : r.stop - r.start < 2 ^ 31) (hfuel : (r.stop - r.start) / 4 < fuel) :
    ptraceDupmem heap fuel m r.addr r.src.length = .ok (loadBytes m r.addr r.src.length) := by
  have hassert := longsz_le_tmpSz_iff.mpr hsize
  have hsz := r.toNat_tmpSz
  have hwords : 4 * ((r.stop - r.start) / 4) = r.stop - r.start := by
    unfold stop start
    omega
  have hlast : r.targetStart.toNat + (r.stop - r.start) = r.stop := by
    rw [toNat_alignDown_longsz, stop, start]
    omega
  have hend : r.targetEnd = r.targetStart + BitVec.ofNat 32 (4 * ((r.stop - r.start) / 4)) := by
    apply BitVec.eq_of_toNat_eq
    rw [toNat_targetEnd, toNat_add_ofNat (by omega), hwords, hlast, Nat.mod_eq_of_lt hstop]
  have hpeek : peekLoop m r.targetEnd fuel r.targetStart []
      ((List.range (r.targetEnd - r.targetStart).toNat).map heap) =
      .ok (loadBytes m r.targetStart (4 * ((r.stop - r.start) / 4))) :=
    peekLoop_ok (by simp only [List.length_map, List.length_range]; omega) hend (by omega) hfuel
  rw [hwords, loadBytes_words] at hpeek
  unfold ptraceDupmem
  simp only [assert_of_true hassert, hpeek, toNat_addr_sub, bind, Except.bind]
  rw [if_neg, List.drop_left' (length_loadBytes _ _ _), List.take_left' (length_loadBytes _ _ _)]
  simp only [List.length_append, length_loadBytes]
  omega

/-- **Where the words end with the last address, nothing is read**: what is returned was on the
heap. -/
theorem ptraceDupmem_wrapped {b : Byte} {fuel : ℕ} {m : Mem} {bytes : List Byte} (hstop : r.stop = 2 ^ 32)
    (h : ptraceDupmem (fun _ => b) fuel m r.addr r.src.length = .ok bytes) : ∀ x ∈ bytes, x = b := by
  have hend : r.targetEnd = 0 := by
    apply BitVec.eq_of_toNat_eq
    rw [toNat_targetEnd, hstop]
    rfl
  obtain ⟨_, _, h⟩ := bind_eq_ok.mp h
  obtain ⟨tmp, hpeek, h⟩ := bind_eq_ok.mp h
  change peekLoop m r.targetEnd fuel r.targetStart [] _ = .ok tmp at hpeek
  have htmp : ∀ x ∈ tmp, x = b := by
    cases fuel with
    | zero => cases hpeek
    | succ fuel =>
      have hnot : ¬ r.targetStart < 0 := Nat.not_lt_zero _
      rw [hend, peekLoop, if_neg hnot] at hpeek
      cases hpeek
      intro x hx
      obtain ⟨-, -, rfl⟩ := List.mem_map.mp hx
      rfl
  split_ifs at h
  cases h
  exact fun x hx => htmp x (List.mem_of_mem_drop (List.mem_of_mem_take hx))

end Range

/-- **An update of the target's memory is exact, and is read back, if and only if the words of the
range end before the last address, and are no more bytes than an `int` can say.** -/
theorem updmem_dupmem_iff (r : Range) :
    r.Exact ↔ r.stop < 2 ^ 32 ∧ r.stop - r.start < 2 ^ 31 := by
  have hpos := List.length_pos_iff.mpr r.nonempty
  have hin := r.inside
  constructor
  · intro h
    -- a heap of other bytes than the first one of the source
    have hother : ∀ b : Byte, ~~~ b ≠ b := by decide
    obtain ⟨b, src, hsrc⟩ := List.exists_cons_of_ne_nil r.nonempty
    obtain ⟨m', -, -, hdup⟩ := h (fun _ => 0) (fun _ => ~~~ b) _ (Nat.lt_succ_self _)
    constructor
    · by_contra hstop
      have hlast : r.stop = 2 ^ 32 := by
        unfold Range.stop at hstop ⊢
        omega
      have hb := Range.ptraceDupmem_wrapped hlast hdup b (by rw [hsrc]; exact List.mem_cons_self)
      exact absurd hb.symm (hother b)
    · obtain ⟨_, hassert, _⟩ := bind_eq_ok.mp hdup
      exact Range.longsz_le_tmpSz_iff.mp (of_assert hassert)
  · rintro ⟨hstop, hsize⟩ m heap fuel hfuel
    have hfit : r.addr.toNat + r.src.length < 2 ^ 32 := by
      unfold Range.stop at hstop
      omega
    have hle := r.length_src_le
    refine ⟨store m r.addr r.src, ptraceUpdmem_ok m hfit (by omega), Range.updated_store m, ?_⟩
    rw [Range.ptraceDupmem_ok hstop hsize hfuel, loadBytes_store m r.addr (by omega)]

/-- The last word there is. -/
def lastWord : Range where
  addr := 0xfffffffc
  src := [1, 2, 3, 4]
  nonempty := List.cons_ne_nil _ _
  inside := Nat.le_refl _

/-- Where it should be read back, nothing is peeked. -/
theorem lastWord_not_read_back : ¬ lastWord.Exact ∧
    ptraceDupmem (fun _ => 9) 2 (store (fun _ => 0) lastWord.addr lastWord.src) lastWord.addr 4 =
      .ok [9, 9, 9, 9] := by
  have hdup : ∀ m, ptraceDupmem (fun _ => 9) 2 m lastWord.addr 4 = .ok [9, 9, 9, 9] := fun m => rfl
  refine ⟨fun h => ?_, hdup _⟩
  obtain ⟨m', -, -, hback⟩ := h (fun _ => 0) (fun _ => 9) 2 (by decide)
  exact absurd ((hdup m').symm.trans hback) (by decide)

end Snitchaser.Host
