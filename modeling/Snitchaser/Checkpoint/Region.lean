import Snitchaser.Common.Defs
import Snitchaser.Foundation.LittleEndian

/-!
# The records of a checkpoint

A checkpoint file is a head, a record for each region of memory, a record that ends them, and
a mark. `append_region` (`checkpoint.c`) writes a record:

    struct mem_region   start, end, prot, offset, fn_sz       24 bytes
    fn                  the name with its '\0'                fn_sz bytes
    int                 how much of the region follows        4 bytes
    the memory                                                as much as that

Calls to write and to protect are taken to succeed, except that the kernel refuses to write
2^31 bytes or more. What `append_region` notes about `[stack]` on the side is left out.

`region_size_sane_iff` says when the size in a record is one of whole pages of the region.
-/

namespace Snitchaser.Checkpoint

open Foundation

/-- `struct mem_region`. -/
structure MemRegion where
  start : Word
  /-- `end`. -/
  endAddr : Word
  prot : Word
  offset : BitVec 64
  fnSz : Word
  deriving DecidableEq, Repr

/-- `sizeof(struct mem_region)`. -/
def memRegionSize : ℕ := 24

/-- The fields in words. -/
def MemRegion.words (r : MemRegion) : List Word :=
  [r.start, r.endAddr, r.prot, r.offset.extractLsb' 0 32, r.offset.extractLsb' 32 32, r.fnSz]

/-- The structure as it lies in memory. -/
def MemRegion.bytes (r : MemRegion) : List Byte := leBytesList r.words

/-- The structure of six words. -/
def MemRegion.ofWords : List Word → MemRegion
  | [start, endAddr, prot, low, high, fnSz] => ⟨start, endAddr, prot, high ++ low, fnSz⟩
  | _ => ⟨0, 0, 0, 0, 0⟩

/-- The structure at the beginning of some bytes. -/
def MemRegion.ofBytes (bytes : List Byte) : MemRegion := .ofWords (leWords 6 bytes)

@[simp] theorem MemRegion.length_bytes (r : MemRegion) : r.bytes.length = memRegionSize :=
  length_leBytesList _

theorem MemRegion.ofWords_words (r : MemRegion) : MemRegion.ofWords r.words = r := by
  obtain ⟨start, endAddr, prot, offset, fnSz⟩ := r
  have hoffset : offset.extractLsb' 32 32 ++ offset.extractLsb' 0 32 = offset := by
    apply BitVec.eq_of_getLsbD_eq
    intro i hi
    simp only [BitVec.getLsbD_append, BitVec.getLsbD_extractLsb']
    grind
  simp only [words, ofWords, hoffset]

/-- What was written is read. -/
@[simp] theorem MemRegion.ofBytes_bytes (r : MemRegion) : MemRegion.ofBytes r.bytes = r := by
  have h : leWords 6 (leBytesList r.words) = r.words := leWords_leBytesList r.words
  unfold ofBytes bytes
  rw [h, r.ofWords_words]

/-! ### The writer -/

/-- `PAGE_SIZE`. -/
def pageSize : Word := 4096

/-- `MEM_REGIONS_END_MARK`. -/
def memRegionsEndMark : Word := 0xf4f3f2f1

/-- `CKPT_END_MARK`. -/
def ckptEndMark : Word := 0x2e444e45

/-- What `append_region` finds. -/
structure Env where
  memory : Word → Byte
  /-- `stat64`: `st_size`, if it succeeds. -/
  stat64 : List Byte → Option (BitVec 64)

/-- `strncmp("/dev", fn, 4) == 0`. -/
def isDev (fn : List Byte) : Prop := fn.take 4 = str "/dev"

instance (fn : List Byte) : Decidable (isDev fn) := inferInstanceAs (Decidable (_ = _))

/-- A name that is none: `fn[0] == '\0'` or `fn[0] == '['`. -/
def isAnon (fn : List Byte) : Prop := fn = [] ∨ fn.head? = some (chr '[')

instance (fn : List Byte) : Decidable (isAnon fn) := inferInstanceAs (Decidable (_ ∨ _))

/-- `get_aval_size`: of a file, no more than there is. -/
def getAvalSize (env : Env) (fn : List Byte) (offset : BitVec 64) (desireSize : Word) : Word :=
  if isAnon fn then desireSize
  else
    match env.stat64 fn with
    | none => desireSize
    | some size =>
      if size < offset + desireSize.setWidth 64 then (size - offset).setWidth 32 else desireSize

/-- `region_sz`, in whole pages. -/
def recordedSize (env : Env) (region : MemRegion) (fn : List Byte) : Word :=
  let avail := getAvalSize env fn region.offset (region.endAddr - region.start)
  let tmp := region.start + avail + pageSize - 1
  tmp - tmp % pageSize - region.start

/-- The memory from an address on. -/
def image (memory : Word → Byte) (start : Word) (size : ℕ) : List Byte :=
  (List.range size).map fun i => memory (start + BitVec.ofNat 32 i)

@[simp] theorem length_image (memory : Word → Byte) (start : Word) (size : ℕ) :
    (image memory start size).length = size := by simp [image]

/-- What a record says of the size, and the memory it holds. -/
def payload (env : Env) (region : MemRegion) (fn : List Byte) : Word × List Byte :=
  if isDev fn then (0, [])
  else
    let size := recordedSize env region fn
    (size, image env.memory region.start size.toNat)

/-- A record. -/
def recordBytes (env : Env) (region : MemRegion) (fn : List Byte) : List Byte :=
  region.bytes ++ (fn ++ [0]).take region.fnSz.toNat ++ leBytes (payload env region fn).1 ++
    (payload env region fn).2

/-- `append_region`. -/
def appendRegion (env : Env) (region : MemRegion) (fn : List Byte) : Except Fault (List Byte) :=
  if isDev fn then .ok (recordBytes env region fn)
  else do
    assert (region.start % pageSize = 0) "region->start % PAGE_SIZE == 0"
    assert (0 ≤ (recordedSize env region fn).toInt) "err == region_sz"
    .ok (recordBytes env region fn)

/-- **A region can be recorded**: it begins with a page, and it is not too large. -/
def Recordable (env : Env) (region : MemRegion) (fn : List Byte) : Prop :=
  isDev fn ∨ (region.start % pageSize = 0 ∧ 0 ≤ (recordedSize env region fn).toInt)

/-- The specification of `append_region`. -/
theorem appendRegion_eq_ok {env : Env} {region : MemRegion} {fn bytes : List Byte} :
    appendRegion env region fn = .ok bytes ↔
      Recordable env region fn ∧ bytes = recordBytes env region fn := by
  unfold appendRegion Recordable
  by_cases hdev : isDev fn
  · rw [if_pos hdev]
    simp [hdev, eq_comm]
  · rw [if_neg hdev]
    simp only [hdev, false_or]
    constructor
    · intro h
      obtain ⟨_, halign, h⟩ := bind_eq_ok.mp h
      obtain ⟨_, hsize, h⟩ := bind_eq_ok.mp h
      exact ⟨⟨of_assert halign, of_assert hsize⟩, (Except.ok.inj h).symm⟩
    · rintro ⟨⟨halign, hsize⟩, rfl⟩
      simp only [assert_of_true halign, assert_of_true hsize, bind, Except.bind]

/-! ### How much is recorded -/

section Size

variable {env : Env} {region : MemRegion} {fn : List Byte}

/-- Addresses of pages. -/
structure MemRegion.Aligned (region : MemRegion) : Prop where
  start : 4096 ∣ region.start.toNat
  endAddr : 4096 ∣ region.endAddr.toNat
  le : region.start.toNat ≤ region.endAddr.toNat

/-- `end - start`. -/
def MemRegion.span (region : MemRegion) : ℕ := (region.endAddr - region.start).toNat

/-- **The size in a record is sane**: whole pages of the region. It is an `int`. -/
def SaneSize (region : MemRegion) (size : Word) : Prop :=
  4096 ∣ size.toInt ∧ 0 ≤ size.toInt ∧ size.toInt ≤ region.span

/-- The size of the file that is looked at, if there is one. -/
def fileSize (env : Env) (fn : List Byte) : Option (BitVec 64) :=
  if isAnon fn then none else env.stat64 fn

/-- What of a file's size, less the offset, 32 bits hold. -/
def leftOf (size offset : BitVec 64) : ℕ := ((size - offset).setWidth 32).toNat

/-- **What a sane size depends on.** Without a file, or with one that is long enough, the
region has to be small enough for an `int`. Of a shorter file, what 32 bits hold of the
difference counts: as a size of the region, or, if less than a page is missing to
`2 ^ 32`, as none. -/
def SizeFits (env : Env) (region : MemRegion) (fn : List Byte) : Prop :=
  match fileSize env fn with
  | none => region.span < 2 ^ 31
  | some size =>
    if size < region.offset + (region.endAddr - region.start).setWidth 64 then
      leftOf size region.offset ≤ min region.span (2 ^ 31 - 4096) ∨
        2 ^ 32 - 4096 < leftOf size region.offset
    else region.span < 2 ^ 31

theorem MemRegion.Aligned.span_eq (h : region.Aligned) :
    region.span = region.endAddr.toNat - region.start.toNat :=
  BitVec.toNat_sub_of_le h.le

theorem MemRegion.Aligned.dvd_span (h : region.Aligned) : 4096 ∣ region.span := by
  rw [h.span_eq]
  exact Nat.dvd_sub h.endAddr h.start

/-- The pages of a size, in 32 bits. -/
theorem toNat_recordedSize (h : region.Aligned) :
    (recordedSize env region fn).toNat =
      ((getAvalSize env fn region.offset (region.endAddr - region.start)).toNat + 4095) / 4096 *
        4096 % 2 ^ 32 := by
  have hstart := h.start
  have hlt := region.start.isLt
  unfold recordedSize
  generalize getAvalSize env fn region.offset (region.endAddr - region.start) = avail
  have havail := avail.isLt
  simp only [BitVec.toNat_sub, BitVec.toNat_add, BitVec.toNat_umod,
    show pageSize.toNat = 4096 from rfl, show (1 : Word).toNat = 1 from rfl]
  omega

/-- When the pages of a size are sane. -/
theorem saneSize_recordedSize_iff (h : region.Aligned) :
    SaneSize region (recordedSize env region fn) ↔
      (getAvalSize env fn region.offset (region.endAddr - region.start)).toNat ≤
          min region.span (2 ^ 31 - 4096) ∨
        2 ^ 32 - 4096 < (getAvalSize env fn region.offset (region.endAddr - region.start)).toNat := by
  have hsize := @toNat_recordedSize env region fn h
  have hspan := h.dvd_span
  generalize getAvalSize env fn region.offset (region.endAddr - region.start) = avail at *
  have havail := avail.isLt
  unfold SaneSize
  rw [BitVec.toInt_eq_toNat_cond, hsize]
  split_ifs <;> omega

/-- A region that is recorded in full. -/
theorem span_fits_iff (h : region.Aligned) :
    (region.endAddr - region.start).toNat ≤ min region.span (2 ^ 31 - 4096) ∨
        2 ^ 32 - 4096 < (region.endAddr - region.start).toNat ↔ region.span < 2 ^ 31 := by
  have hspan := h.dvd_span
  have hlt := (region.endAddr - region.start).isLt
  unfold MemRegion.span at *
  omega

end Size

/-- **The size that `append_region` writes is a multiple of `PAGE_SIZE` between 0 and
`end - start`**, exactly if the region is one of `/dev` or its size fits. A file that ends a
page or more before the mapping's offset leaves a negative difference, and its low 32 bits
are taken for a size. -/
theorem region_size_sane_iff (env : Env) (region : MemRegion) (fn : List Byte)
    (h : region.Aligned) :
    SaneSize region (payload env region fn).1 ↔ isDev fn ∨ SizeFits env region fn := by
  by_cases hdev : isDev fn
  · have hzero : (payload env region fn).1 = 0 := by
      unfold payload
      rw [if_pos hdev]
    rw [hzero]
    exact iff_of_true ⟨dvd_zero _, le_rfl, Int.natCast_nonneg _⟩ (.inl hdev)
  · have hsize : (payload env region fn).1 = recordedSize env region fn := by
      unfold payload
      rw [if_neg hdev]
    rw [hsize, saneSize_recordedSize_iff h, or_iff_right hdev]
    unfold getAvalSize SizeFits fileSize
    by_cases hanon : isAnon fn
    · rw [if_pos hanon, if_pos hanon]
      exact span_fits_iff h
    · rw [if_neg hanon, if_neg hanon]
      cases env.stat64 fn with
      | none => exact span_fits_iff h
      | some size =>
        dsimp only
        split_ifs
        · rfl
        · exact span_fits_iff h

/-- Three pages of a file that has one and a half. -/
theorem region_size_sane_iff_short_file :
    SaneSize ⟨0x8000, 0xb000, 1, 0, 3⟩
      (payload ⟨fun _ => 0, fun _ => some 0x1800⟩ ⟨0x8000, 0xb000, 1, 0, 3⟩ (str "/f")).1 :=
  (region_size_sane_iff _ _ _ ⟨by decide, by decide, by decide⟩).mpr (.inr (.inl (by decide)))

/-- Two pages of a file that was cut to nothing, mapped from `0x10000` on: the size is
-65536. -/
theorem truncated_file_size :
    (payload ⟨fun _ => 0, fun _ => some 0⟩ ⟨0x8000, 0xa000, 1, 0x10000, 3⟩ (str "/f")).1.toInt =
        -65536 ∧
      ¬SaneSize ⟨0x8000, 0xa000, 1, 0x10000, 3⟩
        (payload ⟨fun _ => 0, fun _ => some 0⟩ ⟨0x8000, 0xa000, 1, 0x10000, 3⟩ (str "/f")).1 := by
  have hsize : (payload ⟨fun _ => 0, fun _ => some 0⟩ ⟨0x8000, 0xa000, 1, 0x10000, 3⟩
      (str "/f")).1.toInt = -65536 := rfl
  refine ⟨hsize, fun h => ?_⟩
  have hneg := h.2.1
  rw [hsize] at hneg
  omega

/-- `end_region`. -/
def endRegion : MemRegion := ⟨memRegionsEndMark, memRegionsEndMark, 0, 0, 0⟩

/-- What follows the records: `end_region` and `CKPT_END_MARK`. -/
def trailer : List Byte := endRegion.bytes ++ leBytes ckptEndMark

/-- Records, one after the other. -/
def appendRegions (env : Env) : List (MemRegion × List Byte) → Except Fault (List Byte)
  | [] => .ok []
  | (region, fn) :: entries => do
    let bytes ← appendRegion env region fn
    let rest ← appendRegions env entries
    .ok (bytes ++ rest)

/-- The records that are written are those of the regions, in order. -/
theorem appendRegions_eq_ok {env : Env} {entries : List (MemRegion × List Byte)} {bytes : List Byte} :
    appendRegions env entries = .ok bytes ↔
      (∀ e ∈ entries, Recordable env e.1 e.2) ∧ bytes = entries.flatMap fun e => recordBytes env e.1 e.2 := by
  induction entries generalizing bytes with
  | nil =>
    simp [appendRegions, eq_comm]
  | cons e entries ih =>
    obtain ⟨region, fn⟩ := e
    rw [appendRegions, List.forall_mem_cons, List.flatMap_cons]
    constructor
    · intro h
      obtain ⟨first, hfirst, h⟩ := bind_eq_ok.mp h
      obtain ⟨rest, hrest, h⟩ := bind_eq_ok.mp h
      obtain ⟨hrec, rfl⟩ := appendRegion_eq_ok.mp hfirst
      obtain ⟨hrecs, rfl⟩ := ih.mp hrest
      exact ⟨⟨hrec, hrecs⟩, (Except.ok.inj h).symm⟩
    · rintro ⟨⟨hrec, hrecs⟩, rfl⟩
      rw [appendRegion_eq_ok.mpr ⟨hrec, rfl⟩, ih.mpr ⟨hrecs, rfl⟩]
      rfl

end Snitchaser.Checkpoint
