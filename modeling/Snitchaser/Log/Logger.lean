import Snitchaser.Foundation.LittleEndian
import Snitchaser.Common.Marks
import Snitchaser.Interp.Mm
import Mathlib.Data.List.Basic

/-!
# The recorder's log

`logger.c`: what is logged goes into a buffer of the thread, and from there, compressed,
into regions of a file. A piece that is larger than the buffer makes a region of its
own.

    mark 1, real size, compressed size, compressed data
    mark 0, size, data

## The model

* `Logger` is `struct tls_logger` with the contents of the buffer up to
  `log_buffer_current`, and those of the file.
* The compressor is an argument (`Lzo`), with what is assumed of it.
* Compiled branches write into the buffer themselves, and only then ask for a check:
  the buffer has some bytes behind its end for them. A write behind those is an
  `overrun`.
* `append_buffer` adds a size to a pointer, which may wrap. Sizes are those of a
  `size_t` (`Data`).

## What is proved

The abstract log is a list of regions, each made of whole pieces, and the pieces still in
the buffer (`Logger.Holds`). `run_holds`: whatever is logged, in whatever order, comes to
lie in the regions and in the buffer in that order, and no piece is cut.
-/

namespace Snitchaser.Log

open Foundation Interp

/-- `LOG_PAGES_NR`. -/
def logPagesNr : ℕ := 1024 * 10

/-- `LOGGER_ADDITIONAL_BYTES`. -/
def loggerAdditionalBytes : ℕ := 8

/-- `MAX_LOGGER_SIZE`. -/
def maxLoggerSize : ℕ := logPagesNr * pageSize - loggerAdditionalBytes

/-- `COMPRESSED_DATA_MARK`. -/
def compressedDataMark : Byte := 0x1

/-- `UNCOMPRESSED_DATA_MARK`. -/
def uncompressedDataMark : Byte := 0x0

/-- `lzo1x_worst_compress(x)`. -/
def lzo1xWorstCompress (x : ℕ) : ℕ := x + x / 16 + 64 + 3

/-- The compressor, and what is assumed of it. -/
structure Lzo where
  /-- `lzo1x_1_compress`. -/
  compress : List Byte → List Byte
  /-- `lzo1x_decompress_safe`: what it writes to a buffer of a given size. -/
  decompress : List Byte → ℕ → List Byte
  /-- What was compressed comes back. -/
  decompress_compress : ∀ data, decompress (compress data) data.length = data
  /-- It grows by no more than the buffer for it allows. -/
  length_compress_le : ∀ data, (compress data).length ≤ lzo1xWorstCompress data.length

/-- Data with a size that `size_t` holds. -/
abbrev Data : Type := { data : List Byte // data.length < 2 ^ 32 }

/-- `struct tls_logger`. -/
structure Logger where
  /-- `log_buffer_start`. -/
  start : Pages logPagesNr
  /-- The bytes from there to `log_buffer_current`. -/
  buf : List Byte
  /-- The file. -/
  file : List Byte

/-- `log_buffer_current`. -/
def Logger.current (l : Logger) : ℕ := l.start.1 + l.buf.length

/-- `log_buffer_end`. -/
def Logger.bufferEnd (l : Logger) : ℕ := l.start.1 + maxLoggerSize

/-- `init_logger`, with the pages it got, and a file of a new name. -/
def initLogger (start : Pages logPagesNr) : Logger := ⟨start, [], []⟩

/-- Bytes are written at `log_buffer_current`, which then is moved behind them. -/
def Logger.write (l : Logger) (data : List Byte) : Except Fault Logger :=
  if l.buf.length + data.length ≤ logPagesNr * pageSize then .ok { l with buf := l.buf ++ data }
  else .error .overrun

/-- `compress_logger_buffer`. -/
def compressLoggerBuffer (lzo : Lzo) (data : List Byte) : Except Fault (List Byte) := do
  assert (data.length ≤ lzo1xWorstCompress (logPagesNr * pageSize)) "in_sz <= pcomp->sz1"
  assert (lzo.compress data ≠ []) "out_sz != 0"
  .ok (lzo.compress data)

/-- A region of compressed data. -/
def compressedRegion (realSz : ℕ) (compressed : List Byte) : List Byte :=
  compressedDataMark :: (leBytes (BitVec.ofNat 32 realSz) ++
    (leBytes (BitVec.ofNat 32 compressed.length) ++ compressed))

/-- A region of data as they are. -/
def uncompressedRegion (data : List Byte) : List Byte :=
  uncompressedDataMark :: (leBytes (BitVec.ofNat 32 data.length) ++ data)

/-- `flush_logger_buffer`. -/
def flushLoggerBuffer (lzo : Lzo) (l : Logger) : Except Fault Logger := do
  let compressed ← compressLoggerBuffer lzo l.buf
  .ok { l with buf := [], file := l.file ++ compressedRegion l.buf.length compressed }

/-- `do_check_logger_buffer`. -/
def doCheckLoggerBuffer (lzo : Lzo) (l : Logger) : Except Fault Logger :=
  if l.current < l.bufferEnd then .ok l else flushLoggerBuffer lzo l

/-- `log_buffer_current + size < log_buffer_end`, as pointers compare. -/
def Logger.hasSpace (l : Logger) (size : ℕ) : Prop := (l.current + size) % 2 ^ 32 < l.bufferEnd

instance (l : Logger) (size : ℕ) : Decidable (l.hasSpace size) := Nat.decLt _ _

/-- The first half of `append_buffer` when there is not enough space. -/
def makeSpace (lzo : Lzo) (l : Logger) : Except Fault Logger :=
  if l.current > l.start.1 then flushLoggerBuffer lzo l else .ok l

/-- `append_buffer(data, size)`. -/
def appendBuffer (lzo : Lzo) (l : Logger) (data : Data) : Except Fault Logger := do
  assert (data.1.length ≠ 0) "size != 0"
  if l.hasSpace data.1.length then l.write data.1
  else do
    let l ← makeSpace lzo l
    if l.hasSpace data.1.length then l.write data.1
    else do
      assert (data.1.length > maxLoggerSize) "size > MAX_LOGGER_SIZE"
      .ok { l with file := l.file ++ uncompressedRegion data.1 }

/-- Something that is logged. -/
inductive Op where
  /-- The log phase of a branch. -/
  | branch (target : Word)
  /-- The log phase of `rdtsc`. -/
  | rdtsc (eax edx : Word)
  /-- `append_buffer`. -/
  | append (data : Data)
  /-- `flush_logger` or `flush_all_logger`. -/
  | flush

/-- The pieces an operation logs. -/
def Op.pieces : Op → List (List Byte)
  | .branch target => [leBytes target]
  | .rdtsc eax edx => [leBytesList [rdtscMark, eax, edx]]
  | .append data => [data.1]
  | .flush => []

/-- A compiled branch writes its record, then `check_logger_buffer` is called. -/
def writeChecked (lzo : Lzo) (l : Logger) (data : List Byte) : Except Fault Logger := do
  let l ← l.write data
  doCheckLoggerBuffer lzo l

/-- One operation. -/
def step (lzo : Lzo) (l : Logger) : Op → Except Fault Logger
  | .branch target => writeChecked lzo l (leBytes target)
  | .rdtsc eax edx => writeChecked lzo l (leBytesList [rdtscMark, eax, edx])
  | .append data => appendBuffer lzo l data
  | .flush => flushLoggerBuffer lzo l

/-- Operations one after the other. -/
def run (lzo : Lzo) (l : Logger) (ops : List Op) : Except Fault Logger := ops.foldlM (step lzo) l

/-! ### Regions and pieces -/

/-- A region of the file: its pieces are compressed together, or it is one large piece. -/
inductive Region where
  | compressed (pieces : List (List Byte))
  | uncompressed (piece : List Byte)

/-- The pieces of a region. -/
def Region.pieces : Region → List (List Byte)
  | .compressed pieces => pieces
  | .uncompressed piece => [piece]

/-- Its data. -/
def Region.data (region : Region) : List Byte := region.pieces.flatten

/-- The region as it is in the file. -/
def Region.encode (lzo : Lzo) : Region → List Byte
  | .compressed pieces => compressedRegion pieces.flatten.length (lzo.compress pieces.flatten)
  | .uncompressed piece => uncompressedRegion piece

/-- Its sizes are those in the file: they do not wrap. -/
def Region.Sized (lzo : Lzo) : Region → Prop
  | .compressed pieces => pieces.flatten.length < 2 ^ 32 ∧ (lzo.compress pieces.flatten).length < 2 ^ 32
  | .uncompressed piece => piece.length < 2 ^ 32

/-- A region as the logger writes it: the sizes do not wrap, and there is something to
read. -/
def Region.Complete (lzo : Lzo) (region : Region) : Prop :=
  region.Sized lzo ∧
    match region with
    | .compressed pieces => lzo.compress pieces.flatten ≠ []
    | .uncompressed piece => piece ≠ []

/-- The file of some regions. -/
def encodeRegions (lzo : Lzo) (regions : List Region) : List Byte := regions.flatMap (Region.encode lzo)

/-- All pieces of some regions. -/
def allPieces (regions : List Region) : List (List Byte) := regions.flatMap Region.pieces

/-- **What a logger holds**: regions in its file, and pieces in its buffer. -/
structure Logger.Holds (lzo : Lzo) (l : Logger) (regions : List Region)
    (pending : List (List Byte)) : Prop where
  file : l.file = encodeRegions lzo regions
  buf : l.buf = pending.flatten
  complete : ∀ region ∈ regions, region.Complete lzo
  nonempty : ∀ piece ∈ allPieces regions ++ pending, piece ≠ []
  /-- `log_buffer_current < log_buffer_end`. -/
  room : l.buf.length < maxLoggerSize

theorem Logger.Holds.sized {lzo : Lzo} {l : Logger} {regions : List Region}
    {pending : List (List Byte)} (h : l.Holds lzo regions pending) :
    ∀ region ∈ regions, region.Sized lzo :=
  fun region hregion => (h.complete region hregion).1

/-- **Pieces are logged**: they are added, whole, behind what was there. The new regions
have pieces. -/
def Logger.Adds (lzo : Lzo) (l : Logger) (regions : List Region) (pending pieces : List (List Byte)) :
    Prop :=
  ∃ new pending', l.Holds lzo (regions ++ new) pending' ∧
    allPieces new ++ pending' = pending ++ pieces ∧ ∀ region ∈ new, region.pieces ≠ []

theorem holds_init (lzo : Lzo) (start : Pages logPagesNr) : (initLogger start).Holds lzo [] [] :=
  ⟨rfl, rfl, fun _ h => (List.not_mem_nil h).elim, fun _ h => (List.not_mem_nil h).elim,
    show 0 < maxLoggerSize by decide⟩

section Step

variable {lzo : Lzo} {l l' : Logger} {regions : List Region} {pending : List (List Byte)}

theorem write_ok {data : List Byte} (h : l.write data = .ok l') :
    l.buf.length + data.length ≤ logPagesNr * pageSize ∧ l' = { l with buf := l.buf ++ data } := by
  unfold Logger.write at h
  split_ifs at h with hroom
  cases h
  exact ⟨hroom, rfl⟩

theorem flush_ok (h : flushLoggerBuffer lzo l = .ok l') :
    lzo.compress l.buf ≠ [] ∧
      l' = { l with buf := [], file := l.file ++ compressedRegion l.buf.length (lzo.compress l.buf) } := by
  unfold flushLoggerBuffer compressLoggerBuffer at h
  obtain ⟨out, hout, h⟩ := bind_eq_ok.mp h
  obtain ⟨_, -, hout⟩ := bind_eq_ok.mp hout
  obtain ⟨_, hne, hout⟩ := bind_eq_ok.mp hout
  cases hout
  cases h
  exact ⟨of_assert hne, rfl⟩

/-- What fits the buffer makes a region whose sizes do not wrap. -/
theorem sized_compressed (lzo : Lzo) {pieces : List (List Byte)}
    (h : pieces.flatten.length ≤ logPagesNr * pageSize) : (Region.compressed pieces).Sized lzo := by
  have hlen := lzo.length_compress_le pieces.flatten
  unfold logPagesNr pageSize at h
  unfold lzo1xWorstCompress at hlen
  exact ⟨by omega, by omega⟩

/-- A region is added to the file. -/
theorem complete_append (hcomplete : ∀ region ∈ regions, region.Complete lzo) {region : Region}
    (hregion : region.Complete lzo) : ∀ r ∈ regions ++ [region], r.Complete lzo := by
  intro r hr
  rcases List.mem_append.mp hr with hr | hr
  · exact hcomplete r hr
  · rw [List.mem_singleton.mp hr]
    exact hregion

theorem encodeRegions_cons (lzo : Lzo) (region : Region) (regions : List Region) :
    encodeRegions lzo (region :: regions) = region.encode lzo ++ encodeRegions lzo regions :=
  List.flatMap_cons

theorem allPieces_cons (region : Region) (regions : List Region) :
    allPieces (region :: regions) = region.pieces ++ allPieces regions :=
  List.flatMap_cons

theorem encodeRegions_append (lzo : Lzo) (regions : List Region) (region : Region) :
    encodeRegions lzo (regions ++ [region]) = encodeRegions lzo regions ++ region.encode lzo := by
  simp [encodeRegions]

theorem allPieces_append (regions : List Region) (region : Region) :
    allPieces (regions ++ [region]) = allPieces regions ++ region.pieces := by
  simp [allPieces]

/-- A flush makes a region of all that is pending. -/
theorem holds_flush (hfile : l.file = encodeRegions lzo regions) (hbuf : l.buf = pending.flatten)
    (hcomplete : ∀ region ∈ regions, region.Complete lzo)
    (hne : ∀ piece ∈ allPieces regions ++ pending, piece ≠ [])
    (hlen : l.buf.length ≤ logPagesNr * pageSize) (hok : flushLoggerBuffer lzo l = .ok l') :
    l'.Holds lzo (regions ++ [.compressed pending]) [] := by
  obtain ⟨hcompress, rfl⟩ := flush_ok hok
  rw [hbuf] at hcompress
  refine ⟨?_, rfl, complete_append hcomplete ⟨sized_compressed lzo (hbuf ▸ hlen), hcompress⟩, ?_,
    show 0 < maxLoggerSize by decide⟩
  · rw [encodeRegions_append, ← hfile, hbuf]
    rfl
  · rw [allPieces_append, List.append_nil]
    exact hne

theorem maxLoggerSize_le : maxLoggerSize ≤ logPagesNr * pageSize := Nat.sub_le _ _

theorem Logger.Holds.flush (h : l.Holds lzo regions pending) (hok : flushLoggerBuffer lzo l = .ok l') :
    l'.Holds lzo (regions ++ [.compressed pending]) [] :=
  holds_flush h.file h.buf h.complete h.nonempty (h.room.le.trans maxLoggerSize_le) hok

theorem flatten_append_singleton (h : l.buf = pending.flatten) (data : List Byte) :
    l.buf ++ data = (pending ++ [data]).flatten := by
  rw [List.flatten_append, List.flatten_singleton, h]

theorem Logger.Holds.nonempty_append (h : l.Holds lzo regions pending) {data : List Byte}
    (hdata : data ≠ []) : ∀ piece ∈ allPieces regions ++ (pending ++ [data]), piece ≠ [] := by
  intro piece hpiece
  rw [← List.append_assoc] at hpiece
  rcases List.mem_append.mp hpiece with hpiece | hpiece
  · exact h.nonempty piece hpiece
  · rw [List.mem_singleton.mp hpiece]
    exact hdata

/-- A record of a compiled branch is added. -/
theorem Logger.Holds.writeChecked (h : l.Holds lzo regions pending) {data : List Byte}
    (hdata : data ≠ []) (hok : Log.writeChecked lzo l data = .ok l') :
    l'.Adds lzo regions pending [data] := by
  obtain ⟨l₁, hwrite, hcheck⟩ := bind_eq_ok.mp hok
  obtain ⟨hroom, hl₁⟩ := write_ok hwrite
  have hbuf : l₁.buf = (pending ++ [data]).flatten := by
    rw [hl₁]
    exact flatten_append_singleton h.buf data
  have hfile : l₁.file = encodeRegions lzo regions := by
    rw [hl₁]
    exact h.file
  unfold doCheckLoggerBuffer at hcheck
  split_ifs at hcheck with hlt
  · cases hcheck
    refine ⟨[], pending ++ [data], ?_, rfl, fun _ h => (List.not_mem_nil h).elim⟩
    rw [List.append_nil]
    exact ⟨hfile, hbuf, h.complete, h.nonempty_append hdata, Nat.lt_of_add_lt_add_left hlt⟩
  · refine ⟨[.compressed (pending ++ [data])], [], holds_flush hfile hbuf h.complete
      (h.nonempty_append hdata) ?_ hcheck, ?_, ?_⟩
    · rw [hl₁, List.length_append]
      exact hroom
    · simp [allPieces, Region.pieces]
    · simp [Region.pieces]

/-- What fits the buffer has space: the pointer does not wrap, since the buffer lies below
the end of user space. -/
theorem hasSpace_of_lt {size : ℕ} (h : l.buf.length + size < maxLoggerSize) : l.hasSpace size := by
  have hstart := l.start.2.2
  have hmax := maxLoggerSize_le
  unfold Logger.hasSpace Logger.current Logger.bufferEnd
  unfold userEnd at hstart
  rw [Nat.mod_eq_of_lt (by omega)]
  omega

/-- Data that fit are appended. -/
theorem appendBuffer_fits {data : Data} (hne : data.1.length ≠ 0)
    (h : l.buf.length + data.1.length < maxLoggerSize) :
    appendBuffer lzo l data = .ok { l with buf := l.buf ++ data.1 } := by
  unfold appendBuffer
  refine bind_eq_ok.mpr ⟨(), assert_of_true hne _, ?_⟩
  rw [if_pos (hasSpace_of_lt h)]
  exact if_pos (h.le.trans maxLoggerSize_le)

/-- What fits before the end of the buffer is added. -/
theorem Logger.Holds.write (h : l.Holds lzo regions pending) {data : List Byte} (hdata : data ≠ [])
    (hspace : l.hasSpace data.length) (hok : l.write data = .ok l') :
    l'.Holds lzo regions (pending ++ [data]) := by
  obtain ⟨hroom, rfl⟩ := write_ok hok
  refine ⟨h.file, flatten_append_singleton h.buf data, h.complete, h.nonempty_append hdata, ?_⟩
  -- the pointer does not wrap: the buffer lies below the end of user space
  have hstart := l.start.2.2
  unfold Logger.hasSpace Logger.current Logger.bufferEnd at hspace
  have hlt : l.start.1 + l.buf.length + data.length < 2 ^ 32 := by
    unfold userEnd at hstart
    omega
  rw [Nat.mod_eq_of_lt hlt] at hspace
  rw [List.length_append]
  omega

/-- The buffer is empty if nothing is pending. -/
theorem Logger.Holds.buf_eq_nil_iff (h : l.Holds lzo regions pending) : l.buf = [] ↔ pending = [] := by
  rw [h.buf, List.flatten_eq_nil_iff]
  constructor
  · intro hall
    rw [List.eq_nil_iff_forall_not_mem]
    intro piece hpiece
    exact h.nonempty piece (List.mem_append_right _ hpiece) (hall piece hpiece)
  · rintro rfl piece hpiece
    cases hpiece

/-- What is pending becomes a region when the buffer is made empty. -/
def flushed (pending : List (List Byte)) : List Region :=
  if pending = [] then [] else [.compressed pending]

@[simp] theorem allPieces_flushed (pending : List (List Byte)) : allPieces (flushed pending) = pending := by
  unfold flushed
  split_ifs with h
  · exact h.symm
  · simp [allPieces, Region.pieces]

theorem pieces_ne_nil_of_mem_flushed {region : Region} (h : region ∈ flushed pending) :
    region.pieces ≠ [] := by
  unfold flushed at h
  split_ifs at h with hnil
  · cases h
  · rw [List.mem_singleton.mp h]
    exact hnil

/-- What `append_buffer` does first leaves all in the file. -/
theorem Logger.Holds.makeSpace (h : l.Holds lzo regions pending) (hok : Log.makeSpace lzo l = .ok l') :
    l'.Holds lzo (regions ++ flushed pending) [] := by
  have hpending := h.buf_eq_nil_iff
  unfold Log.makeSpace Logger.current at hok
  unfold flushed
  split_ifs at hok with hgt
  · rw [if_neg]
    · exact h.flush hok
    · rintro rfl
      rw [hpending.mpr rfl, List.length_nil] at hgt
      exact absurd hgt (Nat.lt_irrefl _)
  · cases hok
    have hnil : pending = [] := by
      rw [← hpending, ← List.length_eq_zero_iff]
      omega
    subst hnil
    rw [if_pos rfl, List.append_nil]
    exact h

/-- **Where `append_buffer` puts its data**: behind what is pending if they fit there, else
in a buffer of their own, and the largest in a region of their own. -/
theorem Logger.Holds.appendBuffer_cases (h : l.Holds lzo regions pending) {data : Data}
    (hok : Log.appendBuffer lzo l data = .ok l') :
    l.buf.length + data.1.length < maxLoggerSize ∧ l'.Holds lzo regions (pending ++ [data.1]) ∨
      maxLoggerSize ≤ l.buf.length + data.1.length ∧
        (l'.Holds lzo (regions ++ flushed pending) [data.1] ∨
          data.1.length > maxLoggerSize ∧
            l'.Holds lzo (regions ++ flushed pending ++ [.uncompressed data.1]) []) := by
  unfold Log.appendBuffer at hok
  obtain ⟨_, hne, hok⟩ := bind_eq_ok.mp hok
  have hdata : data.1 ≠ [] := by
    intro hnil
    rw [hnil] at hne
    cases hne
  split_ifs at hok with hspace
  · have h' := h.write hdata hspace hok
    refine .inl ⟨?_, h'⟩
    rw [← List.length_append, flatten_append_singleton h.buf, ← h'.buf]
    exact h'.room
  · obtain ⟨l₁, hmake, hok⟩ := bind_eq_ok.mp hok
    have h₁ := h.makeSpace hmake
    refine .inr ⟨not_lt.mp (mt hasSpace_of_lt hspace), ?_⟩
    split_ifs at hok with hspace₁
    · exact .inl (h₁.write hdata hspace₁ hok)
    · obtain ⟨_, hlarge, hok⟩ := bind_eq_ok.mp hok
      cases hok
      refine .inr ⟨of_assert hlarge, ?_, h₁.buf, complete_append h₁.complete ⟨data.2, hdata⟩, ?_, h₁.room⟩
      · rw [encodeRegions_append, ← h₁.file]
        rfl
      · have hall := h₁.nonempty_append hdata
        rw [List.nil_append] at hall
        rw [allPieces_append, List.append_nil]
        exact hall

/-- A buffer is flushed, if the compressor gives something. -/
theorem Logger.Holds.exists_flush (h : l.Holds lzo regions pending) (hout : lzo.compress l.buf ≠ []) :
    ∃ l', flushLoggerBuffer lzo l = .ok l' := by
  have hin : l.buf.length ≤ lzo1xWorstCompress (logPagesNr * pageSize) := by
    have hroom := h.room.le.trans maxLoggerSize_le
    unfold lzo1xWorstCompress
    omega
  unfold flushLoggerBuffer compressLoggerBuffer
  rw [assert_of_true hin, assert_of_true hout]
  exact ⟨_, rfl⟩

/-- Where the pointer does not wrap, what does not fit has no space. -/
theorem not_hasSpace_of_le {size : ℕ} (hwrap : l.current + size < 2 ^ 32)
    (h : maxLoggerSize ≤ l.buf.length + size) : ¬ l.hasSpace size := by
  unfold Logger.hasSpace
  rw [Nat.mod_eq_of_lt hwrap]
  unfold Logger.current Logger.bufferEnd
  omega

theorem Logger.Holds.exists_makeSpace (h : l.Holds lzo regions pending) (hout : lzo.compress l.buf ≠ []) :
    ∃ l', Log.makeSpace lzo l = .ok l' := by
  unfold Log.makeSpace
  split_ifs
  · exact h.exists_flush hout
  · exact ⟨l, rfl⟩

/-- The buffer stays where it is. -/
theorem makeSpace_ok {l' : Logger} (h : makeSpace lzo l = .ok l') : l'.current ≤ l.current := by
  unfold makeSpace at h
  split_ifs at h
  · rw [(flush_ok h).2]
    exact Nat.add_le_add_left (Nat.zero_le _) _
  · cases h
    exact le_rfl

/-- Data of any size but one are appended, if the pointer does not wrap and the compressor
gives something. -/
theorem Logger.Holds.exists_appendBuffer_of_ne (h : l.Holds lzo regions pending)
    (hout : lzo.compress l.buf ≠ []) (data : Data) (hne : data.1.length ≠ 0)
    (hmax : data.1.length ≠ maxLoggerSize) (hwrap : l.current + data.1.length < 2 ^ 32) :
    ∃ l', Log.appendBuffer lzo l data = .ok l' := by
  by_cases hfits : l.buf.length + data.1.length < maxLoggerSize
  · exact ⟨_, appendBuffer_fits hne hfits⟩
  · have hspace := not_hasSpace_of_le hwrap (not_lt.mp hfits)
    obtain ⟨l₁, hmake⟩ := h.exists_makeSpace hout
    have hempty : l₁.buf = [] := (h.makeSpace hmake).buf
    have hle := makeSpace_ok hmake
    have hlength : l₁.buf.length + data.1.length = data.1.length := by
      rw [hempty, List.length_nil, Nat.zero_add]
    -- in the empty buffer the data fit, or they are larger than it
    rcases lt_or_gt_of_ne hmax with hlt | hgt
    · have hlt₁ : l₁.buf.length + data.1.length < maxLoggerSize := hlength.trans_lt hlt
      refine ⟨{ l₁ with buf := l₁.buf ++ data.1 }, bind_eq_ok.mpr ⟨(), assert_of_true hne _, ?_⟩⟩
      rw [if_neg hspace]
      refine bind_eq_ok.mpr ⟨l₁, hmake, ?_⟩
      rw [if_pos (hasSpace_of_lt hlt₁)]
      exact if_pos (hlt₁.le.trans maxLoggerSize_le)
    · have hspace₁ := not_hasSpace_of_le (by omega) (hgt.le.trans_eq hlength.symm)
      refine ⟨{ l₁ with file := l₁.file ++ uncompressedRegion data.1 },
        bind_eq_ok.mpr ⟨(), assert_of_true hne _, ?_⟩⟩
      rw [if_neg hspace]
      refine bind_eq_ok.mpr ⟨l₁, hmake, ?_⟩
      rw [if_neg hspace₁]
      exact bind_eq_ok.mpr ⟨(), assert_of_true hgt _, rfl⟩

/-- Small data are appended, if the compressor gives something. -/
theorem Logger.Holds.exists_appendBuffer (h : l.Holds lzo regions pending)
    (hout : lzo.compress l.buf ≠ []) (data : Data) (hne : data.1.length ≠ 0)
    (hlt : data.1.length < maxLoggerSize) : ∃ l', Log.appendBuffer lzo l data = .ok l' := by
  refine h.exists_appendBuffer_of_ne hout data hne hlt.ne ?_
  have hstart := l.start.2.2
  have hroom := h.room
  unfold Logger.current
  unfold userEnd at hstart
  unfold maxLoggerSize logPagesNr pageSize at *
  omega

/-- **`append_buffer` adds its data.** -/
theorem Logger.Holds.appendBuffer (h : l.Holds lzo regions pending) {data : Data}
    (hok : Log.appendBuffer lzo l data = .ok l') : l'.Adds lzo regions pending [data.1] := by
  rcases h.appendBuffer_cases hok with ⟨-, h'⟩ | ⟨-, h' | ⟨-, h'⟩⟩
  · refine ⟨[], pending ++ [data.1], ?_, rfl, fun _ h => (List.not_mem_nil h).elim⟩
    rwa [List.append_nil]
  · refine ⟨flushed pending, [data.1], h', by rw [allPieces_flushed], ?_⟩
    exact fun region hregion => pieces_ne_nil_of_mem_flushed hregion
  · rw [List.append_assoc] at h'
    refine ⟨flushed pending ++ [.uncompressed data.1], [], h', ?_, ?_⟩
    · rw [allPieces_append, allPieces_flushed, List.append_nil]
      rfl
    · intro region hregion
      rcases List.mem_append.mp hregion with hregion | hregion
      · exact pieces_ne_nil_of_mem_flushed hregion
      · rw [List.mem_singleton.mp hregion]
        exact List.cons_ne_nil _ _

/-- Small data are in the buffer afterwards. -/
theorem appendBuffer_buf_ne_nil {data : Data} (hdata : data.1.length ≤ maxLoggerSize)
    (hok : Log.appendBuffer lzo l data = .ok l') : l'.buf ≠ [] := by
  unfold Log.appendBuffer at hok
  obtain ⟨_, hne, hok⟩ := bind_eq_ok.mp hok
  have hwrite : ∀ {l : Logger}, l.write data.1 = .ok l' → l'.buf ≠ [] := by
    intro l h hnil
    obtain ⟨-, rfl⟩ := write_ok h
    rw [(List.append_eq_nil_iff.mp hnil).2] at hne
    cases hne
  split_ifs at hok
  · exact hwrite hok
  · obtain ⟨l₁, -, hok⟩ := bind_eq_ok.mp hok
    split_ifs at hok
    · exact hwrite hok
    · obtain ⟨_, hlarge, -⟩ := bind_eq_ok.mp hok
      rw [assert_of_false (not_lt.mpr hdata)] at hlarge
      cases hlarge

/-- One operation adds its pieces; only a flush of an empty buffer makes a region without
any. -/
theorem Logger.Holds.step (h : l.Holds lzo regions pending) {op : Op}
    (hok : Log.step lzo l op = .ok l') :
    ∃ new pending', l'.Holds lzo (regions ++ new) pending' ∧
      allPieces new ++ pending' = pending ++ op.pieces ∧
      ((∀ region ∈ new, region.pieces ≠ []) ↔ (op = .flush → l.buf ≠ [])) := by
  have hadds : ∀ {pieces}, op ≠ .flush → l'.Adds lzo regions pending pieces → ∃ new pending',
      l'.Holds lzo (regions ++ new) pending' ∧ allPieces new ++ pending' = pending ++ pieces ∧
        ((∀ region ∈ new, region.pieces ≠ []) ↔ (op = .flush → l.buf ≠ [])) := by
    rintro pieces hop ⟨new, pending', hnew, hpieces, hne⟩
    exact ⟨new, pending', hnew, hpieces, fun _ hflush => absurd hflush hop, fun _ => hne⟩
  cases op with
  | branch target => exact hadds Op.noConfusion (h.writeChecked (leBytes_ne_nil target) hok)
  | rdtsc eax edx => exact hadds Op.noConfusion (h.writeChecked (List.cons_ne_nil _ _) hok)
  | append data => exact hadds Op.noConfusion (h.appendBuffer hok)
  | flush =>
    refine ⟨[.compressed pending], [], h.flush hok, ?_, ?_⟩
    · simp [allPieces, Region.pieces, Op.pieces]
    · simp [Region.pieces, h.buf_eq_nil_iff]

end Step

theorem run_cons {lzo : Lzo} {l l₁ l' : Logger} {op : Op} {ops : List Op}
    (hstep : step lzo l op = .ok l₁) (hrun : run lzo l₁ ops = .ok l') :
    run lzo l (op :: ops) = .ok l' :=
  bind_eq_ok.mpr ⟨l₁, hstep, hrun⟩

/-- **No flush comes at an empty buffer.** -/
def FlushesFull (lzo : Lzo) (l : Logger) (ops : List Op) : Prop :=
  ∀ past rest l', ops = past ++ .flush :: rest → run lzo l past = .ok l' → l'.buf ≠ []

theorem flushesFull_cons {lzo : Lzo} {l l₁ : Logger} {op : Op} {ops : List Op}
    (hstep : step lzo l op = .ok l₁) :
    FlushesFull lzo l (op :: ops) ↔ (op = .flush → l.buf ≠ []) ∧ FlushesFull lzo l₁ ops := by
  constructor
  · intro h
    refine ⟨?_, ?_⟩
    · rintro rfl
      exact h [] ops l rfl rfl
    · rintro past rest l' rfl hrun
      exact h (op :: past) rest l' rfl (run_cons hstep hrun)
  · rintro ⟨hop, hops⟩ past rest l' heq hrun
    cases past with
    | nil =>
      cases heq
      cases hrun
      exact hop rfl
    | cons first past =>
      cases heq
      obtain ⟨l₂, hstep₂, hrun⟩ := bind_eq_ok.mp hrun
      rw [hstep] at hstep₂
      cases hstep₂
      exact hops past rest l' rfl hrun

theorem flushesFull_of_no_flush {lzo : Lzo} {l : Logger} {ops : List Op} (h : ∀ op ∈ ops, op ≠ .flush) :
    FlushesFull lzo l ops := by
  rintro past rest l' rfl -
  exact absurd rfl (h .flush (List.mem_append_right _ List.mem_cons_self))

/-- **Operations add their pieces**, in order and whole; a region is empty only by a flush
of an empty buffer. -/
theorem run_holds {lzo : Lzo} {ops : List Op} {l l' : Logger} {regions : List Region}
    {pending : List (List Byte)} (h : l.Holds lzo regions pending) (hok : run lzo l ops = .ok l') :
    ∃ new pending', l'.Holds lzo (regions ++ new) pending' ∧
      allPieces new ++ pending' = pending ++ ops.flatMap Op.pieces ∧
      ((∀ region ∈ new, region.pieces ≠ []) ↔ FlushesFull lzo l ops) := by
  induction ops generalizing l regions pending with
  | nil =>
    cases hok
    refine ⟨[], pending, by rwa [List.append_nil], by simp [allPieces], ?_, ?_⟩
    · exact fun _ => flushesFull_of_no_flush fun _ hmem => (List.not_mem_nil hmem).elim
    · exact fun _ _ hmem => (List.not_mem_nil hmem).elim
  | cons op ops ih =>
    obtain ⟨l₁, hstep, hok⟩ := bind_eq_ok.mp hok
    obtain ⟨new₁, pending₁, h₁, hpieces₁, hne₁⟩ := h.step hstep
    obtain ⟨new₂, pending₂, h₂, hpieces₂, hne₂⟩ := ih h₁ hok
    refine ⟨new₁ ++ new₂, pending₂, by rwa [← List.append_assoc], ?_, ?_⟩
    · calc allPieces (new₁ ++ new₂) ++ pending₂
          = allPieces new₁ ++ (allPieces new₂ ++ pending₂) := by simp [allPieces]
        _ = pending ++ (op :: ops).flatMap Op.pieces := by
            rw [hpieces₂, ← List.append_assoc, hpieces₁, List.flatMap_cons, List.append_assoc]
    · rw [flushesFull_cons hstep, ← hne₁, ← hne₂]
      exact List.forall_mem_append

/-- A compressor that only marks the end. -/
def endMarked : Lzo where
  compress data := data ++ [0x11, 0, 0]
  decompress data size := data.take size
  decompress_compress data := by simp
  length_compress_le data := by
    unfold lzo1xWorstCompress
    simp only [List.length_append, List.length_cons, List.length_nil]
    omega

end Snitchaser.Log
