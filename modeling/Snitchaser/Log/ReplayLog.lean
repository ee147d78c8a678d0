import Snitchaser.Log.Logger

/-!
# The replayer's log

`replay_log.c`: the log file read back, region by region.

## The model

* `Reader` are the static variables of the file: what of the log file is not read yet, and
  what of the uncompressed region is not.
* A function that may throw is a `ReadM`: what it read stays read when it throws.
* `uncompress_log` loops until an exception; it takes fuel here.

## What is proved

A region that the logger wrote is read back (`nextRegion_encode`), a read inside a region
gives its bytes (`readLogFull_of_le`), and `uncompress_logged`: what `uncompress_log`
writes are **all logged bytes, in order**, whatever was logged.
-/

namespace Snitchaser.Log

open Foundation Interp

/-- `enum exception_type`, those that are thrown here. -/
inductive ExpType where
  | logEnd | logCorrupted | fileCorrupted | fileEnd | fileWriteError | lzoInflate | syscallReplayer
  deriving DecidableEq, Repr

/-- How the replayer stops: by an exception, with its format text, or waiting for a
message that does not come. -/
inductive Stop where
  | throw (type : ExpType) (msg : String)
  | blocked
  deriving DecidableEq, Repr

/-- The end of the log. -/
def fileIsEnd : Stop := .throw .logEnd "file is end"

/-- The static variables of `replay_log.c`. -/
structure Reader where
  /-- What is left of `log_fp`. -/
  file : List Byte
  /-- From `uncomp_data_buffer_ptr` to `uncomp_end`. -/
  region : List Byte
  deriving DecidableEq

/-- `open_log`. -/
def openLog (file : List Byte) : Reader := ⟨file, []⟩

/-- A function that may throw. -/
abbrev ReadM := EStateM Stop Reader

/-- `read_from_file`: `fread` of one item. -/
def readFromFile (sz : ℕ) : ReadM (List Byte) := fun r =>
  if sz ≤ r.file.length then .ok (r.file.take sz) { r with file := r.file.drop sz }
  else .error fileIsEnd { r with file := [] }

/-- A `uint32_t` or `size_t` read from the file. -/
def readSize : ReadM ℕ := do
  let bytes ← readFromFile 4
  return (leWord bytes).toNat

/-- The uncompressed buffer is replaced. -/
def setRegion (region : List Byte) : ReadM Unit := fun r => .ok () { r with region := region }

/-- `next_region`. -/
def nextRegion (lzo : Lzo) : ReadM Unit := do
  setRegion []
  let mark ← readFromFile 1
  if mark = [compressedDataMark] then
    let realSz ← readSize
    let compressedSz ← readSize
    let compressed ← readFromFile compressedSz
    if (lzo.decompress compressed realSz).length ≠ realSz then
      throw (.throw .lzoInflate "deflate size error: should be %d, real is %d")
    else
      setRegion (lzo.decompress compressed realSz)
  else if mark = [uncompressedDataMark] then
    let size ← readSize
    let data ← readFromFile size
    setRegion data
  else
    throw (.throw .fileCorrupted "wrong mark: 0x%x")

/-- `read_log(buffer, size)`: the bytes it read. -/
def readLog (lzo : Lzo) (size : ℕ) : ReadM (List Byte) := fun r =>
  if size ≤ r.region.length then .ok (r.region.take size) { r with region := r.region.drop size }
  else if r.region ≠ [] then .ok r.region { r with region := [] }
  else (nextRegion lzo *> pure []).run r

/-- `read_log_full(buf, size)`; `lastZero` is the variable of its loop. -/
def readLogFull (lzo : Lzo) (size : ℕ) (lastZero : Bool) : ReadM (List Byte) :=
  if size = 0 then pure []
  else do
    let data ← readLog lzo size
    if _h : data = [] then
      if lastZero then throw (.throw .logCorrupted "unable to read %d data from log")
      else readLogFull lzo size true
    else
      let rest ← readLogFull lzo (size - data.length) false
      return data ++ rest
termination_by 2 * size + if lastZero then 0 else 1
decreasing_by
  · simp_all
  · have hpos := List.length_pos_of_ne_nil _h
    split_ifs <;> omega

/-- `readahead_log(data, sz)`; no bytes at the end of the log. -/
def readaheadLog (lzo : Lzo) (sz : ℕ) : ReadM (Option (List Byte)) := fun r =>
  if sz ≤ r.region.length then .ok (some (r.region.take sz)) r
  else if r.region ≠ [] then
    .error (.throw .logCorrupted "unable to readahead %d bytes: %d bytes left") r
  else
    match (nextRegion lzo).run r with
    | .error (.throw .logEnd _) r => .ok none r
    | .error e r => .error e r
    | .ok _ r =>
      if r.region.length < sz then .error (.throw .logCorrupted "unaligned readahead") r
      else .ok (some (r.region.take sz)) r

/-- `readahead_log_ptr`. -/
def readaheadLogPtr (lzo : Lzo) : ReadM Word := do
  match ← readaheadLog lzo 4 with
  | some bytes => return leWord bytes
  | none => return 0xffffffff

/-- `BUFFER_SZ`. -/
def bufferSz : ℕ := 1024 * 1024

/-- The loop of `uncompress_log`, with the output so far: what ends it, and the output
then. -/
def uncompressLoop (lzo : Lzo) : ℕ → Reader → List Byte → Option (Stop × List Byte)
  | 0, _, _ => none
  | fuel + 1, r, out =>
    match (readLog lzo bufferSz).run r with
    | .ok data r => uncompressLoop lzo fuel r (out ++ data)
    | .error e _ => some (e, out)

/-- `uncompress_log`: it ends normally when the log does. -/
def uncompressLog (lzo : Lzo) (fuel : ℕ) (file : List Byte) : Option (Except Stop (List Byte)) :=
  match uncompressLoop lzo fuel (openLog file) [] with
  | none => none
  | some (.throw .logEnd _, out) => some (.ok out)
  | some (e, _) => some (.error e)

/-! ### Reading -/

theorem run_readFromFile (data rest region : List Byte) {n : ℕ} (h : data.length = n) :
    (readFromFile n).run ⟨data ++ rest, region⟩ = .ok data ⟨rest, region⟩ := by
  subst h
  show readFromFile _ _ = _
  unfold readFromFile
  simp

theorem run_readMark (mark : Byte) (rest region : List Byte) :
    (readFromFile 1).run ⟨mark :: rest, region⟩ = .ok [mark] ⟨rest, region⟩ :=
  run_readFromFile [mark] rest region rfl

theorem run_readSize {n : ℕ} (h : n < 2 ^ 32) (rest region : List Byte) :
    readSize.run ⟨leBytes (BitVec.ofNat 32 n) ++ rest, region⟩ = .ok n ⟨rest, region⟩ := by
  unfold readSize
  rw [run_bind_ok (run_readFromFile (n := 4) (leBytes (BitVec.ofNat 32 n)) rest region rfl),
    leWord_leBytes, toNat_ofNat_of_lt h]
  rfl

theorem run_setRegion (region file cur : List Byte) :
    (setRegion region).run ⟨file, cur⟩ = .ok () ⟨file, region⟩ := rfl

/-- **A region of the logger is read back.** -/
theorem nextRegion_encode (lzo : Lzo) {region : Region} (h : region.Sized lzo)
    (rest cur : List Byte) :
    (nextRegion lzo).run ⟨region.encode lzo ++ rest, cur⟩ = .ok () ⟨rest, region.data⟩ := by
  unfold nextRegion
  rw [run_bind_ok (run_setRegion [] _ cur)]
  cases region with
  | compressed pieces =>
    obtain ⟨hreal, hcomp⟩ := h
    simp only [Region.encode, compressedRegion, List.cons_append, List.append_assoc]
    rw [run_bind_ok (run_readMark _ _ _), if_pos rfl,
      run_bind_ok (run_readSize hreal _ _), run_bind_ok (run_readSize hcomp _ _),
      run_bind_ok (run_readFromFile _ _ _ rfl), lzo.decompress_compress, if_neg (not_not.mpr rfl)]
    rfl
  | uncompressed piece =>
    simp only [Region.encode, uncompressedRegion, List.cons_append, List.append_assoc]
    rw [run_bind_ok (run_readMark _ _ _), if_neg (by decide),
      if_pos rfl, run_bind_ok (run_readSize h _ _), run_bind_ok (run_readFromFile _ _ _ rfl),
      run_setRegion]
    simp [Region.data, Region.pieces]

/-- There is no region behind the last. -/
theorem nextRegion_nil (lzo : Lzo) (cur : List Byte) :
    (nextRegion lzo).run ⟨[], cur⟩ = .error fileIsEnd ⟨[], []⟩ := rfl

section ReadLog

variable (lzo : Lzo) {size : ℕ} {file region : List Byte}

theorem run_readLog_of_le (h : size ≤ region.length) :
    (readLog lzo size).run ⟨file, region⟩ = .ok (region.take size) ⟨file, region.drop size⟩ :=
  if_pos h

/-- What the region begins with is read. -/
theorem run_readLog_append (data rest : List Byte) :
    (readLog lzo data.length).run ⟨file, data ++ rest⟩ = .ok data ⟨file, rest⟩ := by
  rw [run_readLog_of_le lzo (by simp), List.take_left, List.drop_left]

theorem run_readLog_of_lt (h : region.length < size) (hne : region ≠ []) :
    (readLog lzo size).run ⟨file, region⟩ = .ok region ⟨file, []⟩ :=
  (if_neg (not_le.mpr h)).trans (if_pos hne)

/-- At the end of a region, `read_log` only goes on to the next. -/
theorem run_readLog_nil (h : 0 < size) :
    (readLog lzo size).run ⟨file, []⟩ = (nextRegion lzo *> pure []).run ⟨file, []⟩ :=
  (if_neg (not_le.mpr h)).trans (if_neg (not_not.mpr rfl))

theorem run_readLog_next {r : Reader} (h : 0 < size)
    (hnext : (nextRegion lzo).run ⟨file, []⟩ = .ok () r) :
    (readLog lzo size).run ⟨file, []⟩ = .ok [] r := by
  rw [run_readLog_nil lzo h, seqRight_eq_bind, run_bind_ok hnext]
  rfl

theorem run_readLog_end (h : 0 < size) :
    (readLog lzo size).run ⟨[], []⟩ = .error fileIsEnd ⟨[], []⟩ := by
  rw [run_readLog_nil lzo h, seqRight_eq_bind, run_bind_error (nextRegion_nil lzo [])]

end ReadLog

/-! ### `uncompress_log` -/

section Uncompress

variable (lzo : Lzo)

theorem uncompressLoop_ok {r r' : Reader} {data : List Byte}
    (h : (readLog lzo bufferSz).run r = .ok data r') (fuel : ℕ) (out : List Byte) :
    uncompressLoop lzo (fuel + 1) r out = uncompressLoop lzo fuel r' (out ++ data) := by
  rw [uncompressLoop, h]

/-- A region is written out, a buffer at a time. -/
theorem uncompressLoop_region (file region : List Byte) :
    ∃ n, ∀ fuel out, uncompressLoop lzo (fuel + n) ⟨file, region⟩ out =
      uncompressLoop lzo fuel ⟨file, []⟩ (out ++ region) := by
  -- by induction on the size of the region
  induction hlen : region.length using Nat.strong_induction_on generalizing region with
  | _ len ih =>
    by_cases hnil : region = []
    · subst hnil
      exact ⟨0, fun fuel out => by simp⟩
    by_cases hle : bufferSz ≤ region.length
    · have hdrop : (region.drop bufferSz).length < len := by
        rw [List.length_drop, hlen]
        unfold bufferSz at hle ⊢
        omega
      obtain ⟨n, hn⟩ := ih _ hdrop (region.drop bufferSz) rfl
      refine ⟨n + 1, fun fuel out => ?_⟩
      rw [← Nat.add_assoc, uncompressLoop_ok lzo (run_readLog_of_le lzo hle), hn,
        List.append_assoc, List.take_append_drop]
    · refine ⟨1, fun fuel out => ?_⟩
      rw [uncompressLoop_ok lzo (run_readLog_of_lt lzo (not_le.mp hle) hnil)]

/-- All regions are written out. -/
theorem uncompressLoop_regions {regions : List Region} (h : ∀ region ∈ regions, region.Sized lzo) :
    ∃ n, ∀ fuel out, uncompressLoop lzo (fuel + n) ⟨encodeRegions lzo regions, []⟩ out =
      uncompressLoop lzo fuel ⟨[], []⟩ (out ++ (allPieces regions).flatten) := by
  induction regions with
  | nil => exact ⟨0, fun fuel out => by simp [encodeRegions, allPieces]⟩
  | cons region regions ih =>
    obtain ⟨m, hm⟩ := ih fun r hr => h r (List.mem_cons_of_mem _ hr)
    obtain ⟨n, hn⟩ := uncompressLoop_region lzo (encodeRegions lzo regions) region.data
    have hnext := nextRegion_encode lzo (h region List.mem_cons_self) (encodeRegions lzo regions) []
    refine ⟨m + n + 1, fun fuel out => ?_⟩
    rw [encodeRegions_cons, ← Nat.add_assoc, uncompressLoop_ok lzo (run_readLog_next lzo (by decide) hnext),
      ← Nat.add_assoc, hn, hm]
    simp [allPieces, Region.data]

/-- **What is in the regions of a file is written out.** -/
theorem uncompressLog_regions {regions : List Region} (h : ∀ region ∈ regions, region.Sized lzo) :
    ∃ n, ∀ fuel ≥ n, uncompressLog lzo fuel (encodeRegions lzo regions) =
      some (.ok (allPieces regions).flatten) := by
  obtain ⟨n, hn⟩ := uncompressLoop_regions lzo h
  refine ⟨n + 1, fun fuel hfuel => ?_⟩
  obtain ⟨k, rfl⟩ := Nat.exists_eq_add_of_le hfuel
  have hend : uncompressLoop lzo (k + 1) ⟨[], []⟩ ([] ++ (allPieces regions).flatten) =
      some (fileIsEnd, (allPieces regions).flatten) := by
    rw [uncompressLoop, run_readLog_end lzo (by decide), List.nil_append]
  unfold uncompressLog openLog
  rw [show n + 1 + k = k + 1 + n by omega, hn, hend]
  rfl

end Uncompress

/-- The bytes an operation logs. -/
def Op.bytes (op : Op) : List Byte := op.pieces.flatten

/-- **The log comes back**: whatever was logged, and flushed wherever, `uncompress_log`
writes all of it, in order. -/
theorem uncompress_logged (lzo : Lzo) (start : Pages logPagesNr) {ops : List Op} {l l' : Logger}
    (hrun : run lzo (initLogger start) ops = .ok l) (hflush : flushLoggerBuffer lzo l = .ok l') :
    ∃ n, ∀ fuel ≥ n, uncompressLog lzo fuel l'.file = some (.ok (ops.flatMap Op.bytes)) := by
  obtain ⟨regions, pending, hl, hpieces, -⟩ := run_holds (holds_init lzo start) hrun
  rw [List.nil_append] at hl hpieces
  have hl' := hl.flush hflush
  have hall : (allPieces (regions ++ [.compressed pending])).flatten = ops.flatMap Op.bytes := by
    calc (allPieces (regions ++ [.compressed pending])).flatten
        = (allPieces regions ++ pending).flatten := by simp [allPieces, Region.pieces]
      _ = (ops.flatMap Op.pieces).flatten := by rw [hpieces]
      _ = ops.flatMap Op.bytes := by
          rw [List.flatMap_def, List.flatten_flatten, List.map_map, List.flatMap_def]
          rfl
  rw [hl'.file, ← hall]
  exact uncompressLog_regions lzo hl'.sized

/-- A branch, a piece of data, a flush, `rdtsc`, and a flush more. -/
def someOps : List Op :=
  [.branch 0x8048000, .append ⟨[1, 2, 3], by decide⟩, .flush, .rdtsc 4 5, .flush]

theorem uncompress_logged_someOps :
    ∃ l l', run endMarked (initLogger ⟨0x10000, by decide⟩) someOps = .ok l ∧
      flushLoggerBuffer endMarked l = .ok l' ∧
      ∃ n, ∀ fuel ≥ n, uncompressLog endMarked fuel l'.file = some (.ok
        [0, 0x80, 4, 8, 1, 2, 3, 1, 0x12, 0, 0, 4, 0, 0, 0, 5, 0, 0, 0]) := by
  obtain ⟨l, hrun, hbuf⟩ := exists_ok (b := ([] : List Byte))
    (x := run endMarked (initLogger ⟨0x10000, by decide⟩) someOps) Logger.buf (by decide +kernel)
  have hflush : flushLoggerBuffer endMarked l =
      .ok { l with buf := [], file := l.file ++ compressedRegion 0 [0x11, 0, 0] } := by
    unfold flushLoggerBuffer
    rw [hbuf]
    rfl
  exact ⟨l, _, hrun, hflush, uncompress_logged endMarked _ hrun hflush⟩

end Snitchaser.Log
