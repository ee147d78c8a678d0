import Snitchaser.Log.ReadBack

/-!
# The stand-alone decompressor

`uncompress_log.c`: a second reader of the same format, with one loop over all regions.

## The model

* `Tool` holds what is left of the input, the output so far, and `dest_buffer_sz`: the
  output buffer is kept from region to region and only grows, and all of it is offered to
  the decompressor. That a larger buffer makes no difference to the decompressor is
  assumed (`Lzo.Roomy`). The input buffer has no such part, and is left out.
* `fread` and `fwrite` of one item of size 0 return 0, which the tool takes for the end of
  the file, or for a failure.
* The loop takes fuel.

## What is proved

`uncompress_agree_iff`: the tool and `uncompress_log` write the same, if and only if there
is a region and none is empty.
-/

namespace Snitchaser.Log

open Foundation Interp

/-- The local variables of `do_uncompress`. -/
structure Tool where
  /-- What is left of `in_fp`. -/
  file : List Byte
  /-- What was written to `out_fp`. -/
  out : List Byte
  /-- `dest_buffer_sz`. -/
  destSz : ℕ

/-- `read_from_file(fp, data, sz)`. -/
def Tool.read (t : Tool) (sz : ℕ) : Except Stop (List Byte × Tool) :=
  if 0 < sz ∧ sz ≤ t.file.length then .ok (t.file.take sz, { t with file := t.file.drop sz })
  else .error (.throw .fileEnd "file is end")

/-- `write_to_file(fp, data, sz)`. -/
def Tool.write (t : Tool) (data : List Byte) : Except Stop Tool :=
  if data ≠ [] then .ok { t with out := t.out ++ data }
  else .error (.throw .fileWriteError "write output file error")

/-- The output buffer is made large enough. -/
def Tool.reserve (t : Tool) (sz : ℕ) : Tool :=
  if t.destSz < sz then { t with destSz := sz } else t

/-- The body of the loop, for one region. -/
def Tool.region (lzo : Lzo) (t : Tool) (mark : Byte) : Except Stop Tool :=
  if mark = compressedDataMark then do
    let (tag, t) ← t.read 8
    let realSz := (leWord tag).toNat
    let compressedSz := (leWord (tag.drop 4)).toNat
    let (src, t) ← (t.reserve realSz).read compressedSz
    let data := lzo.decompress src t.destSz
    if data.length ≠ realSz then
      .error (.throw .lzoInflate "deflate size error: should be %d, real is %d")
    else t.write data
  else do
    let (size, t) ← t.read 4
    let (data, t) ← (t.reserve (leWord size).toNat).read (leWord size).toNat
    t.write data

/-- The loop of `do_uncompress`, behind a mark. -/
def Tool.loop (lzo : Lzo) : ℕ → Byte → Tool → Option (Except Stop (List Byte))
  | 0, _, _ => none
  | fuel + 1, mark, t =>
    if mark = compressedDataMark ∨ mark = uncompressedDataMark then
      match t.region lzo mark with
      | .error e => some (.error e)
      | .ok t =>
        match t.file with
        | [] => some (.ok t.out)
        | mark :: file => Tool.loop lzo fuel mark { t with file := file }
    else some (.error (.throw .fileCorrupted "wrong mark 0x%x"))

/-- `do_uncompress`. -/
def doUncompress (lzo : Lzo) (fuel : ℕ) : List Byte → Option (Except Stop (List Byte))
  | [] => some (.error (.throw .fileCorrupted "unable to get first mark"))
  | mark :: file => Tool.loop lzo fuel mark ⟨file, [], 0⟩

/-- **A decompressor that does not mind a larger buffer.** -/
def Lzo.Roomy (lzo : Lzo) : Prop :=
  ∀ data n, data.length ≤ n → lzo.decompress (lzo.compress data) n = data

/-- The mark of a region, and what is behind it. -/
def Region.mark : Region → Byte
  | .compressed _ => compressedDataMark
  | .uncompressed _ => uncompressedDataMark

/-- What is behind the mark. -/
def Region.body (lzo : Lzo) (region : Region) : List Byte := (region.encode lzo).tail

theorem Region.encode_eq (lzo : Lzo) (region : Region) :
    region.encode lzo = region.mark :: region.body lzo := by
  cases region <;> rfl

section Region

variable {lzo : Lzo}

theorem Tool.read_append {data rest out : List Byte} {destSz : ℕ} (h : data ≠ []) {n : ℕ}
    (hn : data.length = n) :
    Tool.read ⟨data ++ rest, out, destSz⟩ n = .ok (data, ⟨rest, out, destSz⟩) := by
  subst hn
  unfold Tool.read
  rw [if_pos ⟨List.length_pos_of_ne_nil h, by simp⟩]
  simp

theorem Tool.reserve_eq (t : Tool) (sz : ℕ) : t.reserve sz = { t with destSz := max t.destSz sz } := by
  unfold Tool.reserve
  split_ifs with h
  · rw [max_eq_right h.le]
  · rw [max_eq_left (not_lt.mp h)]

theorem toNat_leWord_leBytes {n : ℕ} (h : n < 2 ^ 32) (rest : List Byte) :
    (leWord (leBytes (BitVec.ofNat 32 n) ++ rest)).toNat = n := by
  rw [leWord_leBytes_append, toNat_ofNat_of_lt h]

/-- A read that succeeds, and what comes after it. -/
theorem Tool.read_bind {data rest out : List Byte} {destSz n : ℕ} (h : data ≠ [])
    (hn : data.length = n) {β : Type} (k : List Byte × Tool → Except Stop β) :
    (Tool.read ⟨data ++ rest, out, destSz⟩ n >>= k) = k (data, ⟨rest, out, destSz⟩) := by
  rw [Tool.read_append h hn]
  rfl

/-- **The tool writes what is in a region**, and stops at a region without data. -/
theorem Tool.region_body (hroomy : lzo.Roomy) {region : Region} (h : region.Complete lzo)
    (rest out : List Byte) (destSz : ℕ) :
    ∃ destSz', Tool.region lzo ⟨region.body lzo ++ rest, out, destSz⟩ region.mark =
      Tool.write ⟨rest, out, destSz'⟩ region.data := by
  cases region with
  | compressed pieces =>
    obtain ⟨⟨hreal, hcomp⟩, hne⟩ := h
    refine ⟨max destSz pieces.flatten.length, ?_⟩
    have hbody : (Region.compressed pieces).body lzo ++ rest =
        (leBytes (BitVec.ofNat 32 pieces.flatten.length) ++
          leBytes (BitVec.ofNat 32 (lzo.compress pieces.flatten).length)) ++
          (lzo.compress pieces.flatten ++ rest) := by
      simp [Region.body, Region.encode, compressedRegion]
    have hdrop : ∀ v w : Word, (leBytes v ++ leBytes w).drop 4 = leBytes w := fun _ _ => rfl
    have hdata := hroomy pieces.flatten (max destSz pieces.flatten.length) (le_max_right _ _)
    have hmark : (Region.compressed pieces).mark = compressedDataMark := rfl
    have htag : ∀ v w : Word, leBytes v ++ leBytes w ≠ [] ∧ (leBytes v ++ leBytes w).length = 8 :=
      fun _ _ => ⟨List.cons_ne_nil _ _, rfl⟩
    rw [hbody, Tool.region, if_pos hmark, Tool.read_bind (htag _ _).1 (htag _ _).2]
    simp only [hdrop, toNat_leWord_leBytes hreal, leWord_leBytes, BitVec.toNat_ofNat,
      Nat.mod_eq_of_lt hcomp, Tool.reserve_eq]
    rw [Tool.read_bind hne rfl]
    simp only [hdata]
    rw [if_neg (not_not.mpr rfl)]
    rfl
  | uncompressed piece =>
    obtain ⟨hsize, hne⟩ := h
    have hsize' : piece.length < 2 ^ 32 := hsize
    refine ⟨max destSz piece.length, ?_⟩
    have hbody : (Region.uncompressed piece).body lzo ++ rest =
        leBytes (BitVec.ofNat 32 piece.length) ++ (piece ++ rest) := by
      simp [Region.body, Region.encode, uncompressedRegion]
    have hmark : (Region.uncompressed piece).mark ≠ compressedDataMark :=
      show uncompressedDataMark ≠ compressedDataMark by decide
    rw [hbody, Tool.region, if_neg hmark, Tool.read_bind (leBytes_ne_nil _) (length_leBytes _)]
    simp only [leWord_leBytes, toNat_ofNat_of_lt hsize', Tool.reserve_eq]
    rw [Tool.read_bind hne rfl]
    simp [Region.data, Region.pieces]

theorem Tool.loop_succ (fuel : ℕ) {region : Region} {t : Tool} :
    Tool.loop lzo (fuel + 1) region.mark t =
      match t.region lzo region.mark with
      | .error e => some (.error e)
      | .ok t =>
        match t.file with
        | [] => some (.ok t.out)
        | mark :: file => Tool.loop lzo fuel mark { t with file := file } := by
  rw [Tool.loop, if_pos]
  cases region <;> simp [Region.mark]

/-- **The tool comes to an end at the last region, or at the first that is empty.** -/
theorem Tool.loop_regions (hroomy : lzo.Roomy) {region : Region} {regions : List Region}
    (h : ∀ r ∈ region :: regions, r.Complete lzo) (out : List Byte) (destSz : ℕ) :
    ∀ fuel > regions.length,
      Tool.loop lzo fuel region.mark ⟨region.body lzo ++ encodeRegions lzo regions, out, destSz⟩ =
        if ∀ r ∈ region :: regions, r.data ≠ [] then
          some (.ok (out ++ (allPieces (region :: regions)).flatten))
        else some (.error (.throw .fileWriteError "write output file error")) := by
  induction regions generalizing region out destSz with
  | nil =>
    intro fuel hfuel
    obtain ⟨n, rfl⟩ := Nat.exists_eq_succ_of_ne_zero (Nat.ne_of_gt hfuel)
    obtain ⟨destSz', hregion⟩ := Tool.region_body hroomy (h region List.mem_cons_self)
      (encodeRegions lzo []) out destSz
    rw [Nat.succ_eq_add_one, Tool.loop_succ, hregion, Tool.write]
    by_cases hdata : region.data = []
    · rw [if_neg (not_not.mpr hdata), if_neg]
      simp [hdata]
    · rw [if_pos hdata, if_pos (by simpa using hdata)]
      simp [encodeRegions, allPieces, Region.data]
  | cons next regions ih =>
    intro fuel hfuel
    obtain ⟨n, rfl⟩ := Nat.exists_eq_succ_of_ne_zero (Nat.ne_zero_of_lt hfuel)
    obtain ⟨destSz', hregion⟩ := Tool.region_body hroomy (h region List.mem_cons_self)
      (encodeRegions lzo (next :: regions)) out destSz
    have hfile : encodeRegions lzo (next :: regions) =
        next.mark :: (next.body lzo ++ encodeRegions lzo regions) := by
      rw [show encodeRegions lzo (next :: regions) = next.encode lzo ++ encodeRegions lzo regions
        from rfl, Region.encode_eq]
      rfl
    rw [Nat.succ_eq_add_one, Tool.loop_succ, hregion, Tool.write]
    by_cases hdata : region.data = []
    · rw [if_neg (not_not.mpr hdata), if_neg]
      simp [hdata]
    · rw [if_pos hdata]
      simp only [hfile]
      rw [ih (fun r hr => h r (List.mem_cons_of_mem _ hr)) _ _ n (by simpa using hfuel)]
      have hall : (∀ r ∈ region :: next :: regions, r.data ≠ []) ↔
          ∀ r ∈ next :: regions, r.data ≠ [] := by
        rw [List.forall_mem_cons, and_iff_right hdata]
      simp only [hall]
      congr 3
      simp [allPieces, Region.data]

end Region

/-- **The two decompressors agree on a file**: both come to their end normally, with the same
output. -/
def UncompressAgree (lzo : Lzo) (file : List Byte) : Prop :=
  ∃ out n, ∀ fuel ≥ n, doUncompress lzo fuel file = some (.ok out) ∧
    uncompressLog lzo fuel file = some (.ok out)

/-- They agree on regions if there is one and none is empty. -/
theorem uncompressAgree_regions_iff {lzo : Lzo} (hroomy : lzo.Roomy) {regions : List Region}
    (h : ∀ r ∈ regions, r.Complete lzo) :
    UncompressAgree lzo (encodeRegions lzo regions) ↔ regions ≠ [] ∧ ∀ r ∈ regions, r.data ≠ [] := by
  obtain ⟨m, hm⟩ := uncompressLog_regions lzo fun r hr => (h r hr).1
  cases regions with
  | nil =>
    constructor
    · rintro ⟨out, n, hn⟩
      cases (hn n le_rfl).1
    · exact fun hne => absurd rfl hne.1
  | cons region regions =>
    have hfile : encodeRegions lzo (region :: regions) =
        region.mark :: (region.body lzo ++ encodeRegions lzo regions) := by
      rw [encodeRegions_cons, Region.encode_eq]
      rfl
    have htool : ∀ fuel > regions.length, doUncompress lzo fuel (encodeRegions lzo (region :: regions)) =
        if ∀ r ∈ region :: regions, r.data ≠ [] then
          some (.ok (allPieces (region :: regions)).flatten)
        else some (.error (.throw .fileWriteError "write output file error")) := by
      intro fuel hfuel
      rw [hfile]
      exact Tool.loop_regions hroomy h [] 0 fuel hfuel
    constructor
    · rintro ⟨out, n, hn⟩
      refine ⟨List.cons_ne_nil _ _, ?_⟩
      by_contra hempty
      have hrun := (hn (max n (regions.length + 1)) (le_max_left _ _)).1
      rw [htool _ (Nat.lt_of_lt_of_le (Nat.lt_succ_self _) (le_max_right _ _)), if_neg hempty] at hrun
      cases hrun
    · rintro ⟨-, hdata⟩
      refine ⟨(allPieces (region :: regions)).flatten, max m (regions.length + 1), fun fuel hfuel => ?_⟩
      refine ⟨?_, hm fuel ((le_max_left _ _).trans hfuel)⟩
      rw [htool fuel (Nat.lt_of_lt_of_le (Nat.lt_succ_self _) ((le_max_right _ _).trans hfuel)),
        if_pos hdata]

theorem encodeRegions_ne_nil_iff {lzo : Lzo} {regions : List Region} :
    encodeRegions lzo regions ≠ [] ↔ regions ≠ [] := by
  cases regions with
  | nil => exact ⟨fun h => absurd rfl h, fun h => absurd rfl h⟩
  | cons region regions =>
    refine ⟨fun _ => List.cons_ne_nil _ _, fun _ => ?_⟩
    rw [encodeRegions_cons, Region.encode_eq]
    exact List.cons_ne_nil _ _

/-- A region of pieces has data. -/
theorem Region.data_ne_nil_iff {region : Region} (h : ∀ piece ∈ region.pieces, piece ≠ []) :
    region.data ≠ [] ↔ region.pieces ≠ [] := by
  rw [Region.data, ne_eq, List.flatten_eq_nil_iff, not_iff_not, List.eq_nil_iff_forall_not_mem]
  exact ⟨fun hall piece hpiece => h piece hpiece (hall piece hpiece),
    fun hnone piece hpiece => absurd hpiece (hnone piece)⟩

/-- **The two decompressors agree, if and only if** something was written and no flush came at
an empty buffer: on the file of any run of the recorder. -/
theorem uncompress_agree_iff {lzo : Lzo} (hroomy : lzo.Roomy) {start : Pages logPagesNr}
    {ops : List Op} {l : Logger} (hrun : run lzo (initLogger start) ops = .ok l) :
    UncompressAgree lzo l.file ↔ l.file ≠ [] ∧ FlushesFull lzo (initLogger start) ops := by
  obtain ⟨regions, pending, hl, -, hfull⟩ := run_holds (holds_init lzo start) hrun
  rw [List.nil_append] at hl
  have hdata : (∀ r ∈ regions, r.data ≠ []) ↔ ∀ r ∈ regions, r.pieces ≠ [] := by
    refine forall₂_congr fun r hr => Region.data_ne_nil_iff fun piece hpiece => ?_
    exact hl.nonempty piece (List.mem_append_left _ (List.mem_flatMap.mpr ⟨r, hr, hpiece⟩))
  rw [hl.file, uncompressAgree_regions_iff hroomy hl.complete, encodeRegions_ne_nil_iff, hdata, hfull]

/-- A compressor that only marks the end, and looks for no more than that. -/
def endCut : Lzo where
  compress := endMarked.compress
  decompress data size := (data.take (data.length - 3)).take size
  decompress_compress data := by simp [endMarked]
  length_compress_le := endMarked.length_compress_le

theorem endCut_roomy : endCut.Roomy := by
  intro data n hn
  simp [endCut, endMarked, hn]

theorem uncompress_agree_iff_branchOps :
    ∃ l, run endCut (initLogger ⟨0x10000, by decide⟩) branchOps = .ok l ∧
      (UncompressAgree endCut l.file ↔
        l.file ≠ [] ∧ FlushesFull endCut (initLogger ⟨0x10000, by decide⟩) branchOps) := by
  obtain ⟨l, hrun, -⟩ := exists_ok (b := ([] : List Byte))
    (x := run endCut (initLogger ⟨0x10000, by decide⟩) branchOps) Logger.buf (by decide +kernel)
  exact ⟨l, hrun, uncompress_agree_iff endCut_roomy hrun⟩

/-- A second flush, of an empty buffer: the tool takes the empty write for a failure. -/
theorem flush_empty_not_uncompressed :
    ∃ l, run endCut (initLogger ⟨0x10000, by decide⟩) [.branch 0x8048000, .flush, .flush] = .ok l ∧
      doUncompress endCut 3 l.file = some (.error (.throw .fileWriteError "write output file error")) ∧
      uncompressLog endCut 6 l.file = some (.ok (leBytes 0x8048000)) := by
  obtain ⟨l, hrun, hfile⟩ := exists_ok (b := encodeRegions endCut
      [.compressed [leBytes 0x8048000], .compressed []])
    (x := run endCut (initLogger ⟨0x10000, by decide⟩) [.branch 0x8048000, .flush, .flush])
    Logger.file (by decide +kernel)
  refine ⟨l, hrun, ?_, ?_⟩
  · rw [hfile]
    rfl
  · rw [hfile]
    rfl

end Snitchaser.Log
