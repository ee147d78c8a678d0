import Snitchaser.Lzo1x.RoundTrip
import Snitchaser.Log.ReplayLog

/-!
# The log and its compressor

What the log asks of a compressor (`Lzo`) is what `lzo1x_1_compress` and
`lzo1x_decompress_safe` do.

The work memory of a thread is made once and never cleared: at each flush it has the
pointers that the flush before it left, into a buffer that has been written over since.
So the same data may be compressed in one way now, and in another later.

## The model

* `lzo1x` is the compressor with the work memory as it is at some time. Data that no buffer
  at that place has room for are left as they are; there are none.
* `runWith` is a run of the recorder in which the work memory can be anything at each
  operation.

## What is proved

`uncompress_with_lzo1x`: whatever is logged, with whatever work memory, comes back.
-/

namespace Snitchaser.Log

open Foundation Interp Lzo1x

/-- Where a buffer can lie, for the compressor to tell distances in it from others. -/
abbrev Place : Type := { base : ℕ // m4MaxOffset ≤ base ∧ base ≤ 2 ^ 32 }

/-- There is room for so many bytes, and an `int` holds their number. -/
def Place.Room (base : Place) (size : ℕ) : Prop := size < 2 ^ 31 ∧ base.1 + size ≤ 2 ^ 32

instance (base : Place) (size : ℕ) : Decidable (base.Room size) := instDecidableAnd

/-- What `lzo1x_1_compress` writes. -/
def lzo1xCompress (base : Place) (wrkmem : Lzo1x.Dict) (data : List Byte) : List Byte :=
  if h : base.Room data.length then
    match lzo1x1Compress ⟨base.1, data, base.2.1, h.2⟩ wrkmem with
    | .ok (out, _) => out
    | .error _ => []
  else data

/-- What `lzo1x_decompress_safe` writes to a buffer of this size. -/
def lzo1xDecompress (base : Place) (beyond compressed : List Byte) (size : ℕ) : List Byte :=
  if base.Room size then
    match lzo1xDecompressSafe ⟨compressed, beyond, size⟩ with
    | .ok (_, out) => out
    | .error _ => []
  else compressed

section Codec

variable (base : Place) (wrkmem : Lzo1x.Dict) (beyond : List Byte)

theorem lzo1xDecompress_compress (data : List Byte) :
    lzo1xDecompress base beyond (lzo1xCompress base wrkmem data) data.length = data := by
  unfold lzo1xDecompress lzo1xCompress
  by_cases h : base.Room data.length
  · obtain ⟨s, wrkmem', hmeaning, hcompress⟩ :=
      compress_eq_encode ⟨base.1, data, base.2.1, h.2⟩ wrkmem
    have hsize := s.length_encode_le
    rw [hmeaning] at hsize
    have hlt := h.1
    have hb : Source.Sized ⟨s.encode, beyond, data.length⟩ :=
      ⟨by change s.encode.length < _; dsimp only at hsize; omega,
        by change data.length < _; omega⟩
    rw [if_pos h, dif_pos h, hcompress]
    dsimp only
    rw [decompress_encode hb rfl (by rw [hmeaning]), hmeaning]
  · rw [if_neg h, dif_neg h]

theorem length_lzo1xCompress_le (data : List Byte) :
    (lzo1xCompress base wrkmem data).length ≤ lzo1xWorstCompress data.length := by
  unfold lzo1xCompress lzo1xWorstCompress
  by_cases h : base.Room data.length
  · obtain ⟨s, wrkmem', hmeaning, hcompress⟩ :=
      compress_eq_encode ⟨base.1, data, base.2.1, h.2⟩ wrkmem
    have hsize := s.length_encode_le
    rw [hmeaning] at hsize
    rw [dif_pos h, hcompress]
    exact hsize
  · rw [dif_neg h]
    omega

/-- The compressor, with the work memory as it is. -/
def lzo1x : Lzo where
  compress := lzo1xCompress base wrkmem
  decompress := lzo1xDecompress base beyond
  decompress_compress := lzo1xDecompress_compress base wrkmem beyond
  length_compress_le := length_lzo1xCompress_le base wrkmem

end Codec

/-- The reader does not need to know with which work memory a region was made. -/
theorem nextRegion_congr {lzo lzo' : Lzo} (h : lzo.decompress = lzo'.decompress) :
    nextRegion lzo = nextRegion lzo' := by
  unfold nextRegion
  rw [h]

/-! ### The recorder -/

section Recorder

variable (base : Place) (beyond : List Byte)

/-- Operations one after the other, each with the work memory that it finds. -/
def runWith (l : Logger) (ops : List (Lzo1x.Dict × Op)) : Except Fault Logger :=
  ops.foldlM (fun l p => step (lzo1x base p.1 beyond) l p.2) l

/-- Regions as they are in the file, each made with its own work memory. -/
def encodeMade (made : List (Lzo1x.Dict × Region)) : List Byte :=
  made.flatMap fun p => p.2.encode (lzo1x base p.1 beyond)

/-- What they hold. -/
def madePieces (made : List (Lzo1x.Dict × Region)) : List (List Byte) := allPieces (made.map Prod.snd)

/-- The file has these regions, and the buffer these pieces. -/
structure Keeps (l : Logger) (made : List (Lzo1x.Dict × Region)) (pending : List (List Byte)) : Prop where
  file : l.file = encodeMade base beyond made
  sized : ∀ p ∈ made, p.2.Sized (lzo1x base p.1 beyond)
  /-- The buffer is as it would be with a file of its own. -/
  buffer : ∀ lzo, Logger.Holds lzo { l with file := [] } [] pending

variable {base beyond}

/-- What is put into the file does not depend on what is there. -/
theorem flush_file {lzo : Lzo} {l l' : Logger} (h : flushLoggerBuffer lzo l = .ok l') :
    ∃ new, l'.file = l.file ++ new ∧
      flushLoggerBuffer lzo { l with file := [] } = .ok { l' with file := new } := by
  obtain ⟨c, hc, h⟩ := bind_eq_ok.mp h
  cases h
  exact ⟨_, rfl, bind_eq_ok.mpr ⟨c, hc, by rw [List.nil_append]⟩⟩

theorem write_file {l l' : Logger} {data : List Byte} (h : l.write data = .ok l') :
    l'.file = l.file ∧ Logger.write { l with file := [] } data = .ok { l' with file := [] } := by
  obtain ⟨hroom, rfl⟩ := write_ok h
  exact ⟨rfl, if_pos hroom⟩

theorem step_file {lzo : Lzo} {l l' : Logger} {op : Op} (h : step lzo l op = .ok l') :
    ∃ new, l'.file = l.file ++ new ∧
      step lzo { l with file := [] } op = .ok { l' with file := new } := by
  have hchecked : ∀ data, writeChecked lzo l data = .ok l' → ∃ new, l'.file = l.file ++ new ∧
      writeChecked lzo { l with file := [] } data = .ok { l' with file := new } := by
    intro data h
    obtain ⟨l₁, hwrite, hcheck⟩ := bind_eq_ok.mp h
    obtain ⟨hfile, hwrite'⟩ := write_file hwrite
    unfold doCheckLoggerBuffer at hcheck
    split_ifs at hcheck with hlt
    · cases hcheck
      exact ⟨[], by rw [hfile, List.append_nil], bind_eq_ok.mpr ⟨_, hwrite', if_pos hlt⟩⟩
    · obtain ⟨new, hnew, hflush⟩ := flush_file hcheck
      exact ⟨new, by rw [hnew, hfile], bind_eq_ok.mpr ⟨_, hwrite', (if_neg hlt).trans hflush⟩⟩
  cases op with
  | branch target => exact hchecked _ h
  | rdtsc eax edx => exact hchecked _ h
  | flush => exact flush_file h
  | append data =>
    obtain ⟨_, hne, h⟩ := bind_eq_ok.mp h
    split_ifs at h with hspace
    · obtain ⟨hfile, hwrite⟩ := write_file h
      exact ⟨[], by rw [hfile, List.append_nil],
        bind_eq_ok.mpr ⟨_, hne, (if_pos hspace).trans hwrite⟩⟩
    · obtain ⟨l₁, hmake, h⟩ := bind_eq_ok.mp h
      obtain ⟨new, hnew, hmake'⟩ : ∃ new, l₁.file = l.file ++ new ∧
          makeSpace lzo { l with file := [] } = .ok { l₁ with file := new } := by
        unfold makeSpace at hmake ⊢
        split_ifs at hmake with hgt
        · obtain ⟨new, hnew, hflush⟩ := flush_file hmake
          exact ⟨new, hnew, (if_pos hgt).trans hflush⟩
        · cases hmake
          exact ⟨[], (List.append_nil _).symm, if_neg hgt⟩
      split_ifs at h with hspace₁
      · obtain ⟨hroom, rfl⟩ := write_ok h
        refine ⟨new, hnew, bind_eq_ok.mpr ⟨_, hne, ?_⟩⟩
        exact (if_neg hspace).trans (bind_eq_ok.mpr ⟨_, hmake', (if_pos hspace₁).trans (if_pos hroom)⟩)
      · obtain ⟨_, hlarge, h⟩ := bind_eq_ok.mp h
        cases h
        refine ⟨new ++ uncompressedRegion data.1, by rw [← List.append_assoc, ← hnew],
          bind_eq_ok.mpr ⟨_, hne, ?_⟩⟩
        exact (if_neg hspace).trans (bind_eq_ok.mpr ⟨_, hmake',
          (if_neg hspace₁).trans (bind_eq_ok.mpr ⟨_, hlarge, rfl⟩)⟩)

/-- **One operation**, with the work memory it finds. -/
theorem Keeps.step {l l' : Logger} {made : List (Lzo1x.Dict × Region)} {pending : List (List Byte)}
    (h : Keeps base beyond l made pending) {wrkmem : Lzo1x.Dict} {op : Op}
    (hok : Log.step (lzo1x base wrkmem beyond) l op = .ok l') :
    ∃ made' pending', Keeps base beyond l' made' pending' ∧
      madePieces made' ++ pending' = madePieces made ++ pending ++ op.pieces := by
  obtain ⟨new, hfile, hstep⟩ := step_file hok
  obtain ⟨regions, pending', hl', hpieces, -⟩ := (h.buffer (lzo1x base wrkmem beyond)).step hstep
  rw [List.nil_append] at hl'
  refine ⟨made ++ regions.map (Prod.mk wrkmem), pending', ⟨?_, ?_, fun lzo => ?_⟩, ?_⟩
  · have hnew : new = encodeRegions (lzo1x base wrkmem beyond) regions := hl'.file
    rw [hfile, h.file, hnew, encodeMade, encodeMade, List.flatMap_append, List.flatMap_map]
    rfl
  · intro p hp
    obtain hp | hp := List.mem_append.mp hp
    · exact h.sized p hp
    · obtain ⟨region, hregion, rfl⟩ := List.mem_map.mp hp
      exact hl'.sized region hregion
  · exact ⟨rfl, hl'.buf, fun _ hr => (List.not_mem_nil hr).elim,
      fun piece hpiece => hl'.nonempty piece (List.mem_append_right _ hpiece), hl'.room⟩
  · have hsnd : (regions.map (Prod.mk wrkmem)).map Prod.snd = regions := by
      rw [List.map_map]
      exact List.map_id _
    rw [madePieces, List.map_append, hsnd, allPieces, List.flatMap_append, List.append_assoc]
    change madePieces made ++ (allPieces regions ++ pending') = _
    rw [hpieces, List.append_assoc]

theorem Keeps.run {ops : List (Lzo1x.Dict × Op)} {l l' : Logger} {made : List (Lzo1x.Dict × Region)}
    {pending : List (List Byte)} (h : Keeps base beyond l made pending)
    (hok : runWith base beyond l ops = .ok l') :
    ∃ made' pending', Keeps base beyond l' made' pending' ∧
      madePieces made' ++ pending' = madePieces made ++ pending ++ ops.flatMap fun p => p.2.pieces := by
  induction ops generalizing l made pending with
  | nil =>
    cases hok
    exact ⟨made, pending, h, (List.append_nil _).symm⟩
  | cons p ops ih =>
    obtain ⟨l₁, hstep, hrun⟩ := bind_eq_ok.mp hok
    obtain ⟨made₁, pending₁, h₁, hpieces₁⟩ := h.step hstep
    obtain ⟨made', pending', h', hpieces'⟩ := ih h₁ hrun
    exact ⟨made', pending', h', by
      rw [hpieces', hpieces₁, List.flatMap_cons, List.append_assoc (madePieces made ++ pending)]⟩

/-- All regions are written out, whatever work memory they were made with. -/
theorem uncompressLoop_made (wrkmem : Lzo1x.Dict) {made : List (Lzo1x.Dict × Region)}
    (h : ∀ p ∈ made, p.2.Sized (lzo1x base p.1 beyond)) :
    ∃ n, ∀ fuel out, uncompressLoop (lzo1x base wrkmem beyond) (fuel + n)
        ⟨encodeMade base beyond made, []⟩ out =
      uncompressLoop (lzo1x base wrkmem beyond) fuel ⟨[], []⟩ (out ++ (madePieces made).flatten) := by
  induction made with
  | nil => exact ⟨0, fun fuel out => by simp [encodeMade, madePieces, allPieces]⟩
  | cons p made ih =>
    obtain ⟨m, hm⟩ := ih fun q hq => h q (List.mem_cons_of_mem _ hq)
    obtain ⟨n, hn⟩ := uncompressLoop_region (lzo1x base wrkmem beyond) (encodeMade base beyond made)
      p.2.data
    have hnext := nextRegion_encode (lzo1x base p.1 beyond) (h p List.mem_cons_self)
      (encodeMade base beyond made) []
    rw [nextRegion_congr (show (lzo1x base p.1 beyond).decompress =
      (lzo1x base wrkmem beyond).decompress from rfl)] at hnext
    refine ⟨m + n + 1, fun fuel out => ?_⟩
    change uncompressLoop _ _ ⟨p.2.encode (lzo1x base p.1 beyond) ++ encodeMade base beyond made, []⟩ _ = _
    rw [← Nat.add_assoc, uncompressLoop_ok _ (run_readLog_next _ (by decide) hnext), ← Nat.add_assoc,
      hn, hm]
    simp [madePieces, allPieces, Region.data]

end Recorder

/-- **The log comes back** through the compressor of the recorder: whatever is logged, and
whatever the work memory has in it when it is, `uncompress_log` writes all of it, in
order. -/
theorem uncompress_with_lzo1x (base : Place) (beyond : List Byte) (wrkmem wrkmem' : Lzo1x.Dict)
    {start : Pages logPagesNr} {ops : List (Lzo1x.Dict × Op)} {l l' : Logger}
    (hrun : runWith base beyond (initLogger start) ops = .ok l)
    (hflush : flushLoggerBuffer (lzo1x base wrkmem beyond) l = .ok l') :
    ∃ n, ∀ fuel ≥ n, uncompressLog (lzo1x base wrkmem' beyond) fuel l'.file =
      some (.ok (ops.flatMap fun p => p.2.bytes)) := by
  have hinit : Keeps base beyond (initLogger start) [] [] :=
    ⟨rfl, fun _ h => (List.not_mem_nil h).elim, fun lzo => holds_init lzo start⟩
  obtain ⟨made, pending, hl, hpieces⟩ := hinit.run hrun
  -- the flush at the end is one operation more
  obtain ⟨made', pending', hl', hpieces'⟩ := hl.step
    (show Log.step (lzo1x base wrkmem beyond) l .flush = .ok l' from hflush)
  have hempty : pending' = [] := by
    have hbuf : l'.buf = [] := by
      rw [(flush_ok hflush).2]
    exact ((hl'.buffer (lzo1x base wrkmem beyond)).buf_eq_nil_iff).mp hbuf
  have hall : (madePieces made').flatten = ops.flatMap fun p => p.2.bytes := by
    rw [hempty, List.append_nil] at hpieces'
    rw [hpieces', hpieces]
    change (ops.flatMap (fun p : Lzo1x.Dict × Op => p.2.pieces) ++ []).flatten = _
    rw [List.append_nil, List.flatMap_def, List.flatten_flatten, List.map_map, List.flatMap_def]
    rfl
  obtain ⟨n, hn⟩ := uncompressLoop_made wrkmem' hl'.sized
  refine ⟨n + 1, fun fuel hfuel => ?_⟩
  obtain ⟨k, rfl⟩ := Nat.exists_eq_add_of_le hfuel
  have hend : uncompressLoop (lzo1x base wrkmem' beyond) (k + 1) ⟨[], []⟩
      ([] ++ (madePieces made').flatten) = some (fileIsEnd, (madePieces made').flatten) := by
    rw [uncompressLoop, run_readLog_end _ (by decide), List.nil_append]
  unfold uncompressLog openLog
  rw [hl'.file, show n + 1 + k = k + 1 + n by omega, hn, hend, hall]
  rfl

/-- The place of a buffer. -/
def somePlace : Place := ⟨0x10000, by decide, by decide⟩

/-- Data that repeat, a flush, a branch and a flush more; the work memory has pointers to the
start of the buffer at first, and then to where nothing is. -/
def someWork : List (Lzo1x.Dict × Op) :=
  [(fun _ => 0x10000, .append ⟨[1, 2, 3, 4, 1, 2, 3, 4, 1, 2, 3, 4, 1, 2, 3, 4, 1, 2], by decide⟩),
    (fun _ => 0x10000, .flush), (fun _ => 0, .branch 0x8048000), (fun _ => 0, .flush)]

theorem uncompress_with_lzo1x_someWork :
    ∃ l l', runWith somePlace [] (initLogger ⟨0x10000, by decide⟩) someWork = .ok l ∧
      flushLoggerBuffer (lzo1x somePlace (fun _ => 0) []) l = .ok l' ∧
      ∃ n, ∀ fuel ≥ n, uncompressLog (lzo1x somePlace (fun _ => 7) []) fuel l'.file = some (.ok
        [1, 2, 3, 4, 1, 2, 3, 4, 1, 2, 3, 4, 1, 2, 3, 4, 1, 2, 0, 0x80, 4, 8]) := by
  obtain ⟨l, hrun, hbuf⟩ := exists_ok (b := ([] : List Byte))
    (x := runWith somePlace [] (initLogger ⟨0x10000, by decide⟩) someWork) Logger.buf
    (by decide +kernel)
  have hflush : flushLoggerBuffer (lzo1x somePlace (fun _ => 0) []) l =
      .ok { l with buf := [], file := l.file ++ compressedRegion 0 [0x11, 0, 0] } := by
    unfold flushLoggerBuffer
    rw [hbuf]
    rfl
  exact ⟨l, _, hrun, hflush, uncompress_with_lzo1x somePlace [] (fun _ => 0) (fun _ => 7) hrun hflush⟩

end Snitchaser.Log
