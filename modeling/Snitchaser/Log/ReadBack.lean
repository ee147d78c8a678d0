import Snitchaser.Log.Stream

/-!
# The log, record by record

A reader that knows the sizes of the records looks four bytes ahead and then reads each of
them, as the gdbserver does. It gets them back wherever the regions end, but for one thing:
a flush of an empty buffer leaves a region without data, and looking ahead into it is an
error (`"unaligned readahead"`).

## What is proved

`readBack_iff`: the records come back, and the log ends behind them, if and only if no flush
came at an empty buffer.
-/

namespace Snitchaser.Log

open Foundation Interp

/-- A record of a size: what is ahead, and the record. -/
def readRecord (lzo : Lzo) (size : ℕ) : ReadM (Option (List Byte) × List Byte) := do
  let ahead ← readaheadLog lzo 4
  let data ← readLogFull lzo size false
  return (ahead, data)

/-- Records one after the other. -/
def readRecords (lzo : Lzo) (sizes : List ℕ) : ReadM (List (Option (List Byte) × List Byte)) :=
  sizes.mapM (readRecord lzo)

/-- What a reader is to get of a record. -/
def asRead (record : List Byte) : Option (List Byte) × List Byte := (some (record.take 4), record)

/-- **The records of a file come back**, without an exception, and behind them the log ends. -/
def ReadBack (lzo : Lzo) (file : List Byte) (records : List (List Byte)) : Prop :=
  ∃ r r', (readRecords lzo (records.map List.length)).run (openLog file) =
      .ok (records.map asRead) r ∧
    (readaheadLog lzo 4).run r = .ok none r'

section Read

variable (lzo : Lzo) (file : List Byte)

theorem run_readRecords_cons {r r₁ r₂ : Reader} {size : ℕ} {sizes : List ℕ}
    {x : Option (List Byte) × List Byte} {xs : List (Option (List Byte) × List Byte)}
    (h : (readRecord lzo size).run r = .ok x r₁) (hs : (readRecords lzo sizes).run r₁ = .ok xs r₂) :
    (readRecords lzo (size :: sizes)).run r = .ok (x :: xs) r₂ := by
  unfold readRecords at hs ⊢
  rw [List.mapM_cons, run_bind_ok h, run_bind_ok hs]
  rfl

/-- Some records, and then some more. -/
theorem run_readRecords_append {r r₁ : Reader} {sizes₁ : List ℕ} (sizes₂ : List ℕ)
    {xs : List (Option (List Byte) × List Byte)} (h : (readRecords lzo sizes₁).run r = .ok xs r₁) :
    (readRecords lzo (sizes₁ ++ sizes₂)).run r =
      (do let ys ← readRecords lzo sizes₂; return xs ++ ys).run r₁ := by
  unfold readRecords at *
  rw [List.mapM_append, run_bind_ok h]

/-- A record that the region begins with. -/
theorem run_readRecord_append {record : List Byte} (h : 4 ≤ record.length) (rest : List Byte) :
    (readRecord lzo record.length).run ⟨file, record ++ rest⟩ = .ok (asRead record) ⟨file, rest⟩ := by
  have htake : (record.take 4).length = 4 := by
    rw [List.length_take]
    omega
  have hahead : (readaheadLog lzo 4).run ⟨file, record ++ rest⟩ =
      .ok (some (record.take 4)) ⟨file, record ++ rest⟩ := by
    have happ : (readaheadLog lzo (record.take 4).length).run
        ⟨file, record.take 4 ++ (record.drop 4 ++ rest)⟩ = _ := run_readaheadLog_append lzo _ _
    rwa [htake, ← List.append_assoc, List.take_append_drop] at happ
  unfold readRecord
  rw [run_bind_ok hahead, run_bind_ok (run_readLogFull_append lzo record rest false)]
  rfl

/-- A record that the next region begins with. -/
theorem run_readRecord_next {region : Region} (hsized : region.Sized lzo) {record : List Byte}
    {records : List (List Byte)} (hpieces : region.pieces = record :: records)
    (h : 4 ≤ record.length) :
    (readRecord lzo record.length).run ⟨region.encode lzo ++ file, []⟩ =
      .ok (asRead record) ⟨file, records.flatten⟩ := by
  have hdata : region.data = record ++ records.flatten := by
    rw [Region.data, hpieces]
    rfl
  have hnext := nextRegion_encode lzo hsized file []
  have hahead : (readaheadLog lzo 4).run ⟨region.encode lzo ++ file, []⟩ =
      (readaheadLog lzo 4).run ⟨file, region.data⟩ :=
    run_readaheadLog_next lzo (by decide) (by rw [hdata]; simp; omega) hnext
  have hsame : (readRecord lzo record.length).run ⟨region.encode lzo ++ file, []⟩ =
      (readRecord lzo record.length).run ⟨file, region.data⟩ := run_bind_congr hahead
  rw [hsame, hdata, run_readRecord_append lzo file h]

/-- A region without data cannot be looked into. -/
theorem run_readaheadLog_empty {region : Region} (hsized : region.Sized lzo)
    (hempty : region.pieces = []) :
    (readaheadLog lzo 4).run ⟨region.encode lzo ++ file, []⟩ =
      .error (.throw .logCorrupted "unaligned readahead") ⟨file, []⟩ := by
  have hdata : region.data = [] := by
    rw [Region.data, hempty]
    rfl
  have hnext := nextRegion_encode lzo hsized file []
  rw [hdata] at hnext
  rw [run_readaheadLog_load lzo (by decide) hnext]
  rfl

/-- What is left of a region is read to its end. -/
theorem run_readRecords_flatten {records : List (List Byte)} (h : ∀ record ∈ records, 4 ≤ record.length) :
    (readRecords lzo (records.map List.length)).run ⟨file, records.flatten⟩ =
      .ok (records.map asRead) ⟨file, []⟩ := by
  induction records with
  | nil => rfl
  | cons record records ih =>
    have hrecord := run_readRecord_append lzo file (h record List.mem_cons_self) records.flatten
    exact run_readRecords_cons lzo hrecord (ih fun x hx => h x (List.mem_cons_of_mem _ hx))

/-- A region with records is read to its end. -/
theorem run_readRecords_region {region : Region} (hsized : region.Sized lzo)
    (hne : region.pieces ≠ []) (h : ∀ record ∈ region.pieces, 4 ≤ record.length) :
    (readRecords lzo (region.pieces.map List.length)).run ⟨region.encode lzo ++ file, []⟩ =
      .ok (region.pieces.map asRead) ⟨file, []⟩ := by
  obtain ⟨record, records, hpieces⟩ := List.exists_cons_of_ne_nil hne
  rw [hpieces] at h ⊢
  have hrecord := run_readRecord_next lzo file hsized hpieces (h record List.mem_cons_self)
  refine run_readRecords_cons lzo hrecord (run_readRecords_flatten lzo file ?_)
  exact fun x hx => h x (List.mem_cons_of_mem _ hx)

/-- Regions with records are read to their end. -/
theorem run_readRecords_regions {regions : List Region} (hsized : ∀ region ∈ regions, region.Sized lzo)
    (hne : ∀ region ∈ regions, region.pieces ≠ [])
    (h : ∀ record ∈ allPieces regions, 4 ≤ record.length) :
    (readRecords lzo ((allPieces regions).map List.length)).run ⟨encodeRegions lzo regions ++ file, []⟩ =
      .ok ((allPieces regions).map asRead) ⟨file, []⟩ := by
  induction regions with
  | nil => rfl
  | cons region regions ih =>
    have hregion : (readRecords lzo (region.pieces.map List.length)).run
        ⟨region.encode lzo ++ (encodeRegions lzo regions ++ file), []⟩ = _ :=
      run_readRecords_region lzo _ (hsized region List.mem_cons_self) (hne region List.mem_cons_self)
        fun x hx => h x (List.mem_append_left _ hx)
    have hrest := ih (fun x hx => hsized x (List.mem_cons_of_mem _ hx))
      (fun x hx => hne x (List.mem_cons_of_mem _ hx)) fun x hx => h x (List.mem_append_right _ hx)
    rw [allPieces_cons, encodeRegions_cons, List.map_append, List.append_assoc,
      run_readRecords_append lzo _ hregion, run_bind_ok hrest, List.map_append]
    rfl

end Read

/-- A reader before an empty region gets nothing more: neither a record nor the end. -/
theorem not_readBack_empty {lzo : Lzo} {file : List Byte} {region : Region}
    (hsized : region.Sized lzo) (hempty : region.pieces = []) {sizes : List ℕ}
    {xs : List (Option (List Byte) × List Byte)} {r r' : Reader}
    (hread : (readRecords lzo sizes).run ⟨region.encode lzo ++ file, []⟩ = .ok xs r)
    (hend : (readaheadLog lzo 4).run r = .ok none r') : False := by
  have herror := run_readaheadLog_empty lzo file hsized hempty
  cases sizes with
  | nil =>
    cases hread
    rw [herror] at hend
    cases hend
  | cons size sizes =>
    have hrecord : (readRecord lzo size).run ⟨region.encode lzo ++ file, []⟩ = _ :=
      run_bind_error herror
    unfold readRecords at hread
    rw [List.mapM_cons, run_bind_error hrecord] at hread
    cases hread

/-- The regions of a file come back if and only if none is empty. -/
theorem readBack_regions_iff {lzo : Lzo} {regions : List Region}
    (hsized : ∀ region ∈ regions, region.Sized lzo)
    (h : ∀ record ∈ allPieces regions, 4 ≤ record.length) :
    ReadBack lzo (encodeRegions lzo regions) (allPieces regions) ↔
      ∀ region ∈ regions, region.pieces ≠ [] := by
  constructor
  · rintro ⟨r, r', hread, hend⟩
    revert hread
    generalize (allPieces regions).map asRead = xs
    -- up to the first empty region all goes well, and there it stops
    induction regions generalizing xs with
    | nil => exact fun _ _ hmem => (List.not_mem_nil hmem).elim
    | cons region regions ih =>
      intro hread
      have hsized₁ := hsized region List.mem_cons_self
      unfold openLog at hread
      rw [encodeRegions_cons] at hread
      by_cases hempty : region.pieces = []
      · exact (not_readBack_empty hsized₁ hempty hread hend).elim
      have hregion := run_readRecords_region lzo (encodeRegions lzo regions) hsized₁ hempty
        fun x hx => h x (List.mem_append_left _ hx)
      rw [show allPieces (region :: regions) = region.pieces ++ allPieces regions from rfl,
        List.map_append, run_readRecords_append lzo _ hregion] at hread
      obtain ⟨ys, r₁, hrest, hys⟩ := run_bind_eq_ok hread
      cases hys
      have hall := ih (fun x hx => hsized x (List.mem_cons_of_mem _ hx))
        (fun x hx => h x (List.mem_append_right _ hx)) ys hrest
      exact List.forall_mem_cons.mpr ⟨hempty, hall⟩
  · intro hne
    have hread := run_readRecords_regions lzo [] hsized hne h
    rw [List.append_nil] at hread
    exact ⟨⟨[], []⟩, ⟨[], []⟩, hread, run_readaheadLog_end lzo (by decide)⟩

/-- **Every record comes back, if and only if** no flush came at an empty buffer: for any
records of four bytes or more, flushed anywhere, once all of them are in the file. -/
theorem readBack_iff {lzo : Lzo} {start : Pages logPagesNr} {ops : List Op} {l : Logger}
    (hrun : run lzo (initLogger start) ops = .ok l) (hflushed : l.buf = [])
    (hrecords : ∀ record ∈ ops.flatMap Op.pieces, 4 ≤ record.length) :
    ReadBack lzo l.file (ops.flatMap Op.pieces) ↔ FlushesFull lzo (initLogger start) ops := by
  obtain ⟨regions, pending, hl, hpieces, hfull⟩ := run_holds (holds_init lzo start) hrun
  rw [List.nil_append] at hl hpieces
  rw [hl.buf_eq_nil_iff.mp hflushed, List.append_nil] at hpieces
  rw [← hpieces] at hrecords ⊢
  rw [hl.file, ← hfull]
  exact readBack_regions_iff hl.sized hrecords

/-- A branch, with a flush behind it. -/
def branchOps : List Op := [.branch 0x8048000, .flush]

theorem readBack_iff_branchOps : ∃ l, run endMarked (initLogger ⟨0x10000, by decide⟩) branchOps = .ok l ∧
    (ReadBack endMarked l.file [leBytes 0x8048000] ↔
      FlushesFull endMarked (initLogger ⟨0x10000, by decide⟩) branchOps) := by
  obtain ⟨l, hrun, hbuf⟩ := exists_ok (b := ([] : List Byte))
    (x := run endMarked (initLogger ⟨0x10000, by decide⟩) branchOps) Logger.buf (by decide +kernel)
  exact ⟨l, hrun, readBack_iff hrun hbuf (by decide)⟩

/-- A flush before the first record, as `flush_all_logger` makes for a thread that has
logged nothing: the record is not read. -/
theorem flush_empty_not_readBack :
    ∃ l, run endMarked (initLogger ⟨0x10000, by decide⟩) [.flush, .branch 0x8048000, .flush] = .ok l ∧
      ¬ ReadBack endMarked l.file [leBytes 0x8048000] := by
  obtain ⟨l, hrun, hfile⟩ := exists_ok (b := encodeRegions endMarked
      [.compressed [], .compressed [leBytes 0x8048000]])
    (x := run endMarked (initLogger ⟨0x10000, by decide⟩) [.flush, .branch 0x8048000, .flush])
    Logger.file (by decide +kernel)
  refine ⟨l, hrun, ?_⟩
  rintro ⟨r, r', hread, hend⟩
  rw [hfile] at hread
  have hsized : (Region.compressed []).Sized endMarked := ⟨by decide, by decide⟩
  exact not_readBack_empty hsized rfl hread hend

end Snitchaser.Log
