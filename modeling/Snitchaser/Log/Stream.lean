import Snitchaser.Log.ReplayLog

/-!
# Pieces read back

The log has no record boundaries. What reader and writer share is that no piece is
ever cut by a region: each was written in one go.

`Reader.At` says which pieces a reader still has before it. A read inside the next
piece gives its bytes and leaves the rest of it (`Reader.At.readLogFull`), and looking
ahead changes nothing (`Reader.At.readahead`), wherever regions begin and end.
`Reader.Left` is what is left as `uncompress_log` would see it, in bytes.
-/

namespace Snitchaser.Log

open Foundation

section ReadLogFull

variable (lzo : Lzo) {size : ℕ} {file : List Byte}

/-- A read that stays in the region. -/
theorem run_readLogFull_append (data rest : List Byte) (lastZero : Bool) :
    (readLogFull lzo data.length lastZero).run ⟨file, data ++ rest⟩ = .ok data ⟨file, rest⟩ := by
  rw [readLogFull]
  by_cases hnil : data = []
  · subst hnil
    rfl
  · rw [if_neg (mt List.length_eq_zero_iff.mp hnil), run_bind_ok (run_readLog_append lzo data rest),
      dif_neg hnil, Nat.sub_self, readLogFull, if_pos rfl]
    simp

/-- A read at the end of a region goes on in the next. -/
theorem run_readLogFull_next {r : Reader} (h : 0 < size)
    (hnext : (nextRegion lzo).run ⟨file, []⟩ = .ok () r) :
    (readLogFull lzo size false).run ⟨file, []⟩ = (readLogFull lzo size true).run r := by
  rw [readLogFull, if_neg h.ne', run_bind_ok (run_readLog_next lzo h hnext), dif_pos rfl]
  rfl

theorem run_readaheadLog_append (data rest : List Byte) :
    (readaheadLog lzo data.length).run ⟨file, data ++ rest⟩ = .ok (some data) ⟨file, data ++ rest⟩ := by
  refine (if_pos (by simp)).trans ?_
  rw [List.take_left]

/-- At the end of a region, looking ahead loads the next. -/
theorem run_readaheadLog_load {r : Reader} (h : 0 < size)
    (hnext : (nextRegion lzo).run ⟨file, []⟩ = .ok () r) :
    (readaheadLog lzo size).run ⟨file, []⟩ =
      if r.region.length < size then .error (.throw .logCorrupted "unaligned readahead") r
      else .ok (some (r.region.take size)) r := by
  have hshort : ¬size ≤ (⟨file, []⟩ : Reader).region.length := not_le.mpr h
  have hnil : ¬(⟨file, []⟩ : Reader).region ≠ [] := not_not.mpr rfl
  change readaheadLog lzo size ⟨file, []⟩ = _
  unfold readaheadLog
  rw [if_neg hshort, if_neg hnil, hnext]

/-- Looking ahead at the end of a region looks into the next. -/
theorem run_readaheadLog_next {r : Reader} (h : 0 < size) (hle : size ≤ r.region.length)
    (hnext : (nextRegion lzo).run ⟨file, []⟩ = .ok () r) :
    (readaheadLog lzo size).run ⟨file, []⟩ = (readaheadLog lzo size).run r := by
  rw [run_readaheadLog_load lzo h hnext, if_neg (not_lt.mpr hle)]
  exact (if_pos hle).symm

/-- At the end of the log there is nothing ahead. -/
theorem run_readaheadLog_end (h : 0 < size) :
    (readaheadLog lzo size).run ⟨[], []⟩ = .ok none ⟨[], []⟩ :=
  (if_neg (not_le.mpr h)).trans (if_neg (not_not.mpr rfl))

end ReadLogFull

/-- **The pieces before a reader**: those left of its region, and those of the regions
in the file. -/
def Reader.At (lzo : Lzo) (r : Reader) (pieces : List (List Byte)) : Prop :=
  ∃ cur regions, r = ⟨encodeRegions lzo regions, cur.flatten⟩ ∧ pieces = cur ++ allPieces regions ∧
    ∀ region ∈ regions, region.Sized lzo ∧ region.pieces ≠ [] ∧ ∀ piece ∈ region.pieces, piece ≠ []

section At

variable {lzo : Lzo} {r : Reader} {piece : List Byte} {pieces : List (List Byte)}

/-- A reader whose region begins with the next piece. -/
def Reader.Inside (lzo : Lzo) (r : Reader) (piece : List Byte) (pieces : List (List Byte)) : Prop :=
  ∃ cur regions, r = ⟨encodeRegions lzo regions, piece ++ cur.flatten⟩ ∧
    pieces = cur ++ allPieces regions ∧
    ∀ region ∈ regions, region.Sized lzo ∧ region.pieces ≠ [] ∧ ∀ piece ∈ region.pieces, piece ≠ []

theorem Reader.Inside.at (h : r.Inside lzo piece pieces) : r.At lzo (piece :: pieces) := by
  obtain ⟨cur, regions, hr, hpieces, hall⟩ := h
  exact ⟨piece :: cur, regions, hr, by rw [hpieces]; rfl, hall⟩

/-- Before a piece, the reader is inside its region or one step before it. -/
theorem Reader.At.cases (h : r.At lzo (piece :: pieces)) :
    r.Inside lzo piece pieces ∨
      r.region = [] ∧ ∃ r', (nextRegion lzo).run r = .ok () r' ∧ r'.Inside lzo piece pieces := by
  obtain ⟨cur, regions, rfl, hpieces, hall⟩ := h
  cases cur with
  | cons p cur =>
    cases hpieces
    exact .inl ⟨cur, regions, rfl, rfl, hall⟩
  | nil =>
    cases regions with
    | nil => cases hpieces
    | cons region regions =>
      obtain ⟨hsized, hne, -⟩ := hall region List.mem_cons_self
      have hrest := fun x hx => hall x (List.mem_cons_of_mem region hx)
      obtain ⟨p, ps, hps⟩ := List.exists_cons_of_ne_nil hne
      have hpieces' : piece :: pieces = p :: (ps ++ allPieces regions) := by
        rw [hpieces]
        simp [allPieces, hps]
      cases hpieces'
      refine .inr ⟨rfl, _, nextRegion_encode lzo hsized (encodeRegions lzo regions) [],
        ps, regions, ?_, rfl, hrest⟩
      rw [Region.data, hps]
      rfl

/-- An empty rest of a piece is no piece. -/
theorem Reader.Inside.at_nil (h : r.Inside lzo [] pieces) : r.At lzo pieces := by
  obtain ⟨cur, regions, hr, hpieces, hall⟩ := h
  exact ⟨cur, regions, hr, hpieces, hall⟩

/-- **A read inside the next piece** gives its bytes and leaves the rest of it. -/
theorem Reader.At.readLogFull {data rest : List Byte} (h : r.At lzo ((data ++ rest) :: pieces))
    (hdata : data ≠ []) :
    ∃ r', (Log.readLogFull lzo data.length false).run r = .ok data r' ∧ r'.Inside lzo rest pieces := by
  have hread : ∀ {r} (lastZero : Bool), r.Inside lzo (data ++ rest) pieces →
      ∃ r', (Log.readLogFull lzo data.length lastZero).run r = .ok data r' ∧
        r'.Inside lzo rest pieces := by
    rintro r lastZero ⟨cur, regions, rfl, hpieces, hall⟩
    rw [List.append_assoc]
    exact ⟨_, run_readLogFull_append lzo data _ lastZero, cur, regions, rfl, hpieces, hall⟩
  rcases h.cases with h | ⟨hnil, r', hnext, h⟩
  · exact hread false h
  · obtain ⟨r'', hrun, h⟩ := hread true h
    refine ⟨r'', ?_, h⟩
    obtain ⟨file, region⟩ := r
    subst hnil
    rw [run_readLogFull_next lzo (List.length_pos_of_ne_nil hdata) hnext, hrun]

/-- What the region begins with is ahead. -/
theorem run_readaheadLog_of_isPrefix {data : List Byte} (h : data <+: r.region) :
    (readaheadLog lzo data.length).run r = .ok (some data) r := by
  obtain ⟨file, region⟩ := r
  obtain ⟨more, rfl⟩ := h
  exact run_readaheadLog_append lzo data more

/-- At the end of a region, what the next one begins with is. -/
theorem run_readaheadLog_over {data : List Byte} {r' : Reader} (hdata : data ≠ []) (hnil : r.region = [])
    (hnext : (nextRegion lzo).run r = .ok () r') (h : data <+: r'.region) :
    (readaheadLog lzo data.length).run r = .ok (some data) r' := by
  obtain ⟨file, region⟩ := r
  subst hnil
  rw [run_readaheadLog_next lzo (List.length_pos_of_ne_nil hdata) h.length_le hnext,
    run_readaheadLog_of_isPrefix h]

/-- **Looking ahead** shows the beginning of the next piece, and leaves all pieces. -/
theorem Reader.At.readahead {data rest : List Byte} (h : r.At lzo ((data ++ rest) :: pieces))
    (hdata : data ≠ []) :
    ∃ r', (readaheadLog lzo data.length).run r = .ok (some data) r' ∧
      r'.Inside lzo (data ++ rest) pieces := by
  have hlook : ∀ {r : Reader}, r.Inside lzo (data ++ rest) pieces → data <+: r.region := by
    rintro r ⟨cur, regions, rfl, -⟩
    rw [List.append_assoc]
    exact List.prefix_append _ _
  rcases h.cases with h | ⟨hnil, r', hnext, h⟩
  · exact ⟨r, run_readaheadLog_of_isPrefix (hlook h), h⟩
  · exact ⟨r', run_readaheadLog_over hdata hnil hnext (hlook h), h⟩

/-- **Data ahead of a reader**, at the beginning of its region or of the next. -/
def Reader.Ahead (lzo : Lzo) (r : Reader) (data : List Byte) : Prop :=
  data <+: r.region ∨ r.region = [] ∧ ∃ r', (nextRegion lzo).run r = .ok () r' ∧ data <+: r'.region

/-- The next piece is ahead. -/
theorem Reader.At.ahead (h : r.At lzo (piece :: pieces)) : r.Ahead lzo piece := by
  rcases h.cases with ⟨cur, regions, rfl, -⟩ | ⟨hnil, r', hnext, cur, regions, rfl, -⟩
  · exact .inl ⟨cur.flatten, rfl⟩
  · exact .inr ⟨hnil, _, hnext, cur.flatten, rfl⟩

/-- Looking ahead shows the data; then they are in the region. -/
theorem Reader.Ahead.readahead {data rest : List Byte} (h : r.Ahead lzo (data ++ rest))
    (hdata : data ≠ []) :
    ∃ r', (readaheadLog lzo data.length).run r = .ok (some data) r' ∧ data ++ rest <+: r'.region := by
  have hdata' := List.prefix_append data rest
  rcases h with h | ⟨hnil, r', hnext, h⟩
  · exact ⟨r, run_readaheadLog_of_isPrefix (hdata'.trans h), h⟩
  · exact ⟨r', run_readaheadLog_over hdata hnil hnext (hdata'.trans h), h⟩

/-! ### What is left, in bytes -/

/-- The bytes left: those `uncompress_log` would still write. -/
def Reader.Left (lzo : Lzo) (r : Reader) (bytes : List Byte) : Prop :=
  ∃ n, ∀ fuel ≥ n, uncompressLoop lzo fuel r [] = some (fileIsEnd, bytes)

/-- The pieces before a reader are what is left. -/
theorem Reader.At.left (h : r.At lzo pieces) : r.Left lzo pieces.flatten := by
  obtain ⟨cur, regions, rfl, rfl, hall⟩ := h
  obtain ⟨m, hm⟩ := uncompressLoop_region lzo (encodeRegions lzo regions) cur.flatten
  obtain ⟨n, hn⟩ := uncompressLoop_regions lzo fun region hregion => (hall region hregion).1
  refine ⟨n + 1 + m, fun fuel hfuel => ?_⟩
  obtain ⟨k, rfl⟩ := Nat.exists_eq_add_of_le hfuel
  rw [show n + 1 + m + k = k + 1 + n + m by omega, hm, hn, uncompressLoop,
    run_readLog_end lzo (by decide)]
  simp

end At

/-- The reader before the log of some regions. -/
theorem openLog_at {lzo : Lzo} {regions : List Region} (hsized : ∀ region ∈ regions, region.Sized lzo)
    (hne : ∀ region ∈ regions, region.pieces ≠ [])
    (hpieces : ∀ piece ∈ allPieces regions, piece ≠ []) :
    (openLog (encodeRegions lzo regions)).At lzo (allPieces regions) := by
  refine ⟨[], regions, rfl, rfl, fun region hregion => ⟨hsized region hregion, hne region hregion, ?_⟩⟩
  intro piece hpiece
  exact hpieces piece (List.mem_flatMap.mpr ⟨region, hregion, hpiece⟩)

end Snitchaser.Log
