import Snitchaser.Log.Stream

/-!
# Bytes read across regions

`read_log_full` takes what it is asked for out of as many regions as it needs, but it
gives up when `read_log` brings nothing twice in a row: once because a region ended, and
once more because the next one was empty. So the bytes a reader can be asked for are those
before the first empty region, its `supply`.

`Reader.Supplies.readLogFull` says that `read_log_full` takes the supply from its front,
however the request lies across the regions, and fails if it is asked for more.
`le_length_supply_iff` says what a long enough supply means for the regions of a log.
-/

namespace Snitchaser.Log

open Foundation

/-- The bytes before the first empty region. -/
def supply (cur : List Byte) : List Region → List Byte
  | [] => cur
  | region :: regions => cur ++ if region.data = [] then [] else supply region.data regions

/-- All bytes of the log. -/
def logBytes (cur : List Byte) (regions : List Region) : List Byte :=
  cur ++ (allPieces regions).flatten

/-- **No empty region stands before the byte `n`.** -/
def NoEmptyBefore (cur : List Byte) (regions : List Region) (n : ℕ) : Prop :=
  ∀ before region after, regions = before ++ region :: after → region.data = [] →
    n ≤ (logBytes cur before).length

theorem supply_append (cur more : List Byte) (regions : List Region) :
    supply (cur ++ more) regions = cur ++ supply more regions := by
  cases regions with
  | nil => rfl
  | cons region regions => exact List.append_assoc cur more _

theorem supply_cons_of_ne (cur : List Byte) {region : Region} (h : region.data ≠ [])
    (regions : List Region) : supply cur (region :: regions) = supply (cur ++ region.data) regions := by
  rw [supply_append, supply, if_neg h]

theorem supply_cons_of_eq (cur : List Byte) {region : Region} (h : region.data = [])
    (regions : List Region) : supply cur (region :: regions) = cur := by
  rw [supply, if_pos h, List.append_nil]

theorem logBytes_cons (cur : List Byte) (region : Region) (regions : List Region) :
    logBytes cur (region :: regions) = logBytes (cur ++ region.data) regions := by
  simp [logBytes, allPieces, Region.data]

theorem exists_supply_append (cur : List Byte) (regions : List Region) :
    ∃ rest, logBytes cur regions = supply cur regions ++ rest := by
  induction regions generalizing cur with
  | nil => exact ⟨[], rfl⟩
  | cons region regions ih =>
    by_cases hempty : region.data = []
    · rw [supply_cons_of_eq cur hempty]
      exact ⟨_, rfl⟩
    · rw [supply_cons_of_ne cur hempty, logBytes_cons]
      exact ih (cur ++ region.data)

/-- If the log is long enough, then only an empty region ends the supply before `n`. -/
theorem le_length_supply_iff {cur : List Byte} {regions : List Region} {n : ℕ}
    (h : n ≤ (logBytes cur regions).length) :
    n ≤ (supply cur regions).length ↔ NoEmptyBefore cur regions n := by
  induction regions generalizing cur with
  | nil =>
    refine iff_of_true (h.trans_eq (by simp [logBytes, allPieces, supply])) ?_
    intro before region after heq
    exact absurd heq.symm (by simp)
  | cons first regions ih =>
    by_cases hempty : first.data = []
    · rw [supply_cons_of_eq cur hempty]
      constructor
      · intro hn before region after _ _
        exact hn.trans (by simp [logBytes])
      · intro hno
        exact (hno [] first regions rfl hempty).trans_eq (by simp [logBytes, allPieces])
    · rw [supply_cons_of_ne cur hempty, ih (by rwa [← logBytes_cons])]
      constructor
      · intro hno before region after heq hregion
        cases before with
        | nil =>
          cases heq
          exact absurd hregion hempty
        | cons b before =>
          cases heq
          rw [logBytes_cons]
          exact hno before region after rfl hregion
      · intro hno before region after heq hregion
        rw [← logBytes_cons]
        exact hno (first :: before) region after (congrArg (first :: ·) heq) hregion

/-! ### The reader -/

/-- A reader before a supply. -/
def Reader.Supplies (lzo : Lzo) (r : Reader) (bytes : List Byte) : Prop :=
  ∃ cur regions, r = ⟨encodeRegions lzo regions, cur⟩ ∧ (∀ region ∈ regions, region.Sized lzo) ∧
    bytes = supply cur regions

section ReadLogFull

variable (lzo : Lzo) {size : ℕ} {file cur : List Byte}

/-- A read past the end of the region takes the rest of it, and goes on. -/
theorem run_readLogFull_past (h : cur.length < size) (hne : cur ≠ []) (lastZero : Bool) :
    (readLogFull lzo size lastZero).run ⟨file, cur⟩ =
      (readLogFull lzo (size - cur.length) false >>= fun rest => pure (cur ++ rest)).run ⟨file, []⟩ := by
  rw [readLogFull, if_neg (by omega), run_bind_ok (run_readLog_of_lt lzo h hne), dif_neg hne]

/-- At the end of the file a read fails. -/
theorem run_readLogFull_end (h : 0 < size) (lastZero : Bool) :
    (readLogFull lzo size lastZero).run ⟨[], []⟩ = .error fileIsEnd ⟨[], []⟩ := by
  rw [readLogFull, if_neg h.ne', run_bind_error (run_readLog_end lzo h)]

/-- A read that has just come to an empty region fails. -/
theorem run_readLogFull_empty (h : 0 < size) {regions : List Region}
    (hsized : ∀ region ∈ regions, region.Sized lzo) :
    ∃ e r, (readLogFull lzo size true).run ⟨encodeRegions lzo regions, []⟩ = .error e r := by
  cases regions with
  | nil => exact ⟨_, _, run_readLogFull_end lzo h true⟩
  | cons region regions =>
    have hnext := nextRegion_encode lzo (hsized region List.mem_cons_self) (encodeRegions lzo regions) []
    rw [encodeRegions_cons, readLogFull, if_neg h.ne', run_bind_ok (run_readLog_next lzo h hnext),
      dif_pos rfl]
    exact ⟨_, _, rfl⟩

end ReadLogFull

section Supplies

variable {lzo : Lzo} {size : ℕ} {cur : List Byte} {regions : List Region}

/-- A read in the region. -/
theorem run_readLogFull_inside {file : List Byte} (h : size ≤ cur.length) (lastZero : Bool) :
    (readLogFull lzo size lastZero).run ⟨file, cur⟩ = .ok (cur.take size) ⟨file, cur.drop size⟩ := by
  have hrun : (readLogFull lzo (cur.take size).length lastZero).run ⟨file, cur.take size ++ cur.drop size⟩ =
      .ok (cur.take size) ⟨file, cur.drop size⟩ := run_readLogFull_append lzo _ _ lastZero
  rwa [List.length_take_of_le h, List.take_append_drop] at hrun

/-- **A read across the end of a region** takes what is left of it, and the rest from the
next. -/
theorem run_readLogFull_cross {region : Region} (hsized : region.Sized lzo) (h : cur.length < size)
    {lastZero : Bool} (hzero : lastZero = true → cur ≠ []) :
    (readLogFull lzo size lastZero).run ⟨encodeRegions lzo (region :: regions), cur⟩ =
      (readLogFull lzo (size - cur.length) true >>= fun rest => pure (cur ++ rest)).run
        ⟨encodeRegions lzo regions, region.data⟩ := by
  have hnext := nextRegion_encode lzo hsized (encodeRegions lzo regions) []
  rw [encodeRegions_cons]
  by_cases hnil : cur = []
  · subst hnil
    have hfalse : lastZero = false := by
      by_contra htrue
      exact hzero (by simpa using htrue) rfl
    rw [hfalse, run_readLogFull_next lzo h hnext]
    simp
  · rw [run_readLogFull_past lzo h hnil,
      run_bind_congr (run_readLogFull_next lzo (Nat.sub_pos_of_lt h) hnext)]

/-- A request that the supply meets. -/
theorem run_readLogFull_supply (hsized : ∀ region ∈ regions, region.Sized lzo)
    (h : size ≤ (supply cur regions).length) {lastZero : Bool} (hzero : lastZero = true → cur ≠ []) :
    ∃ r, (readLogFull lzo size lastZero).run ⟨encodeRegions lzo regions, cur⟩ =
        .ok ((supply cur regions).take size) r ∧ r.Supplies lzo ((supply cur regions).drop size) := by
  -- Over the regions: the request ends in this one, or takes all of it and goes on.
  induction regions generalizing cur size lastZero with
  | nil =>
    exact ⟨_, run_readLogFull_inside h lastZero, cur.drop size, [], rfl, hsized, rfl⟩
  | cons region regions ih =>
    have hcur := supply_append cur [] (region :: regions)
    rw [List.append_nil] at hcur
    by_cases hin : size ≤ cur.length
    · refine ⟨_, (run_readLogFull_inside hin lastZero).trans ?_, cur.drop size, region :: regions, rfl,
        hsized, ?_⟩
      · rw [hcur, List.take_append_of_le_length hin]
      · rw [hcur, List.drop_append_of_le_length hin, ← supply_append, List.append_nil]
    · have hlt := not_le.mp hin
      have hne : region.data ≠ [] := by
        intro hempty
        rw [supply_cons_of_eq cur hempty] at h
        exact hin h
      rw [supply_cons_of_ne cur hne, supply_append] at h ⊢
      rw [List.length_append] at h
      obtain ⟨r, hrun, hr⟩ := ih (fun x hx => hsized x (List.mem_cons_of_mem region hx))
        (show size - cur.length ≤ (supply region.data regions).length by omega)
        (fun _ : true = true => hne)
      refine ⟨r, ?_, ?_⟩
      · rw [run_readLogFull_cross (hsized region List.mem_cons_self) hlt hzero, run_bind_ok hrun,
          List.take_append, List.take_of_length_le hlt.le]
        rfl
      · rwa [List.drop_append, List.drop_of_length_le hlt.le, List.nil_append]

/-- A request that the supply does not meet. -/
theorem run_readLogFull_short (hsized : ∀ region ∈ regions, region.Sized lzo)
    (h : (supply cur regions).length < size) {lastZero : Bool} (hzero : lastZero = true → cur ≠ []) :
    ∃ e r, (readLogFull lzo size lastZero).run ⟨encodeRegions lzo regions, cur⟩ = .error e r := by
  induction regions generalizing cur size lastZero with
  | nil =>
    have hlt : cur.length < size := h
    by_cases hnil : cur = []
    · subst hnil
      exact ⟨_, _, run_readLogFull_end lzo hlt lastZero⟩
    · have hend := run_readLogFull_end lzo (Nat.sub_pos_of_lt hlt) false
      exact ⟨_, _, (run_readLogFull_past lzo hlt hnil lastZero).trans (run_bind_error hend)⟩
  | cons region regions ih =>
    have hrest := fun x hx => hsized x (List.mem_cons_of_mem region hx)
    have hlt : cur.length < size := by
      refine lt_of_le_of_lt ?_ h
      rw [supply, List.length_append]
      exact Nat.le_add_right _ _
    rw [run_readLogFull_cross (hsized region List.mem_cons_self) hlt hzero]
    by_cases hempty : region.data = []
    · rw [hempty]
      obtain ⟨e, r, hrun⟩ := run_readLogFull_empty lzo (Nat.sub_pos_of_lt hlt) hrest
      exact ⟨e, r, run_bind_error hrun⟩
    · rw [supply_cons_of_ne cur hempty, supply_append, List.length_append] at h
      obtain ⟨e, r, hrun⟩ := ih hrest (show (supply region.data regions).length < size - cur.length by omega)
        (fun _ : true = true => hempty)
      exact ⟨e, r, run_bind_error hrun⟩

variable {r : Reader} {bytes : List Byte}

/-- **`read_log_full` takes from the front of the supply.** -/
theorem Reader.Supplies.readLogFull (h : r.Supplies lzo bytes) (hsize : size ≤ bytes.length) :
    ∃ r', (Log.readLogFull lzo size false).run r = .ok (bytes.take size) r' ∧
      r'.Supplies lzo (bytes.drop size) := by
  obtain ⟨cur, regions, rfl, hsized, rfl⟩ := h
  exact run_readLogFull_supply hsized hsize (by simp)

/-- **Asked for more than the supply, it throws.** -/
theorem Reader.Supplies.readLogFull_short (h : r.Supplies lzo bytes) (hsize : bytes.length < size) :
    ∃ e r', (Log.readLogFull lzo size false).run r = .error e r' := by
  obtain ⟨cur, regions, rfl, hsized, rfl⟩ := h
  exact run_readLogFull_short hsized hsize (by simp)

end Supplies

end Snitchaser.Log
