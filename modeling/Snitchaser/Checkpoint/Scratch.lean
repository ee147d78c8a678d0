import Snitchaser.Checkpoint.Coverage
import Snitchaser.Foundation.Intervals

/-!
# The scratch buffer

`flush_mem_regions` loads the listing into a buffer of its own, which no checkpoint should
hold. The region it lies in, or has been merged with, is split around it.

## What is proved

`scratch_cut_iff`: of a listing of ascending regions, one of which is anonymous and holds
the buffer, the ranges given to `append_region` are ascending, and cover what is listed
without the buffer, **exactly when** that region is not in the last line. The name of a last
line without one is read as the line itself (see `Maps`), and the assertion that the region
has no name fails.

The intervals are cut by the rules of `Foundation.Intervals`; `parts_interval` is the
step from the words of a region to them.
-/

namespace Snitchaser.Checkpoint

open Foundation

/-- The addresses of a region. -/
def MemRegion.interval (r : MemRegion) : HalfOpen ℕ := ⟨r.start.toNat, r.endAddr.toNat⟩

/-- The region a line describes, as addresses. -/
def MapsLine.interval (line : MapsLine) : HalfOpen ℕ := (line.region line.name).interval

/-- The buffer lies in a region. -/
def HoldsBuffer (procMap : Word) (i : HalfOpen ℕ) : Prop :=
  i.lo ≤ procMap.toNat ∧ procMap.toNat + maxProcMapsFileSz ≤ i.hi

instance (procMap : Word) (i : HalfOpen ℕ) : Decidable (HoldsBuffer procMap i) :=
  inferInstanceAs (Decidable (_ ∧ _))

/-- **The buffer is cut out exactly**: ranges in ascending order, for the regions of the
listing without the buffer. -/
def CutExactly (procMap : Word) (lines : List MapsLine) (ranges : List (HalfOpen ℕ)) : Prop :=
  HalfOpen.Ascending ranges ∧
    HalfOpen.union ranges = HalfOpen.union (lines.map MapsLine.interval) \
      Set.Ico procMap.toNat (procMap.toNat + maxProcMapsFileSz)

section

variable {env : Env} {procMap : Word} {lines : List MapsLine}

/-! ### The split -/

theorem holdsProcMap_iff {region : MemRegion} :
    holdsProcMap procMap region ↔
      region.interval.lo ≤ procMap.toNat ∧ procMap.toNat < region.interval.hi :=
  Iff.rfl

/-- An unsigned difference of ends that are in order. -/
theorem sub_ne_zero_iff_lt {a b : Word} (h : a.toNat ≤ b.toNat) : b - a ≠ 0 ↔ a.toNat < b.toNat := by
  rw [sub_ne_zero, ne_comm, ← BitVec.toNat_ne_iff_ne]
  omega

/-- The end of the buffer does not wrap. -/
theorem toNat_bufferEnd {region : MemRegion} (h : HoldsBuffer procMap region.interval) :
    (procMap + BitVec.ofNat 32 maxProcMapsFileSz).toNat = procMap.toNat + maxProcMapsFileSz := by
  have hend : procMap.toNat + maxProcMapsFileSz ≤ region.endAddr.toNat := h.2
  have hlt := region.endAddr.isLt
  have hsize : (BitVec.ofNat 32 maxProcMapsFileSz).toNat = maxProcMapsFileSz := rfl
  rw [BitVec.toNat_add, hsize]
  omega

/-- **A split is a cut**, where the buffer does not go beyond the region. -/
theorem map_interval_parts {region : MemRegion}
    (h : holdsProcMap procMap region → HoldsBuffer procMap region.interval) :
    (parts procMap region).map MemRegion.interval =
      HalfOpen.cutOut procMap.toNat (procMap.toNat + maxProcMapsFileSz) region.interval := by
  unfold parts HalfOpen.cutOut
  by_cases hholds : holdsProcMap procMap region
  · rw [if_pos hholds, if_pos (holdsProcMap_iff.mp hholds)]
    have hend := toNat_bufferEnd (h hholds)
    have hbefore : procMap - region.start ≠ 0 ↔ region.start.toNat < procMap.toNat :=
      sub_ne_zero_iff_lt hholds.1
    have hle : procMap.toNat + maxProcMapsFileSz ≤ region.endAddr.toNat := (h hholds).2
    have hbehind : region.endAddr - (procMap + BitVec.ofNat 32 maxProcMapsFileSz) ≠ 0 ↔
        procMap.toNat + maxProcMapsFileSz < region.endAddr.toNat := by
      rw [sub_ne_zero_iff_lt (by rw [hend]; exact hle), hend]
    unfold HalfOpen.cut
    simp only [hbefore, hbehind, List.map_append, apply_ite (List.map MemRegion.interval),
      List.map_cons, List.map_nil, MemRegion.interval, hend]
    rfl
  · rw [if_neg hholds, if_neg fun hin => hholds (holdsProcMap_iff.mpr hin)]
    rfl

/-! ### The lines -/

/-- What the loop appends are the parts of the lines it goes through. -/
theorem flushLoop_appended {fuel : ℕ} {text : List Byte} {out : Flushed}
    (h : flushLoop env procMap fuel text = .ok out) :
    out.appended = out.lines.flatMap fun e => entriesOf procMap e.1 e.2 := by
  induction fuel generalizing text out with
  | zero => cases h
  | succ fuel ih =>
    rw [flushLoop] at h
    obtain ⟨parsed, -, h⟩ := bind_eq_ok.mp h
    cases parsed with
    | none =>
      cases h
      rfl
    | some p =>
      obtain ⟨bytes, -, h⟩ := bind_eq_ok.mp h
      obtain ⟨rest, hrest, h⟩ := bind_eq_ok.mp h
      cases h
      rw [List.flatMap_cons, ← ih hrest]

theorem map_interval_scanned (lines : List MapsLine) :
    (scanned lines).map (fun e => e.1.interval) = lines.map MapsLine.interval := by
  induction lines with
  | nil => rfl
  | cons line lines ih =>
    rw [scanned, List.map_cons, List.map_cons, ih]
    rfl

/-- A name that is read is the one of its line, up to the last line. -/
theorem exists_line_of_scanned {e : MemRegion × List Byte} (he : e ∈ scanned lines) :
    ∃ line ∈ lines, e.1.interval = line.interval ∧
      (e.2 = line.name ∨ lines.getLast? = some line) := by
  induction lines with
  | nil => cases he
  | cons line lines ih =>
    rcases List.mem_cons.mp he with rfl | he
    · refine ⟨line, List.mem_cons_self, rfl, ?_⟩
      cases lines with
      | nil => exact .inr rfl
      | cons next lines => exact .inl (if_neg fun h => absurd h.2 Bool.false_ne_true)
    · obtain ⟨line', hline', hinterval, hname⟩ := ih he
      refine ⟨line', List.mem_cons_of_mem _ hline', hinterval, hname.imp_right fun hlast => ?_⟩
      rw [List.getLast?_cons, hlast]
      rfl

theorem MapsLine.body_ne_nil (line : MapsLine) : line.body ≠ [] :=
  List.append_ne_nil_of_left_ne_nil line.start_hex.1 _

/-- The name of a last line that has none. -/
theorem last_scanned {line : MapsLine} (h : lines.getLast? = some line) (hname : line.name = []) :
    (line.region line.body, line.body) ∈ scanned lines := by
  induction lines with
  | nil => cases h
  | cons first lines ih =>
    cases lines with
    | nil =>
      obtain rfl : first = line := Option.some.inj h
      have hfn : first.scannedFn true = first.body := if_pos ⟨hname, rfl⟩
      unfold scanned
      rw [List.isEmpty_nil, hfn]
      exact List.mem_cons_self
    | cons next lines => exact List.mem_cons_of_mem _ (ih h)

/-- The line of the region that holds the beginning of the buffer. -/
theorem eq_of_holds (hasc : HalfOpen.Ascending (lines.map MapsLine.interval)) {line line' : MapsLine}
    (hline : line ∈ lines) (hline' : line' ∈ lines) (hin : HoldsBuffer procMap line.interval)
    (hholds : line'.interval.lo ≤ procMap.toNat ∧ procMap.toNat < line'.interval.hi) :
    line' = line := by
  have hpos : 0 < maxProcMapsFileSz := by decide
  exact hasc.eq_of_mem hline' hline hholds ⟨hin.1, lt_of_lt_of_le (by omega) hin.2⟩

/-- A region that holds the beginning of the buffer holds all of it. -/
theorem holdsBuffer_of_scanned (hasc : HalfOpen.Ascending (lines.map MapsLine.interval))
    {line : MapsLine} (hline : line ∈ lines) (hin : HoldsBuffer procMap line.interval)
    {e : MemRegion × List Byte} (he : e ∈ scanned lines) (hholds : holdsProcMap procMap e.1) :
    HoldsBuffer procMap e.1.interval := by
  obtain ⟨line', hline', hinterval, -⟩ := exists_line_of_scanned he
  have hbegin := holdsProcMap_iff.mp hholds
  rw [hinterval] at hbegin ⊢
  rwa [eq_of_holds hasc hline hline' hin hbegin]

/-- The ranges that are appended for the lines. -/
theorem cutExactly_of_scanned (hasc : HalfOpen.Ascending (lines.map MapsLine.interval))
    {line : MapsLine} (hline : line ∈ lines) (hin : HoldsBuffer procMap line.interval) :
    CutExactly procMap lines
      (((scanned lines).flatMap fun e => entriesOf procMap e.1 e.2).map fun e => e.1.interval) := by
  have hranges : (((scanned lines).flatMap fun e => entriesOf procMap e.1 e.2).map
      fun e => e.1.interval) = (lines.map MapsLine.interval).flatMap
        (HalfOpen.cutOut procMap.toNat (procMap.toNat + maxProcMapsFileSz)) := by
    rw [← map_interval_scanned, List.flatMap_map, List.map_flatMap]
    refine List.flatMap_congr fun e he => ?_
    rw [← map_interval_parts (holdsBuffer_of_scanned hasc hline hin he), entriesOf, List.map_map]
    rfl
  have hpos : procMap.toNat < procMap.toNat + maxProcMapsFileSz := Nat.lt_add_of_pos_right (by decide)
  rw [hranges]
  refine ⟨hasc.cutOut hpos.le fun i hi hb => ?_,
    HalfOpen.union_cutOut hasc (List.mem_map_of_mem hline) hin.1 hpos hin.2⟩
  obtain ⟨line', hline', rfl⟩ := List.mem_map.mp hi
  rw [eq_of_holds hasc hline hline' hin hb]
  exact hin.2

end

/-- **The scratch buffer is cut out exactly**: of a listing of ascending regions, in one of
which, without a name, the buffer lies, `append_region` is given ranges that are not empty,
disjoint and ascending, and that cover the listing without the buffer, exactly if the
region's line is not the last. -/
theorem scratch_cut_iff (env : Env) (procMap : Word) (delivery : Delivery) (lines : List MapsLine)
    (hfit : (listing lines).length < maxProcMapsFileSz)
    (hwhole : delivery.size (listing lines) = (listing lines).length)
    (hasc : HalfOpen.Ascending (lines.map MapsLine.interval)) (line : MapsLine) (hline : line ∈ lines)
    (hanon : line.name = []) (hin : HoldsBuffer procMap line.interval)
    (hret : ∀ e ∈ scanned lines, ∀ r ∈ parts procMap e.1, ∃ bytes, appendRegion env r e.2 = .ok bytes) :
    (∃ out, flushMemRegions env procMap delivery (listing lines) = .ok out ∧
        CutExactly procMap lines (out.appended.map fun e => e.1.interval)) ↔
      lines.getLast? ≠ some line := by
  have htake : (listing lines).take (delivery.size (listing lines)) = listing lines := by
    rw [hwhole, List.take_length]
  have hflush := flushMemRegions_eq env procMap hfit htake
  have hloop := flushLoop_listing env procMap lines (Nat.lt_succ_of_le (length_le_listing lines))
  constructor
  · rintro ⟨out, hout, -⟩ hlast
    -- the name that is read is the line itself
    have he := last_scanned hlast hanon
    have hholds : holdsProcMap procMap (line.region line.body) :=
      ⟨hin.1, lt_of_lt_of_le (Nat.lt_add_of_pos_right (by decide)) hin.2⟩
    rcases hloop with ⟨_, -, -, hall⟩ | ⟨⟨fault, hfault⟩, -⟩
    · exact line.body_ne_nil ((hall _ he).1 hholds)
    · rw [hflush, hfault] at hout
      cases hout
  · intro hnot
    have hall : ∀ e ∈ scanned lines, LineRecordable env procMap e.1 e.2 := by
      intro e he
      refine ⟨fun hholds => ?_, fun r hr => ?_⟩
      · obtain ⟨line', hline', hinterval, hname⟩ := exists_line_of_scanned he
        have hbegin := holdsProcMap_iff.mp hholds
        rw [hinterval] at hbegin
        obtain rfl := eq_of_holds hasc hline hline' hin hbegin
        rw [← hanon]
        exact hname.resolve_right hnot
      · obtain ⟨bytes, hbytes⟩ := hret e he r hr
        exact (appendRegion_eq_ok.mp hbytes).1
    rcases hloop with ⟨out, hout, hlines, -⟩ | ⟨-, hno⟩
    · rw [hout] at hflush
      refine ⟨_, hflush, ?_⟩
      change CutExactly procMap lines (out.appended.map fun e => e.1.interval)
      rw [flushLoop_appended hout, hlines]
      exact cutExactly_of_scanned hasc hline hin
    · exact absurd hall hno

/-- `b7e00000-b8000000 rw-p 00000000 00:00 0`. -/
def scratchLine : MapsLine :=
  .ofTexts "b7e00000" "b8000000" "rw-p" "00000000" "00:00" "0" "" (by decide +kernel)

/-- One call returns all of the listing. -/
def whole : Delivery := ⟨List.length, fun _ => le_rfl, fun _ => List.length_pos_iff.mpr⟩

/-- The buffer ends its region, and the stack follows. -/
theorem scratch_cut_iff_before_stack :
    ∃ out, flushMemRegions someEnv 0xb7f00000 whole (listing [scratchLine, stackLine]) = .ok out ∧
      CutExactly 0xb7f00000 [scratchLine, stackLine] (out.appended.map fun e => e.1.interval) := by
  have hrec : ∀ e ∈ scanned [scratchLine, stackLine], ∀ r ∈ parts 0xb7f00000 e.1,
      Recordable someEnv r e.2 := by
    decide +kernel
  refine (scratch_cut_iff someEnv 0xb7f00000 whole [scratchLine, stackLine] (by decide +kernel) rfl
    ⟨by decide +kernel, by decide +kernel⟩ scratchLine List.mem_cons_self rfl (by decide +kernel)
    fun e he r hr => ⟨_, appendRegion_eq_ok.mpr ⟨hrec e he r hr, rfl⟩⟩).mpr fun hlast => ?_
  have hname : stackLine.name = scratchLine.name := congrArg MapsLine.name (Option.some.inj hlast)
  exact absurd hname (by decide)

/-- Without the stack, the line of the buffer is the last. -/
theorem last_line_not_cut :
    HalfOpen.Ascending ([scratchLine].map MapsLine.interval) ∧
      HoldsBuffer 0xb7f00000 scratchLine.interval ∧
      flushMemRegions someEnv 0xb7f00000 whole (listing [scratchLine]) =
        .error (.assertion "*mapped_fn == '\\0'") :=
  ⟨⟨by decide +kernel, List.pairwise_singleton _ _⟩, by decide +kernel, rfl⟩

end Snitchaser.Checkpoint
