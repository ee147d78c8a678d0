import Snitchaser.Checkpoint.Framing
import Snitchaser.Checkpoint.Maps
import Mathlib.Data.List.TakeWhile

/-!
# What a checkpoint covers

`flush_mem_regions` reads `/proc/self/maps` into a buffer, goes through it line by line, and
appends a region for each. The buffer itself lies in a region, which is split around it.

## The model

* `read` gives some of what remains of a file, and nothing only at its end (`Delivery`).
* Calls that write are taken to succeed; allocation and release of the buffer are left out.
* The loop takes fuel; each line takes a character at least, so the length of the text is
  enough (`flushMemRegions_ne_diverges`).

## What is proved

`covers_iff`: a checkpoint covers the listing, or is not made, unless the one call of `read`
ended with a line, before the last one, and the lines before could be recorded. A call that
ends within a line is found out. `flush_writes` connects the file to `Framing`.
-/

namespace Snitchaser.Checkpoint

open Foundation

/-- **How `read` delivers a file.** -/
structure Delivery where
  /-- How much a call returns of what remains. -/
  size : List Byte → ℕ
  size_le : ∀ rest, size rest ≤ rest.length
  size_pos : ∀ rest, rest ≠ [] → 0 < size rest

/-- `MAX_PROC_MAPS_FILE_SZ`. -/
def maxProcMapsFileSz : ℕ := 1024 * 1024

section

variable (env : Env) (procMap : Word)

/-- The buffer begins in this region. -/
def holdsProcMap (region : MemRegion) : Prop := region.start ≤ procMap ∧ procMap < region.endAddr

instance (region : MemRegion) : Decidable (holdsProcMap procMap region) :=
  inferInstanceAs (Decidable (_ ∧ _))

/-- The region, or what lies before the buffer and behind it. -/
def parts (region : MemRegion) : List MemRegion :=
  if holdsProcMap procMap region then
    let r1 := { region with endAddr := procMap }
    let r2 := { region with start := procMap + BitVec.ofNat 32 maxProcMapsFileSz }
    (if r1.endAddr - r1.start ≠ 0 then [r1] else []) ++ (if r2.endAddr - r2.start ≠ 0 then [r2] else [])
  else [region]

/-- A region that is split has to be anonymous. -/
def checkSplit (region : MemRegion) (fn : List Byte) : Except Fault Unit :=
  if holdsProcMap procMap region then assert (fn = []) "*mapped_fn == '\\0'" else .ok ()

/-- What is appended for a line. -/
def entriesOf (region : MemRegion) (fn : List Byte) : List (MemRegion × List Byte) :=
  (parts procMap region).map fun r => (r, fn)

/-- The body of the loop. -/
def appendLine (region : MemRegion) (fn : List Byte) : Except Fault (List Byte) := do
  checkSplit procMap region fn
  appendRegions env (entriesOf procMap region fn)

/-- What `flush_mem_regions` did. -/
structure Flushed where
  /-- The lines it went through: a region and a name for each. -/
  lines : List (MemRegion × List Byte)
  /-- The regions it appended. -/
  appended : List (MemRegion × List Byte)
  /-- What it wrote. -/
  file : List Byte
  deriving DecidableEq, Repr

/-- The loop over the lines. -/
def flushLoop : ℕ → List Byte → Except Fault Flushed
  | 0, _ => .error .diverges
  | fuel + 1, text => do
    let parsed ← readProcmemLine text
    match parsed with
    | none => .ok ⟨[], [], []⟩
    | some p => do
      let bytes ← appendLine env procMap p.region p.fn
      let out ← flushLoop fuel p.rest
      .ok ⟨(p.region, p.fn) :: out.lines, entriesOf procMap p.region p.fn ++ out.appended, bytes ++ out.file⟩

/-- `flush_mem_regions`: one call of `read`, and the loop over what it gave. -/
def flushMemRegions (delivery : Delivery) (maps : List Byte) : Except Fault Flushed :=
  let procText := maps.take (min maxProcMapsFileSz (delivery.size maps))
  if procText.length < maxProcMapsFileSz then do
    let out ← flushLoop env procMap (procText.length + 1) (procText.takeWhile (· ≠ 0))
    .ok { out with file := out.file ++ trailer }
  else .error (.fatal "memory map too complex, increase MAX_PROC_MAPS_FILE_SZ!\n")

/-- **A line can be recorded.** -/
def LineRecordable (region : MemRegion) (fn : List Byte) : Prop :=
  (holdsProcMap procMap region → fn = []) ∧ ∀ r ∈ parts procMap region, Recordable env r fn

/-- All of a region but its name. -/
def MemRegion.extent (r : MemRegion) : Word × Word × Word × BitVec 64 :=
  (r.start, r.endAddr, r.prot, r.offset)

/-- **`flush_mem_regions` aborts, or it goes through all lines of the listing.** -/
def Covers (delivery : Delivery) (lines : List MapsLine) : Prop :=
  (∃ fault, fault ≠ .diverges ∧ flushMemRegions env procMap delivery (listing lines) = .error fault) ∨
    ∃ out, flushMemRegions env procMap delivery (listing lines) = .ok out ∧
      out.lines.map (fun e => e.1.extent) = lines.map fun line => (line.region line.name).extent

end

/-- The regions and names of lines after which the text ends. -/
def scanned : List MapsLine → List (MemRegion × List Byte)
  | [] => []
  | line :: lines =>
    let fn := line.scannedFn lines.isEmpty
    (line.region fn, fn) :: scanned lines

/-! ### A line -/

section

variable {env : Env} {procMap : Word}

theorem appendLine_ok {region : MemRegion} {fn : List Byte} (h : LineRecordable env procMap region fn) :
    ∃ bytes, appendLine env procMap region fn = .ok bytes ∧
      appendRegions env (entriesOf procMap region fn) = .ok bytes := by
  have hcheck : checkSplit procMap region fn = .ok () := by
    unfold checkSplit
    split_ifs with hholds
    · exact assert_of_true (h.1 hholds) _
    · rfl
  have hrec : ∀ e ∈ entriesOf procMap region fn, Recordable env e.1 e.2 := by
    intro e he
    obtain ⟨r, hr, rfl⟩ := List.mem_map.mp he
    exact h.2 r hr
  have happend := appendRegions_eq_ok.mpr ⟨hrec, rfl⟩
  refine ⟨_, ?_, happend⟩
  unfold appendLine
  rw [hcheck, happend]
  rfl

theorem lineRecordable_of_ok {region : MemRegion} {fn bytes : List Byte}
    (h : appendLine env procMap region fn = .ok bytes) :
    LineRecordable env procMap region fn ∧ appendRegions env (entriesOf procMap region fn) = .ok bytes := by
  unfold appendLine at h
  obtain ⟨_, hcheck, happend⟩ := bind_eq_ok.mp h
  refine ⟨⟨fun hholds => ?_, fun r hr => ?_⟩, happend⟩
  · unfold checkSplit at hcheck
    rw [if_pos hholds] at hcheck
    exact of_assert hcheck
  · exact (appendRegions_eq_ok.mp happend).1 (r, fn) (List.mem_map_of_mem hr)

theorem appendRegions_append {xs ys : List (MemRegion × List Byte)} {bytes rest : List Byte}
    (hxs : appendRegions env xs = .ok bytes) (hys : appendRegions env ys = .ok rest) :
    appendRegions env (xs ++ ys) = .ok (bytes ++ rest) := by
  obtain ⟨hx, rfl⟩ := appendRegions_eq_ok.mp hxs
  obtain ⟨hy, rfl⟩ := appendRegions_eq_ok.mp hys
  refine appendRegions_eq_ok.mpr ⟨?_, (List.flatMap_append).symm⟩
  intro e he
  exact (List.mem_append.mp he).elim (hx e) (hy e)

/-- What a line gives comes from the text, and the text behind it is shorter. -/
theorem readProcmemLine_some {text : List Byte} {p : Parsed} (h : readProcmemLine text = .ok (some p)) :
    p.region.fnSz = BitVec.ofNat 32 (p.fn.length + 1) ∧ p.fn.Sublist text ∧ p.rest.Sublist text ∧
      p.rest.length < text.length := by
  have htail : ∀ l, (nameAt text l).Sublist text := by
    intro l
    unfold nameAt
    split_ifs <;> exact List.drop_sublist _ _
  have hshort : ∀ l n, newline ∈ nameAt text l → ((nameAt text l).drop (n + 1)).length < text.length := by
    intro l n hline
    have hpos := List.length_pos_of_mem hline
    have hle := (htail l).length_le
    rw [List.length_drop]
    omega
  unfold readProcmemLine at h
  dsimp only at h
  split at h
  · cases h
  · split_ifs at h with hline
    cases h
    exact ⟨rfl, (List.takeWhile_sublist _).trans (htail _), (List.drop_sublist _ _).trans (htail _),
      hshort _ _ hline⟩
  · cases h

/-! ### The fuel -/

theorem appendRegion_ne_diverges (env : Env) (region : MemRegion) (fn : List Byte) :
    appendRegion env region fn ≠ .error .diverges := by
  intro h
  unfold appendRegion at h
  split_ifs at h
  rcases bind_eq_error.mp h with h | ⟨_, -, h⟩
  · cases eq_assertion_of_assert h
  · rcases bind_eq_error.mp h with h | ⟨_, -, h⟩
    · cases eq_assertion_of_assert h
    · cases h

theorem appendRegions_ne_diverges (env : Env) (entries : List (MemRegion × List Byte)) :
    appendRegions env entries ≠ .error .diverges := by
  induction entries with
  | nil => exact fun h => nomatch h
  | cons e entries ih =>
    intro h
    rw [appendRegions] at h
    rcases bind_eq_error.mp h with h | ⟨_, -, h⟩
    · exact appendRegion_ne_diverges env _ _ h
    · rcases bind_eq_error.mp h with h | ⟨_, -, h⟩
      · exact ih h
      · cases h

theorem appendLine_ne_diverges (env : Env) (procMap : Word) (region : MemRegion) (fn : List Byte) :
    appendLine env procMap region fn ≠ .error .diverges := by
  intro h
  rcases bind_eq_error.mp h with h | ⟨_, -, h⟩
  · unfold checkSplit at h
    split_ifs at h
    cases eq_assertion_of_assert h
  · exact appendRegions_ne_diverges env _ h

theorem readProcmemLine_ne_diverges (text : List Byte) : readProcmemLine text ≠ .error .diverges := by
  intro h
  unfold readProcmemLine at h
  dsimp only at h
  split at h
  · cases h
  · split_ifs at h
    cases h
  · cases h

/-- Each line makes the text shorter, so its length is fuel enough. -/
theorem flushLoop_ne_diverges (env : Env) (procMap : Word) {text : List Byte} {fuel : ℕ}
    (hfuel : text.length < fuel) : flushLoop env procMap fuel text ≠ .error .diverges := by
  induction fuel generalizing text with
  | zero => exact absurd hfuel (Nat.not_lt_zero _)
  | succ fuel ih =>
    intro h
    rw [flushLoop] at h
    rcases bind_eq_error.mp h with h | ⟨parsed, hread, h⟩
    · exact readProcmemLine_ne_diverges text h
    · cases parsed with
      | none => cases h
      | some p =>
        have hrest : p.rest.length < fuel :=
          lt_of_lt_of_le (readProcmemLine_some hread).2.2.2 (Nat.le_of_lt_succ hfuel)
        rcases bind_eq_error.mp h with h | ⟨_, -, h⟩
        · exact appendLine_ne_diverges env procMap _ _ h
        · rcases bind_eq_error.mp h with h | ⟨_, -, h⟩
          · exact ih hrest h
          · cases h

/-- **`flush_mem_regions` comes to an end**, whatever it reads. -/
theorem flushMemRegions_ne_diverges (env : Env) (procMap : Word) (delivery : Delivery) (maps : List Byte) :
    flushMemRegions env procMap delivery maps ≠ .error .diverges := by
  intro h
  unfold flushMemRegions at h
  dsimp only at h
  split_ifs at h
  · rcases bind_eq_error.mp h with h | ⟨_, -, h⟩
    · refine flushLoop_ne_diverges env procMap (Nat.lt_succ_of_le ?_) h
      exact (List.takeWhile_sublist _).length_le
    · cases h
  · cases h

/-! ### The loop -/

/-- What may come next in the text: a line that is cut off. -/
def IsCut (t : List Byte) : Prop := ∃ b rest, t = b :: rest ∧ isXdigit b = true ∧ newline ∉ t

/-- A line begins with a digit. -/
theorem MapsLine.exists_head (line : MapsLine) :
    ∃ b rest, line.text = b :: rest ∧ isXdigit b = true := by
  obtain ⟨hne, hhex⟩ := line.start_hex
  unfold MapsLine.text MapsLine.body
  cases hstart : line.start with
  | nil => exact absurd hstart hne
  | cons b rest => exact ⟨b, _, rfl, hhex b (by rw [hstart]; exact List.mem_cons_self)⟩

theorem listing_cons (line : MapsLine) (lines : List MapsLine) :
    listing (line :: lines) = line.text ++ listing lines := rfl

theorem listing_eq_nil_iff {lines : List MapsLine} : listing lines = [] ↔ lines = [] := by
  cases lines with
  | nil => exact iff_of_true rfl rfl
  | cons line lines =>
    obtain ⟨b, rest, htext, -⟩ := line.exists_head
    rw [listing_cons, htext]
    exact iff_of_false (List.cons_ne_nil _ _) (List.cons_ne_nil _ _)

/-- What follows a line does not begin with white space. -/
theorem follows_listing_append {lines : List MapsLine} {t : List Byte} (ht : t = [] ∨ IsCut t) :
    MapsLine.Follows (listing lines ++ t) := by
  intro b hb
  cases lines with
  | nil =>
    rcases ht with rfl | ⟨c, rest, rfl, hc, -⟩
    · cases hb
    · cases hb
      exact isSpace_eq_false_of_isXdigit _ hc
  | cons line lines =>
    obtain ⟨c, rest, htext, hc⟩ := line.exists_head
    rw [listing_cons, htext] at hb
    cases hb
    exact isSpace_eq_false_of_isXdigit _ hc

/-- One line. -/
theorem flushLoop_text (line : MapsLine) {rest fn : List Byte} (hrest : MapsLine.Follows rest)
    (hfn : line.scannedFn (rest = []) = fn) (fuel : ℕ) :
    flushLoop env procMap (fuel + 1) (line.text ++ rest) = (do
      let bytes ← appendLine env procMap (line.region fn) fn
      let out ← flushLoop env procMap fuel rest
      .ok ⟨(line.region fn, fn) :: out.lines, entriesOf procMap (line.region fn) fn ++ out.appended,
        bytes ++ out.file⟩) := by
  subst hfn
  rw [flushLoop, line.readProcmemLine_text hrest]
  rfl

/-- **The loop over whole lines**: it goes through all of them, or one cannot be recorded. -/
theorem flushLoop_listing (env : Env) (procMap : Word) (lines : List MapsLine) {fuel : ℕ} (hfuel : lines.length < fuel) :
    (∃ out, flushLoop env procMap fuel (listing lines) = .ok out ∧ out.lines = scanned lines ∧
        ∀ e ∈ scanned lines, LineRecordable env procMap e.1 e.2) ∨
      (∃ fault, flushLoop env procMap fuel (listing lines) = .error fault) ∧
        ¬∀ e ∈ scanned lines, LineRecordable env procMap e.1 e.2 := by
  induction lines generalizing fuel with
  | nil =>
    obtain ⟨fuel, rfl⟩ := Nat.exists_eq_add_one_of_ne_zero (Nat.ne_zero_of_lt hfuel)
    exact .inl ⟨⟨[], [], []⟩, rfl, rfl, fun e he => absurd he List.not_mem_nil⟩
  | cons line lines ih =>
    obtain ⟨fuel, rfl⟩ := Nat.exists_eq_add_one_of_ne_zero (Nat.ne_zero_of_lt hfuel)
    have hfollows : MapsLine.Follows (listing lines) := by
      have h : MapsLine.Follows (listing lines ++ []) := follows_listing_append (.inl rfl)
      rwa [List.append_nil] at h
    have hlast : line.scannedFn (listing lines = []) = line.scannedFn lines.isEmpty := by
      refine congrArg line.scannedFn (Bool.eq_iff_iff.mpr ?_)
      rw [decide_eq_true_iff, List.isEmpty_iff]
      exact listing_eq_nil_iff
    rw [listing_cons, flushLoop_text line hfollows hlast, scanned, List.forall_mem_cons]
    generalize line.scannedFn lines.isEmpty = fn
    by_cases hline : LineRecordable env procMap (line.region fn) fn
    · obtain ⟨bytes, hbytes, -⟩ := appendLine_ok hline
      simp only [hbytes, bind, Except.bind]
      rcases ih (Nat.lt_of_succ_lt_succ hfuel) with ⟨out, hout, hlines, hall⟩ | ⟨⟨fault, herr⟩, hnot⟩
      · rw [hout]
        exact .inl ⟨_, rfl, congrArg _ hlines, hline, hall⟩
      · rw [herr]
        exact .inr ⟨⟨fault, rfl⟩, fun h => hnot h.2⟩
    · refine .inr ⟨?_, fun h => hline h.1⟩
      cases happend : appendLine env procMap (line.region fn) fn with
      | ok bytes => exact absurd (lineRecordable_of_ok happend).1 hline
      | error fault => exact ⟨fault, rfl⟩

/-- The loop over a text that ends within a line stops the recorder. -/
theorem flushLoop_cut (env : Env) (procMap : Word) (lines : List MapsLine) {t : List Byte} (ht : IsCut t) (fuel : ℕ) :
    ∃ fault, flushLoop env procMap fuel (listing lines ++ t) = .error fault := by
  induction lines generalizing fuel with
  | nil =>
    cases fuel with
    | zero => exact ⟨_, rfl⟩
    | succ fuel =>
      obtain ⟨b, rest, rfl, hb, hline⟩ := ht
      obtain ⟨fault, hread⟩ := MapsLine.readProcmemLine_cut hb hline
      refine ⟨fault, ?_⟩
      rw [listing, List.flatMap_nil, List.nil_append, flushLoop, hread]
      rfl
  | cons line lines ih =>
    cases fuel with
    | zero => exact ⟨_, rfl⟩
    | succ fuel =>
      rw [listing_cons, List.append_assoc, flushLoop_text line (follows_listing_append (.inr ht)) rfl]
      obtain ⟨fault, herr⟩ := ih fuel
      rw [herr]
      cases appendLine env procMap _ _ with
      | error fault => exact ⟨fault, rfl⟩
      | ok bytes => exact ⟨fault, rfl⟩

/-! ### One call of `read` -/

/-- A beginning of a line is cut off. -/
theorem MapsLine.isCut_take (line : MapsLine) {n : ℕ} (hpos : 0 < n) (hlt : n < line.text.length) :
    IsCut (line.text.take n) := by
  obtain ⟨b, rest, htext, hb⟩ := line.exists_head
  have hbody : line.text.take n = line.body.take n := by
    have hle : n ≤ line.body.length := by
      rw [MapsLine.text, List.length_append, List.length_cons, List.length_nil] at hlt
      omega
    rw [MapsLine.text, List.take_append_of_le_length hle]
  refine ⟨b, rest.take (n - 1), ?_, hb, ?_⟩
  · rw [htext, List.take_cons hpos]
  · rw [hbody]
    exact fun h => line.newline_not_mem_body (List.mem_of_mem_take h)

/-- Where a beginning of the listing ends: with a line, or within one. -/
theorem exists_take_listing (lines : List MapsLine) {n : ℕ} (hn : n ≤ (listing lines).length) :
    ∃ k ≤ lines.length, ∃ t, (listing lines).take n = listing (lines.take k) ++ t ∧
      (t = [] ∨ IsCut t) := by
  induction lines generalizing n with
  | nil => exact ⟨0, le_rfl, [], by simp [listing], .inl rfl⟩
  | cons line lines ih =>
    rw [listing_cons, List.length_append] at hn
    by_cases hwhole : line.text.length ≤ n
    · obtain ⟨k, hk, t, htake, ht⟩ := ih (Nat.sub_le_iff_le_add'.mpr hn)
      refine ⟨k + 1, Nat.succ_le_succ hk, t, ?_, ht⟩
      rw [listing_cons, List.take_append, List.take_of_length_le hwhole, htake, List.take_succ_cons,
        listing_cons, List.append_assoc]
    · rw [listing_cons, List.take_append_of_le_length (Nat.le_of_not_le hwhole)]
      refine ⟨0, Nat.zero_le _, line.text.take n, rfl, ?_⟩
      rcases Nat.eq_zero_or_pos n with rfl | hpos
      · exact .inl rfl
      · exact .inr (line.isCut_take hpos (Nat.lt_of_not_le hwhole))

theorem listing_ne_zero (lines : List MapsLine) : ∀ b ∈ listing lines, b ≠ 0 := by
  intro b hb
  obtain ⟨line, -, hb⟩ := List.mem_flatMap.mp hb
  have hzero := line.no_zero b
  have hdash : chr '-' ≠ 0 := by decide
  have hblank : blank ≠ 0 := by decide
  have hnewline : newline ≠ 0 := by decide
  simp only [MapsLine.text, MapsLine.body, MapsLine.tailText, List.mem_append, List.mem_cons,
    List.mem_replicate, List.not_mem_nil, or_false] at hb hzero
  grind

/-- Each line has a character. -/
theorem length_le_listing (lines : List MapsLine) : lines.length ≤ (listing lines).length := by
  induction lines with
  | nil => exact le_rfl
  | cons line lines ih =>
    obtain ⟨b, rest, htext, -⟩ := line.exists_head
    rw [listing_cons, List.length_append, htext, List.length_cons, List.length_cons]
    omega

/-- `flush_mem_regions` is the loop over what the call gave. -/
theorem flushMemRegions_eq (env : Env) (procMap : Word) {delivery : Delivery} {lines : List MapsLine}
    (hlen : (listing lines).length < maxProcMapsFileSz) {text : List Byte}
    (htext : (listing lines).take (delivery.size (listing lines)) = text) :
    flushMemRegions env procMap delivery (listing lines) =
      (flushLoop env procMap (text.length + 1) text).map fun out => { out with file := out.file ++ trailer } := by
  have hsize := delivery.size_le (listing lines)
  have hmin : min maxProcMapsFileSz (delivery.size (listing lines)) = delivery.size (listing lines) := by
    omega
  have hshort : text.length < maxProcMapsFileSz := by
    rw [← htext, List.length_take]
    omega
  have hzero : text.takeWhile (· ≠ 0) = text := by
    refine List.takeWhile_eq_self_iff.mpr fun b hb => decide_eq_true ?_
    rw [← htext] at hb
    exact listing_ne_zero lines b (List.mem_of_mem_take hb)
  unfold flushMemRegions
  simp only [hmin, htext, if_pos hshort, hzero]
  cases flushLoop env procMap (text.length + 1) text <;> rfl

/-- The lines that are read have the extents of the lines. -/
theorem map_extent_scanned (lines : List MapsLine) :
    (scanned lines).map (fun e => e.1.extent) = lines.map fun line => (line.region line.name).extent := by
  induction lines with
  | nil => rfl
  | cons line lines ih =>
    rw [scanned, List.map_cons, List.map_cons, ih]
    rfl

/-- A call that ends with a line is taken for the whole listing. -/
theorem not_covers_of_line_end {delivery : Delivery} {lines : List MapsLine}
    (hlen : (listing lines).length < maxProcMapsFileSz) {k : ℕ} (hk : k < lines.length)
    (hcut : delivery.size (listing lines) = (listing (lines.take k)).length)
    (hall : ∀ e ∈ scanned (lines.take k), LineRecordable env procMap e.1 e.2) :
    ¬Covers env procMap delivery lines := by
  intro hcovers
  have hsplit : listing lines = listing (lines.take k) ++ listing (lines.drop k) := by
    unfold listing
    rw [← List.flatMap_append, List.take_append_drop]
  have htake : (listing lines).take (delivery.size (listing lines)) = listing (lines.take k) := by
    rw [hcut]
    conv_lhs => rw [hsplit]
    exact List.take_left
  have hflush := flushMemRegions_eq env procMap hlen htake
  rcases flushLoop_listing env procMap (lines.take k) (Nat.lt_succ_of_le (length_le_listing _)) with
    ⟨out, hout, hlines, -⟩ | ⟨-, hnot⟩
  · rw [hout] at hflush
    rcases hcovers with ⟨fault, -, herr⟩ | ⟨out', hok, hextent⟩
    · rw [hflush] at herr
      cases herr
    · rw [hflush] at hok
      cases hok
      have hlength := congrArg List.length hextent
      rw [show out.lines = scanned (lines.take k) from hlines, map_extent_scanned] at hlength
      simp only [List.length_map, List.length_take] at hlength
      omega
  · exact hnot hall

/-- **When a checkpoint covers the listing.** -/
theorem covers_iff {delivery : Delivery} {lines : List MapsLine}
    (hlen : (listing lines).length < maxProcMapsFileSz) :
    Covers env procMap delivery lines ↔
      ¬∃ k < lines.length, delivery.size (listing lines) = (listing (lines.take k)).length ∧
        ∀ e ∈ scanned (lines.take k), LineRecordable env procMap e.1 e.2 := by
  have hsize := delivery.size_le (listing lines)
  have habort : ∀ {fault}, flushMemRegions env procMap delivery (listing lines) = .error fault →
      Covers env procMap delivery lines := by
    intro fault h
    refine .inl ⟨fault, ?_, h⟩
    rintro rfl
    exact flushMemRegions_ne_diverges env procMap delivery _ h
  constructor
  · rintro hcovers ⟨k, hk, hcut, hall⟩
    exact not_covers_of_line_end hlen hk hcut hall hcovers
  · intro hno
    obtain ⟨k, hk, t, htake, ht⟩ := exists_take_listing lines hsize
    have hflush := flushMemRegions_eq env procMap hlen htake
    rcases ht with rfl | ht
    · rw [List.append_nil] at htake hflush
      rcases flushLoop_listing env procMap (lines.take k) (Nat.lt_succ_of_le (length_le_listing _)) with
        ⟨out, hout, hlines, hall⟩ | ⟨⟨fault, herr⟩, -⟩
      · rcases Nat.lt_or_eq_of_le hk with hlt | rfl
        · refine absurd ⟨k, hlt, ?_, hall⟩ hno
          rw [← htake, List.length_take, Nat.min_eq_left hsize]
        · rw [hout] at hflush
          refine .inr ⟨_, hflush, ?_⟩
          rw [show out.lines = scanned (lines.take lines.length) from hlines, List.take_length,
            map_extent_scanned]
      · rw [herr] at hflush
        exact habort hflush
    · obtain ⟨fault, herr⟩ := flushLoop_cut env procMap (lines.take k) ht
        ((listing (lines.take k) ++ t).length + 1)
      rw [herr] at hflush
      exact habort hflush

/-! A listing of two lines. -/

/-- `08048000-08049000 r-xp 00000000 03:01 4711 /bin/true`. -/
def trueLine : MapsLine :=
  .ofTexts "08048000" "08049000" "r-xp" "00000000" "03:01" "4711" "/bin/true" (by decide +kernel)

/-- `bffeb000-c0000000 rw-p 00000000 00:00 0 [stack]`. -/
def stackLine : MapsLine :=
  .ofTexts "bffeb000" "c0000000" "rw-p" "00000000" "00:00" "0" "[stack]" (by decide +kernel)

/-- A call returns at most `n + 1` bytes. -/
def chunks (n : ℕ) : Delivery where
  size rest := min rest.length (n + 1)
  size_le rest := Nat.min_le_left _ _
  size_pos rest h := by
    have := List.length_pos_iff.mpr h
    omega

/-- A call that ends within the second line. -/
theorem covers_iff_within_line :
    (listing [trueLine, stackLine]).length < maxProcMapsFileSz ∧
      Covers someEnv 0x70000000 (chunks 59) [trueLine, stackLine] := by
  have hlen : (listing [trueLine, stackLine]).length < maxProcMapsFileSz := by decide
  refine ⟨hlen, (covers_iff hlen).mpr ?_⟩
  rintro ⟨k, hk, hcut, -⟩
  have hnone : ∀ k < 2, (chunks 59).size (listing [trueLine, stackLine]) ≠
      (listing ([trueLine, stackLine].take k)).length := by decide
  exact hnone k hk hcut

/-- The call ends with the first line: the checkpoint has no stack. -/
theorem second_line_not_covered :
    (listing [trueLine, stackLine]).length < maxProcMapsFileSz ∧
      ¬Covers someEnv 0x70000000 (chunks 52) [trueLine, stackLine] := by
  have hlen : (listing [trueLine, stackLine]).length < maxProcMapsFileSz := by decide
  refine ⟨hlen, not_covers_of_line_end hlen (show 1 < 2 by decide) (by decide) ?_⟩
  have hscanned : scanned [trueLine] = [(trueLine.region trueLine.name, trueLine.name)] := rfl
  show ∀ e ∈ scanned [trueLine], _
  rw [hscanned]
  intro e he
  obtain rfl := List.mem_singleton.mp he
  exact ⟨fun h => absurd h (by decide), by decide⟩

/-! ### The file -/

/-- A name with its size. -/
def Named (e : MemRegion × List Byte) : Prop :=
  (∀ b ∈ e.2, b ≠ 0) ∧ e.1.fnSz.toNat = e.2.length + 1

theorem named_entriesOf {region : MemRegion} {fn : List Byte} (h : Named (region, fn)) :
    ∀ e ∈ entriesOf procMap region fn, Named e := by
  intro e he
  obtain ⟨r, hr, rfl⟩ := List.mem_map.mp he
  have hfnSz : r.fnSz = region.fnSz := by
    unfold parts at hr
    split_ifs at hr <;> simp at hr <;> grind
  exact ⟨h.1, by rw [hfnSz]; exact h.2⟩

/-- What the loop writes are the records of what it appends, each with a name of C. -/
theorem flushLoop_writes {fuel : ℕ} {text : List Byte} {out : Flushed}
    (h : flushLoop env procMap fuel text = .ok out) (hzero : ∀ b ∈ text, b ≠ 0)
    (hlen : text.length < maxProcMapsFileSz) :
    appendRegions env out.appended = .ok out.file ∧ ∀ e ∈ out.appended, Named e := by
  induction fuel generalizing text out with
  | zero => cases h
  | succ fuel ih =>
    rw [flushLoop] at h
    obtain ⟨parsed, hread, h⟩ := bind_eq_ok.mp h
    cases parsed with
    | none =>
      cases h
      exact ⟨rfl, fun e he => absurd he List.not_mem_nil⟩
    | some p =>
      obtain ⟨bytes, hbytes, h⟩ := bind_eq_ok.mp h
      obtain ⟨rest, hrest, h⟩ := bind_eq_ok.mp h
      cases h
      obtain ⟨hfnSz, hfn, hsub, -⟩ := readProcmemLine_some hread
      obtain ⟨hwrites, hnamed⟩ := ih hrest (fun b hb => hzero b (hsub.subset hb))
        (lt_of_le_of_lt hsub.length_le hlen)
      refine ⟨appendRegions_append (lineRecordable_of_ok hbytes).2 hwrites, ?_⟩
      have hname : Named (p.region, p.fn) := by
        refine ⟨fun b hb => hzero b (hfn.subset hb), ?_⟩
        have hlt : p.fn.length + 1 < 2 ^ 32 := by
          have hle := hfn.length_le
          unfold maxProcMapsFileSz at hlen
          omega
        rw [hfnSz, toNat_ofNat_of_lt hlt]
      intro e he
      exact (List.mem_append.mp he).elim (named_entriesOf hname e) (hnamed e)

/-- A region of whole pages that is not empty. -/
def WholePages (region : MemRegion) : Prop :=
  region.start % pageSize = 0 ∧ region.endAddr % pageSize = 0 ∧ region.start < region.endAddr

theorem exists_entries {appended : List (MemRegion × List Byte)} (hnamed : ∀ e ∈ appended, Named e)
    (hpages : ∀ e ∈ appended, WholePages e.1) :
    ∃ entries : List Entry, (entries.map fun e => (e.region, e.fn)) = appended := by
  induction appended with
  | nil => exact ⟨[], rfl⟩
  | cons e appended ih =>
    obtain ⟨hname, hnamed⟩ := List.forall_mem_cons.mp hnamed
    obtain ⟨⟨hstart, hend, hne⟩, hpages⟩ := List.forall_mem_cons.mp hpages
    obtain ⟨entries, hmap⟩ := ih hnamed hpages
    exact ⟨⟨e.1, e.2, hname.1, hname.2, hstart, hend, hne⟩ :: entries, congrArg (e :: ·) hmap⟩

/-- **What `flush_mem_regions` writes is the file of `Framing`**, of the regions it appends. -/
theorem flush_writes {delivery : Delivery} {maps : List Byte} {out : Flushed}
    (h : flushMemRegions env procMap delivery maps = .ok out)
    (hpages : ∀ e ∈ out.appended, WholePages e.1) :
    ∃ entries : List Entry, (entries.map fun e => (e.region, e.fn)) = out.appended ∧
      writeRegions env entries = .ok out.file := by
  unfold flushMemRegions at h
  dsimp only at h
  split_ifs at h with hshort
  obtain ⟨loop, hloop, h⟩ := bind_eq_ok.mp h
  cases h
  have hzero : ∀ b ∈ List.takeWhile (· ≠ 0) (maps.take (min maxProcMapsFileSz (delivery.size maps))),
      b ≠ 0 := fun b hb => by simpa using List.mem_takeWhile_imp hb
  obtain ⟨hwrites, hnamed⟩ := flushLoop_writes hloop hzero
    (lt_of_le_of_lt (List.takeWhile_sublist _).length_le hshort)
  obtain ⟨entries, hmap⟩ := exists_entries hnamed hpages
  refine ⟨entries, hmap, ?_⟩
  unfold writeRegions
  rw [hmap, hwrites]
  rfl

end

end Snitchaser.Checkpoint
