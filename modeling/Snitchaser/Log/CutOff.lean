import Mathlib.Data.List.Infix
import Snitchaser.Foundation.CutOff
import Snitchaser.Log.ReplayLog

/-!
# A log that was cut off

The recorder may be killed at any time, and the file system may lose the end of what it wrote. So
a log can end in a mark, in a tag, in a size or in the data of a region. `read_from_file` takes all
of these for the end of the log.

`cut_off_loses_tail`: where `uncompress_log` ends normally on a file, it ends normally on every
file that the first one begins with, and what it writes is what it writes for the first one,
up to a point.
-/

namespace Snitchaser.Log

open Foundation

/-- The second reader reads the beginning of what the first one reads. -/
def CutOff (r r' : Reader) : Prop := r'.file <+: r.file ∧ r'.region = r.region

section Cut

variable (lzo : Lzo)

/-- What is not there is the end. -/
theorem stopsAtCut_readFromFile (sz : ℕ) : StopsAtCut CutOff fileIsEnd (readFromFile sz) := by
  rintro ⟨file, region⟩ ⟨file', region'⟩ ⟨⟨rest, hfile⟩, hregion⟩
  dsimp only at hfile hregion
  subst hfile hregion
  by_cases h : sz ≤ file'.length
  · have hall : sz ≤ (file' ++ rest).length := by
      rw [List.length_append]
      omega
    have hread : (readFromFile sz).run ⟨file' ++ rest, region'⟩ =
        .ok (file'.take sz) ⟨file'.drop sz ++ rest, region'⟩ := by
      refine (if_pos hall).trans ?_
      rw [List.take_append_of_le_length h, List.drop_append_of_le_length h]
    exact .inr (.inr ⟨_, _, _, hread, if_pos h, List.prefix_append _ _, rfl⟩)
  · exact .inl ⟨_, if_neg h⟩

theorem stopsAtCut_setRegion (region : List Byte) : StopsAtCut CutOff fileIsEnd (setRegion region) :=
  fun _ _ h => .inr (.inr ⟨(), _, _, rfl, rfl, h.1, rfl⟩)

theorem stopsAtCut_readSize : StopsAtCut CutOff fileIsEnd readSize :=
  (stopsAtCut_readFromFile 4).bind fun _ => stopsAtCut_pure _

/-- **A region is read as it is, or it is the end of the log.** -/
theorem stopsAtCut_nextRegion : StopsAtCut CutOff fileIsEnd (nextRegion lzo) := by
  unfold nextRegion
  refine (stopsAtCut_setRegion []).bind fun _ => (stopsAtCut_readFromFile 1).bind fun mark => ?_
  refine .ite ?_ (.ite ?_ (stopsAtCut_throw _))
  · refine stopsAtCut_readSize.bind fun realSz => stopsAtCut_readSize.bind fun compressedSz => ?_
    refine (stopsAtCut_readFromFile compressedSz).bind fun compressed => ?_
    exact .ite (stopsAtCut_throw _) (stopsAtCut_setRegion _)
  · refine stopsAtCut_readSize.bind fun size => ?_
    exact (stopsAtCut_readFromFile size).bind fun data => stopsAtCut_setRegion data

theorem stopsAtCut_readLog (size : ℕ) : StopsAtCut CutOff fileIsEnd (readLog lzo size) := by
  rintro ⟨file, region⟩ ⟨file', region'⟩ ⟨hfile, hregion⟩
  dsimp only at hfile hregion
  subst hregion
  have hcut : CutOff ⟨file, region'⟩ ⟨file', region'⟩ := ⟨hfile, rfl⟩
  by_cases hle : size ≤ region'.length
  · exact .inr (.inr ⟨_, _, _, if_pos hle, if_pos hle, hfile, rfl⟩)
  · by_cases hne : region' ≠ []
    · have hread : ∀ file, (readLog lzo size).run ⟨file, region'⟩ = .ok region' ⟨file, []⟩ := fun file =>
        run_readLog_of_lt lzo (not_le.mp hle) hne
      exact .inr (.inr ⟨_, _, _, hread _, hread _, hfile, rfl⟩)
    · have hread : ∀ file, (readLog lzo size).run ⟨file, region'⟩ =
          (nextRegion lzo *> pure []).run ⟨file, region'⟩ := fun file =>
        (if_neg hle).trans (if_neg hne)
      rw [hread, hread, seqRight_eq_bind]
      exact (stopsAtCut_nextRegion lzo).bind (fun _ => stopsAtCut_pure _) _ _ hcut

end Cut

/-! ### `uncompress_log` -/

section Loop

variable {lzo : Lzo}

/-- What was written stays written. -/
theorem isPrefix_uncompressLoop {fuel : ℕ} {r : Reader} {out out' : List Byte} {e : Stop}
    (h : uncompressLoop lzo fuel r out = some (e, out')) : out <+: out' := by
  induction fuel generalizing r out with
  | zero => cases h
  | succ fuel ih =>
    rw [uncompressLoop] at h
    cases hread : (readLog lzo bufferSz).run r with
    | ok data s =>
      rw [hread] at h
      exact (List.prefix_append _ _).trans (ih h)
    | error e' s =>
      rw [hread] at h
      cases h
      exact List.prefix_rfl

theorem uncompressLoop_error {r s : Reader} {e : Stop} (h : (readLog lzo bufferSz).run r = .error e s)
    (fuel : ℕ) (out : List Byte) : uncompressLoop lzo (fuel + 1) r out = some (e, out) := by
  rw [uncompressLoop, h]

/-- **The loop comes to the end of a log that was cut off**, and by then it has written what it
writes for the whole log, up to a point. -/
theorem uncompressLoop_cutOff {fuel : ℕ} {r r' : Reader} {out total : List Byte} {msg : String}
    (h : uncompressLoop lzo fuel r out = some (.throw .logEnd msg, total)) (hcut : CutOff r r') :
    ∃ n msg' out', out' <+: total ∧
      ∀ fuel' ≥ n, uncompressLoop lzo fuel' r' out = some (.throw .logEnd msg', out') := by
  -- by induction on the rounds for the whole log
  induction fuel generalizing r r' out with
  | zero => cases h
  | succ fuel ih =>
    have hout := isPrefix_uncompressLoop h
    have hstop : ∀ {s' : Reader} {msg' : String},
        (readLog lzo bufferSz).run r' = .error (.throw .logEnd msg') s' →
        ∃ n msg' out', out' <+: total ∧
          ∀ fuel' ≥ n, uncompressLoop lzo fuel' r' out = some (.throw .logEnd msg', out') := by
      intro s' msg' hread
      refine ⟨1, msg', out, hout, fun fuel' hfuel' => ?_⟩
      obtain ⟨k, rfl⟩ := Nat.exists_eq_add_of_le' hfuel'
      exact uncompressLoop_error hread k out
    rcases stopsAtCut_readLog lzo bufferSz r r' hcut with
      ⟨s', hread⟩ | ⟨e, s, s', hread, hread'⟩ | ⟨data, s, s', hread, hread', hcut'⟩
    · exact hstop hread
    · rw [uncompressLoop_error hread] at h
      cases h
      exact hstop hread'
    · rw [uncompressLoop_ok lzo hread] at h
      obtain ⟨n, msg', out', hpre, hn⟩ := ih h hcut'
      refine ⟨n + 1, msg', out', hpre, fun fuel' hfuel' => ?_⟩
      obtain ⟨k, rfl⟩ := Nat.exists_eq_add_of_le' hfuel'
      rw [← Nat.add_assoc, uncompressLoop_ok lzo hread']
      exact hn _ (Nat.le_add_left _ _)

end Loop

theorem uncompressLog_eq_ok_iff {lzo : Lzo} {fuel : ℕ} {file out : List Byte} :
    uncompressLog lzo fuel file = some (.ok out) ↔
      ∃ msg, uncompressLoop lzo fuel (openLog file) [] = some (.throw .logEnd msg, out) := by
  unfold uncompressLog
  constructor
  · intro h
    split at h
    · cases h
    · rename_i msg out' hloop
      cases h
      exact ⟨msg, hloop⟩
    · cases h
  · rintro ⟨msg, hloop⟩
    rw [hloop]

/-- **A cut-off log loses only its tail**: on every file that a log begins with, `uncompress_log`
ends normally, and its output is one that the output for the log begins with. -/
theorem cut_off_loses_tail {lzo : Lzo} {file file' out : List Byte} {fuel : ℕ} (hcut : file' <+: file)
    (h : uncompressLog lzo fuel file = some (.ok out)) :
    ∃ out', out' <+: out ∧ ∃ n, ∀ fuel' ≥ n, uncompressLog lzo fuel' file' = some (.ok out') := by
  obtain ⟨msg, hloop⟩ := uncompressLog_eq_ok_iff.mp h
  have hopen : CutOff (openLog file) (openLog file') := ⟨hcut, rfl⟩
  obtain ⟨n, msg', out', hpre, hn⟩ := uncompressLoop_cutOff hloop hopen
  exact ⟨out', hpre, n, fun fuel' hfuel' => uncompressLog_eq_ok_iff.mpr ⟨msg', hn fuel' hfuel'⟩⟩

/-- Three bytes as they are, and two compressed ones. -/
def threeAndTwo : List Byte :=
  encodeRegions endMarked [.uncompressed [1, 2, 3], .compressed [[4, 5]]]

/-- The second region is cut off in its data. -/
theorem cut_off_loses_tail_threeAndTwo :
    threeAndTwo.take 19 <+: threeAndTwo ∧
      uncompressLog endMarked 5 threeAndTwo = some (.ok [1, 2, 3, 4, 5]) ∧
      ∃ out', out' <+: [1, 2, 3, 4, 5] ∧
        ∃ n, ∀ fuel' ≥ n, uncompressLog endMarked fuel' (threeAndTwo.take 19) = some (.ok out') :=
  have hcut := List.take_prefix 19 threeAndTwo
  have hall : uncompressLog endMarked 5 threeAndTwo = some (.ok [1, 2, 3, 4, 5]) := by rfl
  ⟨hcut, hall, cut_off_loses_tail hcut hall⟩

end Snitchaser.Log
