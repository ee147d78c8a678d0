import Snitchaser.Checkpoint.Framing
import Snitchaser.Foundation.Loops

/-!
# Validation of a checkpoint

`check_ckpt` is what stands between a file and the host's other walks through it. It follows
`next_region` by sizes that come from the file.

## The model

The loop of `Framing`, with every look at the file as the code takes it: `r->start` before
the boundary, `r->end`, and only then `fn_sz` and `*region_p_real_sz(r)`. A pointer is its
distance from the file's first byte in 32 bits, so that sums wrap as they do in memory. A
look that is not at bytes of the file is a fault. The test against the boundary comes behind
such a look, and never strikes.

## What is proved

`validates_iff`: `check_ckpt` comes to an end, looks at nothing outside, and accepts only
records inside of the file, **exactly when** the file has one of three layouts: no mark at its
end; records that lie in the file with their data, and the end mark behind them (`Sound`); or
records that lead, forth or back, to one with an empty region (`Corrupted`). What is lost by
`next_region` is not found out: a negative size brings the walk back to where it was, and a
large one out of the file. `accepted_of_checkCkpt` is the step from the model of `Framing`,
whose positions do not wrap.
-/

namespace Snitchaser.Checkpoint

open Foundation

/-- How `check_ckpt` ends. -/
inductive Verdict where
  | accepted
  /-- `THROW_FATAL(EXP_WRONG_CKPT, ..)`. -/
  | refused (msg : String)
  deriving DecidableEq, Repr

/-- `r->fn_sz` and `*region_p_real_sz(r)`. -/
def sizesAt (file : List Byte) (p : Word) : Except CkptStop (Word × Word) := do
  let fnSz ← wordAt file (p + 20).toNat
  let realSz ← wordAt file (p + 24 + fnSz).toNat
  .ok (fnSz, realSz)

/-- The body of the loop of `check_ckpt`. -/
def checkStep (file : List Byte) (p : Word) : Except CkptStop (Verdict ⊕ Word) := do
  let start ← wordAt file p.toNat
  if start = memRegionsEndMark then .ok (.inl .accepted)
  else if file.length ≤ p.toNat then .ok (.inl (.refused "checkpoint corrupted: out of boundry"))
  else do
    let endAddr ← wordAt file (p + 4).toNat
    if endAddr ≤ start then .ok (.inl (.refused "checkpoint corrupted: data corrupted"))
    else do
      let sizes ← sizesAt file p
      .ok (.inr (p + 24 + sizes.1 + 4 + sizes.2))

/-- `check_ckpt`, with the places it comes to. -/
def checkCkptRun (headSz : ℕ) (file : List Byte) (fuel : ℕ) : Except CkptStop (List Word × Verdict) := do
  let mark ← wordAt file ((file.length : ℤ) - 4)
  if mark ≠ ckptEndMark then .ok ([], .refused "checkpoint corrupted: no end mark")
  else Loop.run (checkStep file) .diverges fuel (BitVec.ofNat 32 headSz)

/-- A record lies in the file, its data included. -/
def RecordInside (file : List Byte) (p : Word) : Prop :=
  match sizesAt file p with
  | .ok (fnSz, realSz) => 0 ≤ realSz.toInt ∧ p.toNat + 28 + fnSz.toNat + realSz.toNat ≤ file.length
  | .error _ => False

instance (file : List Byte) (p : Word) : Decidable (RecordInside file p) := by
  unfold RecordInside
  split <;> infer_instance

/-- **Validation is total and sound**: it comes to an end, with no look out of the file, and
the records on the way to an end mark that it accepts lie in the file. -/
def Validates (headSz : ℕ) (file : List Byte) : Prop :=
  (∃ fuel out, checkCkptRun headSz file fuel = .ok out) ∧
    ∀ fuel l, checkCkptRun headSz file fuel = .ok (l, .accepted) → ∀ p ∈ l.dropLast, RecordInside file p

/-! ### The layout of a file -/

/-- The word at `p`. -/
def fileWord (file : List Byte) (p : Word) : Word := leWord (file.drop p.toNat)

/-- The four bytes at `p` are in the file. -/
def WordIn (file : List Byte) (p : Word) : Prop := p.toNat + 4 ≤ file.length

/-- Where the size of the data is: behind a header at `p` and the name. -/
def realSzAt (file : List Byte) (p : Word) : Word := p + 24 + fileWord file (p + 20)

/-- The place behind a record and its data. -/
def behindRecord (file : List Byte) (p : Word) : Word :=
  realSzAt file p + 4 + fileWord file (realSzAt file p)

/-- A record begins at `p`: the words that are looked at are in the file, and its region is not
empty. -/
structure RecordAt (file : List Byte) (p : Word) : Prop where
  start_in : WordIn file p
  no_mark : fileWord file p ≠ memRegionsEndMark
  end_in : WordIn file (p + 4)
  start_lt_end : fileWord file p < fileWord file (p + 4)
  fnSz_in : WordIn file (p + 20)
  realSz_in : WordIn file (realSzAt file p)

/-- The data of the record at `p` is in the file. -/
def DataIn (file : List Byte) (p : Word) : Prop :=
  0 ≤ (fileWord file (realSzAt file p)).toInt ∧
    p.toNat + 28 + (fileWord file (p + 20)).toNat + (fileWord file (realSzAt file p)).toNat ≤ file.length

/-- **From `p` on there are records inside of the file, and the end mark behind them.** -/
inductive Sound (file : List Byte) : Word → Prop where
  | endMark {p : Word} : WordIn file p → fileWord file p = memRegionsEndMark → Sound file p
  | record {p : Word} : RecordAt file p → DataIn file p → Sound file (behindRecord file p) → Sound file p

/-- **From `p` on there are records up to one with an empty region.** Their data may lie anywhere:
a negative size leads back. -/
inductive Corrupted (file : List Byte) : Word → Prop where
  | empty {p : Word} : WordIn file p → fileWord file p ≠ memRegionsEndMark → WordIn file (p + 4) →
      fileWord file (p + 4) ≤ fileWord file p → Corrupted file p
  | record {p : Word} : RecordAt file p → Corrupted file (behindRecord file p) → Corrupted file p

/-- **The layouts that are validated.** -/
def Layout (headSz : ℕ) (file : List Byte) : Prop :=
  4 ≤ file.length ∧ (leWord (file.drop (file.length - 4)) ≠ ckptEndMark ∨
    Sound file (BitVec.ofNat 32 headSz) ∨ Corrupted file (BitVec.ofNat 32 headSz))

section

variable {headSz : ℕ} {file : List Byte}

/-- A word that is read lies in the file. -/
theorem lt_length_of_wordAt {n : ℕ} {w : Word} (h : wordAt file n = .ok w) : n + 4 ≤ file.length := by
  obtain ⟨bytes, hbytes, -⟩ := bind_eq_ok.mp h
  unfold bytesAt at hbytes
  split_ifs at hbytes with hin
  exact hin.2

/-- A round begins in the file. -/
theorem lt_length_of_checkStep {p : Word} {r : Verdict ⊕ Word} (h : checkStep file p = .ok r) :
    p.toNat < file.length := by
  obtain ⟨start, hstart, -⟩ := bind_eq_ok.mp h
  have := lt_length_of_wordAt hstart
  omega

/-- **More rounds than the file has bytes make no difference.** -/
theorem checkCkptRun_length {fuel : ℕ} {out : List Word × Verdict}
    (h : checkCkptRun headSz file fuel = .ok out) : checkCkptRun headSz file file.length = .ok out := by
  obtain ⟨mark, hmark, h⟩ := bind_eq_ok.mp h
  refine bind_eq_ok.mpr ⟨mark, hmark, ?_⟩
  split_ifs at h ⊢ with hend
  · exact h
  · have htrace := (Loop.run_eq_ok_iff.mp h).1
    exact (Loop.run_eq_ok_iff_trace (fun _ _ => BitVec.eq_of_toNat_eq)
      fun p r => lt_length_of_checkStep).mpr htrace

/-! ### What is looked at -/

/-- A word is that of its first four bytes. -/
theorem leWord_take {n : ℕ} (hn : 4 ≤ n) (bytes : List Byte) : leWord (bytes.take n) = leWord bytes := by
  have hget : ∀ i < 4, (bytes.take n).getD i 0 = bytes.getD i 0 := by
    intro i hi
    rw [List.getD_eq_getElem?_getD, List.getD_eq_getElem?_getD, List.getElem?_take_of_lt (by omega)]
  unfold leWord
  rw [hget 0 (by decide), hget 1 (by decide), hget 2 (by decide), hget 3 (by decide)]

theorem wordAt_eq_ok_iff {n : ℕ} {w : Word} :
    wordAt file n = .ok w ↔ n + 4 ≤ file.length ∧ w = leWord (file.drop n) := by
  unfold wordAt bytesAt
  rw [Int.toNat_natCast]
  constructor
  · intro h
    obtain ⟨bytes, hbytes, h⟩ := bind_eq_ok.mp h
    split_ifs at hbytes with hin
    cases hbytes
    cases h
    exact ⟨hin.2, leWord_take le_rfl _⟩
  · rintro ⟨hin, rfl⟩
    rw [if_pos ⟨Int.natCast_nonneg n, hin⟩, ← leWord_take le_rfl]
    rfl

theorem wordAt_toNat_iff {p w : Word} :
    wordAt file p.toNat = .ok w ↔ WordIn file p ∧ w = fileWord file p := wordAt_eq_ok_iff

theorem sizesAt_eq_ok_iff {p : Word} {sizes : Word × Word} :
    sizesAt file p = .ok sizes ↔ WordIn file (p + 20) ∧ WordIn file (realSzAt file p) ∧
      sizes = (fileWord file (p + 20), fileWord file (realSzAt file p)) := by
  constructor
  · intro h
    obtain ⟨fnSz, hfnSz, h⟩ := bind_eq_ok.mp h
    obtain ⟨realSz, hreal, h⟩ := bind_eq_ok.mp h
    obtain ⟨hfn, rfl⟩ := wordAt_toNat_iff.mp hfnSz
    obtain ⟨hsz, rfl⟩ := wordAt_toNat_iff.mp hreal
    cases h
    exact ⟨hfn, hsz, rfl⟩
  · rintro ⟨hfn, hsz, rfl⟩
    exact bind_eq_ok.mpr ⟨_, wordAt_toNat_iff.mpr ⟨hfn, rfl⟩,
      bind_eq_ok.mpr ⟨_, wordAt_toNat_iff.mpr ⟨hsz, rfl⟩, rfl⟩⟩

theorem RecordAt.recordInside_iff {p : Word} (h : RecordAt file p) : RecordInside file p ↔ DataIn file p := by
  unfold RecordInside
  rw [sizesAt_eq_ok_iff.mpr ⟨h.fnSz_in, h.realSz_in, rfl⟩]
  rfl

/-- **A round**: the end mark, an empty region, or a record; the boundary is never reached. -/
theorem checkStep_eq_ok_iff {p : Word} {r : Verdict ⊕ Word} :
    checkStep file p = .ok r ↔
      (WordIn file p ∧ fileWord file p = memRegionsEndMark ∧ r = .inl .accepted) ∨
      (WordIn file p ∧ fileWord file p ≠ memRegionsEndMark ∧ WordIn file (p + 4) ∧
        fileWord file (p + 4) ≤ fileWord file p ∧
        r = .inl (.refused "checkpoint corrupted: data corrupted")) ∨
      (RecordAt file p ∧ r = .inr (behindRecord file p)) := by
  constructor
  · intro h
    obtain ⟨start, hstart, h⟩ := bind_eq_ok.mp h
    obtain ⟨hin, rfl⟩ := wordAt_toNat_iff.mp hstart
    split_ifs at h with hmark hbound
    · cases h
      exact .inl ⟨hin, hmark, rfl⟩
    · unfold WordIn at hin
      omega
    · obtain ⟨endAddr, hend, h⟩ := bind_eq_ok.mp h
      obtain ⟨hin', rfl⟩ := wordAt_toNat_iff.mp hend
      split_ifs at h with hle
      · cases h
        exact .inr (.inl ⟨hin, hmark, hin', hle, rfl⟩)
      · obtain ⟨sizes, hsizes, h⟩ := bind_eq_ok.mp h
        obtain ⟨hfn, hsz, rfl⟩ := sizesAt_eq_ok_iff.mp hsizes
        cases h
        exact .inr (.inr ⟨⟨hin, hmark, hin', BitVec.not_le.mp hle, hfn, hsz⟩, rfl⟩)
  · have hbound : WordIn file p → ¬ file.length ≤ p.toNat := fun hin => by
      unfold WordIn at hin
      omega
    rintro (⟨hin, hmark, rfl⟩ | ⟨hin, hmark, hin', hle, rfl⟩ | ⟨h, rfl⟩)
    · refine bind_eq_ok.mpr ⟨_, wordAt_toNat_iff.mpr ⟨hin, rfl⟩, ?_⟩
      rw [if_pos hmark]
    · refine bind_eq_ok.mpr ⟨_, wordAt_toNat_iff.mpr ⟨hin, rfl⟩, ?_⟩
      rw [if_neg hmark, if_neg (hbound hin)]
      refine bind_eq_ok.mpr ⟨_, wordAt_toNat_iff.mpr ⟨hin', rfl⟩, ?_⟩
      rw [if_pos hle]
    · refine bind_eq_ok.mpr ⟨_, wordAt_toNat_iff.mpr ⟨h.start_in, rfl⟩, ?_⟩
      rw [if_neg h.no_mark, if_neg (hbound h.start_in)]
      refine bind_eq_ok.mpr ⟨_, wordAt_toNat_iff.mpr ⟨h.end_in, rfl⟩, ?_⟩
      rw [if_neg (BitVec.not_le.mpr h.start_lt_end)]
      exact bind_eq_ok.mpr ⟨_, sizesAt_eq_ok_iff.mpr ⟨h.fnSz_in, h.realSz_in, rfl⟩, rfl⟩

theorem checkStep_record {p q : Word} (h : checkStep file p = .ok (.inr q)) :
    RecordAt file p ∧ q = behindRecord file p := by
  rcases checkStep_eq_ok_iff.mp h with ⟨-, -, hr⟩ | ⟨-, -, -, -, hr⟩ | ⟨hrecord, hr⟩
  · cases hr
  · cases hr
  · exact ⟨hrecord, Sum.inr.inj hr⟩

/-! ### Walks and layouts -/

theorem trace_ne_nil {p : Word} {l : List Word} {v : Verdict} (h : Loop.Trace (checkStep file) p l v) :
    l ≠ [] := by
  cases h <;> exact List.cons_ne_nil _ _

/-- A walk to the end mark, with all records inside. -/
theorem sound_iff {p : Word} :
    Sound file p ↔ ∃ l, Loop.Trace (checkStep file) p l .accepted ∧ ∀ q ∈ l.dropLast, RecordInside file q := by
  constructor
  · intro h
    induction h with
    | endMark hin hmark =>
      refine ⟨_, .stop (checkStep_eq_ok_iff.mpr (.inl ⟨hin, hmark, rfl⟩)), ?_⟩
      simp
    | record hrecord hdata _ ih =>
      obtain ⟨l, hl, hinside⟩ := ih
      refine ⟨_, .next (checkStep_eq_ok_iff.mpr (.inr (.inr ⟨hrecord, rfl⟩))) hl, ?_⟩
      rw [List.dropLast_cons_of_ne_nil (trace_ne_nil hl), List.forall_mem_cons]
      exact ⟨hrecord.recordInside_iff.mpr hdata, hinside⟩
  · rintro ⟨l, hl, hinside⟩
    generalize hv : Verdict.accepted = v at hl
    induction hl with
    | stop hstep =>
      subst hv
      rcases checkStep_eq_ok_iff.mp hstep with ⟨hin, hmark, -⟩ | ⟨-, -, -, -, hr⟩ | ⟨-, hr⟩
      · exact .endMark hin hmark
      · cases hr
      · cases hr
    | next hstep hl ih =>
      obtain ⟨hrecord, rfl⟩ := checkStep_record hstep
      rw [List.dropLast_cons_of_ne_nil (trace_ne_nil hl), List.forall_mem_cons] at hinside
      exact .record hrecord (hrecord.recordInside_iff.mp hinside.1) (ih hinside.2 hv)

/-- A walk to a record that is refused. -/
theorem corrupted_iff {p : Word} :
    Corrupted file p ↔ ∃ l msg, Loop.Trace (checkStep file) p l (.refused msg) := by
  constructor
  · intro h
    induction h with
    | empty hin hmark hin' hle =>
      exact ⟨_, _, .stop (checkStep_eq_ok_iff.mpr (.inr (.inl ⟨hin, hmark, hin', hle, rfl⟩)))⟩
    | record hrecord _ ih =>
      obtain ⟨l, msg, hl⟩ := ih
      exact ⟨_, msg, .next (checkStep_eq_ok_iff.mpr (.inr (.inr ⟨hrecord, rfl⟩))) hl⟩
  · rintro ⟨l, msg, hl⟩
    generalize hv : Verdict.refused msg = v at hl
    induction hl with
    | stop hstep =>
      subst hv
      rcases checkStep_eq_ok_iff.mp hstep with ⟨-, -, hr⟩ | ⟨hin, hmark, hin', hle, -⟩ | ⟨-, hr⟩
      · cases hr
      · exact .empty hin hmark hin' hle
      · cases hr
    | next hstep _ ih =>
      obtain ⟨hrecord, rfl⟩ := checkStep_record hstep
      exact .record hrecord (ih hv)

/-- A run that comes to its end: there is no mark at the end of the file, or a walk. -/
theorem checkCkptRun_eq_ok_iff {fuel : ℕ} {l : List Word} {v : Verdict} :
    checkCkptRun headSz file fuel = .ok (l, v) ↔ 4 ≤ file.length ∧
      ((leWord (file.drop (file.length - 4)) ≠ ckptEndMark ∧ l = [] ∧
          v = .refused "checkpoint corrupted: no end mark") ∨
        (leWord (file.drop (file.length - 4)) = ckptEndMark ∧
          Loop.Trace (checkStep file) (BitVec.ofNat 32 headSz) l v ∧ l.length ≤ fuel)) := by
  have hmark : ∀ w, wordAt file ((file.length : ℤ) - 4) = .ok w ↔
      4 ≤ file.length ∧ w = leWord (file.drop (file.length - 4)) := by
    intro w
    by_cases hlen : 4 ≤ file.length
    · rw [show (file.length : ℤ) - 4 = (file.length - 4 : ℕ) by omega, wordAt_eq_ok_iff]
      exact and_congr_left fun _ => iff_of_true (by omega) hlen
    · refine iff_of_false (fun h => ?_) fun h => hlen h.1
      obtain ⟨bytes, hbytes, -⟩ := bind_eq_ok.mp h
      unfold bytesAt at hbytes
      rw [if_neg (by omega)] at hbytes
      cases hbytes
  constructor
  · intro h
    obtain ⟨mark, hword, h⟩ := bind_eq_ok.mp h
    obtain ⟨hlen, rfl⟩ := (hmark mark).mp hword
    split_ifs at h with hend
    · cases h
      exact ⟨hlen, .inl ⟨hend, rfl, rfl⟩⟩
    · exact ⟨hlen, .inr ⟨not_not.mp hend, Loop.run_eq_ok_iff.mp h⟩⟩
  · rintro ⟨hlen, h⟩
    refine bind_eq_ok.mpr ⟨_, (hmark _).mpr ⟨hlen, rfl⟩, ?_⟩
    rcases h with ⟨hend, rfl, rfl⟩ | ⟨hend, htrace⟩
    · rw [if_pos hend]
    · rw [if_neg (not_not.mpr hend)]
      exact Loop.run_eq_ok_iff.mpr htrace

theorem validates_of_no_mark (hlen : 4 ≤ file.length)
    (hend : leWord (file.drop (file.length - 4)) ≠ ckptEndMark) : Validates headSz file := by
  refine ⟨⟨0, _, checkCkptRun_eq_ok_iff.mpr ⟨hlen, .inl ⟨hend, rfl, rfl⟩⟩⟩, fun fuel l h => ?_⟩
  obtain ⟨-, ⟨-, -, hv⟩ | ⟨hend', -⟩⟩ := checkCkptRun_eq_ok_iff.mp h
  · cases hv
  · exact absurd hend' hend

theorem validates_of_trace (hlen : 4 ≤ file.length)
    (hend : leWord (file.drop (file.length - 4)) = ckptEndMark) {l : List Word} {v : Verdict}
    (htrace : Loop.Trace (checkStep file) (BitVec.ofNat 32 headSz) l v)
    (hinside : v = .accepted → ∀ q ∈ l.dropLast, RecordInside file q) : Validates headSz file := by
  refine ⟨⟨l.length, _, checkCkptRun_eq_ok_iff.mpr ⟨hlen, .inr ⟨hend, htrace, le_rfl⟩⟩⟩,
    fun fuel l' h => ?_⟩
  obtain ⟨-, ⟨hend', -⟩ | ⟨-, htrace', -⟩⟩ := checkCkptRun_eq_ok_iff.mp h
  · exact absurd hend hend'
  · obtain ⟨rfl, hv⟩ := htrace.unique htrace'
    exact hinside hv

/-! ### Positions that do not wrap -/

/-- A word of some bytes that are read. -/
theorem wordAt_of_bytesAt {n m k : ℕ} {bytes : List Byte} (h : bytesAt file n m = .ok bytes)
    (hk : k + 4 ≤ m) : wordAt file (n + k : ℕ) = .ok (leWord (bytes.drop k)) := by
  unfold bytesAt at h
  split_ifs at h with hin
  cases h
  rw [Int.toNat_natCast] at hin
  have hread : bytesAt file (n + k : ℕ) 4 = .ok ((file.drop (n + k)).take 4) := by
    unfold bytesAt
    rw [if_pos (by omega), Int.toNat_natCast]
  unfold wordAt
  rw [hread, Int.toNat_natCast, List.drop_take, List.drop_drop]
  refine congrArg Except.ok ?_
  rw [leWord_take le_rfl, leWord_take (by omega)]

theorem MemRegion.fields_ofBytes (bytes : List Byte) :
    (MemRegion.ofBytes bytes).start = leWord bytes ∧
      (MemRegion.ofBytes bytes).endAddr = leWord (bytes.drop 4) ∧
      (MemRegion.ofBytes bytes).fnSz = leWord (bytes.drop 20) := by
  simp [MemRegion.ofBytes, leWords, MemRegion.ofWords]

/-- The fields of a header that is read. -/
theorem wordAt_of_regionAt {n : ℕ} {r : MemRegion} (h : regionAt file n = .ok r) :
    wordAt file (n : ℕ) = .ok r.start ∧ wordAt file (n + 4 : ℕ) = .ok r.endAddr ∧
      wordAt file (n + 20 : ℕ) = .ok r.fnSz := by
  obtain ⟨bytes, hbytes, h⟩ := bind_eq_ok.mp h
  cases h
  obtain ⟨hstart, hend, hfnSz⟩ := MemRegion.fields_ofBytes bytes
  rw [hstart, hend, hfnSz]
  exact ⟨wordAt_of_bytesAt (k := 0) hbytes (by decide), wordAt_of_bytesAt hbytes (by decide),
    wordAt_of_bytesAt hbytes (by decide)⟩

theorem nonneg_of_checkLoop {fuel : ℕ} {pos : ℤ} (h : checkLoop file fuel pos = .ok ()) : 0 ≤ pos := by
  cases fuel with
  | zero => cases h
  | succ fuel =>
    rw [checkLoop] at h
    obtain ⟨start, hstart, -⟩ := bind_eq_ok.mp h
    obtain ⟨bytes, hbytes, -⟩ := bind_eq_ok.mp hstart
    unfold bytesAt at hbytes
    split_ifs at hbytes with hin
    exact hin.1

/-- A place in a file that fits into memory. -/
theorem toNat_ofNat_add {n k : ℕ} (h : n + k < 2 ^ 32) :
    (BitVec.ofNat 32 n + BitVec.ofNat 32 k).toNat = n + k := by
  rw [← BitVec.ofNat_add, toNat_ofNat_of_lt h]

/-- The sizes of a record that is followed, and where it leads. -/
theorem sizesAt_of_nextRegion (hlen : file.length < 2 ^ 32) {n n' : ℕ} {r : MemRegion}
    (hr : regionAt file n = .ok r) (hnext : nextRegion file r n = .ok (n' : ℤ)) :
    ∃ realSz, sizesAt file (BitVec.ofNat 32 n) = .ok (r.fnSz, realSz) ∧
      BitVec.ofNat 32 n + 24 + r.fnSz + 4 + realSz = BitVec.ofNat 32 n' := by
  obtain ⟨-, -, hfnSz⟩ := wordAt_of_regionAt hr
  obtain ⟨realSz, hreal, h⟩ := bind_eq_ok.mp hnext
  have hn' : (n' : ℤ) = (n + 24 + r.fnSz.toNat : ℕ) + 4 + realSz.toInt := (Except.ok.inj h).symm
  have hpos : regionPRealSz r n = (n + 24 + r.fnSz.toNat : ℕ) := rfl
  rw [hpos] at hreal
  have hheader := lt_length_of_wordAt hfnSz
  have hsize := lt_length_of_wordAt hreal
  have h24 : (BitVec.ofNat 32 n + 24 + r.fnSz).toNat = n + 24 + r.fnSz.toNat := by
    have hp : (BitVec.ofNat 32 n + 24).toNat = n + 24 := toNat_ofNat_add (k := 24) (by omega)
    rw [BitVec.toNat_add, hp]
    exact Nat.mod_eq_of_lt (by omega)
  refine ⟨realSz, ?_, ?_⟩
  · have hp : (BitVec.ofNat 32 n + 20).toNat = n + 20 := toNat_ofNat_add (k := 20) (by omega)
    unfold sizesAt
    rw [hp]
    refine bind_eq_ok.mpr ⟨r.fnSz, hfnSz, bind_eq_ok.mpr ⟨realSz, ?_, rfl⟩⟩
    rw [h24]
    exact hreal
  · apply BitVec.eq_of_toNat_eq
    rw [BitVec.toInt_eq_toNat_cond] at hn'
    rw [BitVec.toNat_add, BitVec.toNat_add, h24, BitVec.toNat_ofNat]
    have h4 : (4 : Word).toNat = 4 := rfl
    split_ifs at hn' <;> omega

/-- **What the loop of `Framing` accepts, this one accepts**, in a file that fits into
memory. -/
theorem trace_of_checkLoop (hlen : file.length < 2 ^ 32) {fuel n : ℕ}
    (h : checkLoop file fuel n = .ok ()) :
    ∃ l, Loop.Trace (checkStep file) (BitVec.ofNat 32 n) l .accepted := by
  induction fuel generalizing n with
  | zero => cases h
  | succ fuel ih =>
    rw [checkLoop] at h
    obtain ⟨start, hstart, h⟩ := bind_eq_ok.mp h
    have hn := lt_length_of_wordAt hstart
    have hp : (BitVec.ofNat 32 n).toNat = n := by
      rw [toNat_ofNat_of_lt (by omega)]
    split_ifs at h with hmark hbound
    · refine ⟨_, .stop ?_⟩
      unfold checkStep
      rw [hp, hstart]
      exact if_pos hmark
    · obtain ⟨r, hr, h⟩ := bind_eq_ok.mp h
      split_ifs at h with hle
      obtain ⟨next, hnext, h⟩ := bind_eq_ok.mp h
      obtain ⟨n', rfl⟩ := Int.eq_ofNat_of_zero_le (nonneg_of_checkLoop h)
      obtain ⟨l, hl⟩ := ih h
      refine ⟨_, .next ?_ hl⟩
      obtain ⟨hstart', hend, -⟩ := wordAt_of_regionAt hr
      obtain rfl := Except.ok.inj (hstart.symm.trans hstart')
      obtain ⟨realSz, hsizes, hgoto⟩ := sizesAt_of_nextRegion hlen hr hnext
      refine bind_eq_ok.mpr ⟨r.start, by rw [hp]; exact hstart, ?_⟩
      rw [if_neg hmark, if_neg (by rw [hp]; omega)]
      refine bind_eq_ok.mpr ⟨r.endAddr, ?_, ?_⟩
      · have hlt := lt_length_of_wordAt hend
        have hp' : (BitVec.ofNat 32 n + 4).toNat = n + 4 := toNat_ofNat_add (k := 4) (by omega)
        rw [hp']
        exact hend
      · rw [if_neg hle]
        refine bind_eq_ok.mpr ⟨_, hsizes, ?_⟩
        rw [← hgoto]

theorem accepted_of_checkCkpt (hlen : file.length < 2 ^ 32) (h : checkCkpt headSz file = .ok ()) :
    ∃ l, checkCkptRun headSz file file.length = .ok (l, .accepted) := by
  obtain ⟨mark, hmark, h⟩ := bind_eq_ok.mp h
  split_ifs at h with hend
  obtain ⟨l, hl⟩ := trace_of_checkLoop hlen h
  refine ⟨l, bind_eq_ok.mpr ⟨mark, hmark, ?_⟩⟩
  rw [if_neg hend]
  exact (Loop.run_eq_ok_iff_trace (fun _ _ => BitVec.eq_of_toNat_eq)
    fun p r => lt_length_of_checkStep).mpr hl

end

/-- **`check_ckpt` terminates, reads only bytes of the file, and accepts only if following
`next_region` reaches the end mark through records inside of it**, exactly if the file has one of
the three layouts. -/
theorem validates_iff (headSz : ℕ) (file : List Byte) : Validates headSz file ↔ Layout headSz file := by
  constructor
  · rintro ⟨⟨fuel, ⟨l, v⟩, hout⟩, hsound⟩
    obtain ⟨hlen, ⟨hend, -⟩ | ⟨hend, htrace, hle⟩⟩ := checkCkptRun_eq_ok_iff.mp hout
    · exact ⟨hlen, .inl hend⟩
    · cases v with
      | accepted => exact ⟨hlen, .inr (.inl (sound_iff.mpr ⟨l, htrace, hsound fuel l hout⟩))⟩
      | refused msg => exact ⟨hlen, .inr (.inr (corrupted_iff.mpr ⟨l, msg, htrace⟩))⟩
  · rintro ⟨hlen, h⟩
    by_cases hend : leWord (file.drop (file.length - 4)) = ckptEndMark
    · rcases h with hne | hsound | hcorrupted
      · exact absurd hend hne
      · obtain ⟨l, htrace, hinside⟩ := sound_iff.mp hsound
        exact validates_of_trace hlen hend htrace fun _ => hinside
      · obtain ⟨l, msg, htrace⟩ := corrupted_iff.mp hcorrupted
        exact validates_of_trace hlen hend htrace fun h => by cases h
    · exact validates_of_no_mark hlen hend

/-- A head of 668 bytes, and a record whose size of -28 leads back to it. -/
def loopFile : List Byte :=
  List.replicate 668 0 ++ (MemRegion.mk 0x8000 0x9000 1 0 0).bytes ++ leBytes (-28) ++
    leBytes ckptEndMark

/-- A head with `CKPT_END_MARK` as its last word, and nothing more. -/
def headFile : List Byte := List.replicate 664 0 ++ leBytes ckptEndMark

/-- The first is followed for ever, and the second is read behind its end. -/
theorem bad_files_not_validated :
    ((∀ fuel, checkCkptRun 668 loopFile fuel = .error .diverges) ∧ ¬Validates 668 loopFile) ∧
      checkCkptRun 668 headFile headFile.length = .error .outside ∧ ¬Validates 668 headFile := by
  have hmark : wordAt loopFile ((loopFile.length : ℤ) - 4) = .ok ckptEndMark := by decide +kernel
  have hstep : checkStep loopFile 668 = .ok (.inr 668) := by decide +kernel
  have hloops : ∀ fuel, checkCkptRun 668 loopFile fuel = .error .diverges := fun fuel =>
    bind_eq_error.mpr (.inr ⟨_, hmark, Loop.run_of_fixed hstep fuel⟩)
  have houtside : checkCkptRun 668 headFile headFile.length = .error .outside := by decide +kernel
  refine ⟨⟨hloops, ?_⟩, houtside, ?_⟩
  · rintro ⟨⟨fuel, out, h⟩, -⟩
    rw [hloops fuel] at h
    cases h
  · rintro ⟨⟨fuel, out, h⟩, -⟩
    have hlength := checkCkptRun_length h
    rw [houtside] at hlength
    cases hlength

end Snitchaser.Checkpoint
