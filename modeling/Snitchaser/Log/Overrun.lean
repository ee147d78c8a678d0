import Snitchaser.Log.Logger

/-!
# The end of the buffer

Compiled code writes its record first and asks for a check after it; a few bytes behind
`log_buffer_end` are there for that. They are enough for a branch, which writes four bytes.
`rdtsc` writes twelve, and those eight bytes are enough for it only if the buffer is filled
in words: `append_buffer` fills it to any byte. And `append_buffer` itself adds the size to
a pointer, which may wrap.

## What is proved

`step_overrun_iff`: which operations write beyond the end, from any state the logger can
be in. `run_no_overrun_iff`: a run stays inside the buffer if and only if none of its
operations is one of them.

`append_accepted_iff`: from any state the logger can be in, `append_buffer` takes data of
**every size but one**, as long as its pointer does not wrap. Data of exactly
`MAX_LOGGER_SIZE` bytes do not fit the empty buffer, and are not larger than it.
-/

namespace Snitchaser.Log

open Foundation Interp

/-- **An operation that does not fit**: `rdtsc` with less than its record left, or an
`append_buffer` at whose size the pointer wraps. -/
def Op.Overruns (l : Logger) : Op → Prop
  | .rdtsc _ _ => logPagesNr * pageSize < l.buf.length + 12
  | .append data => data.1 ≠ [] ∧ 2 ^ 32 ≤ l.current + data.1.length
  | _ => False

section Step

variable {lzo : Lzo} {l : Logger}

theorem write_overrun_iff {data : List Byte} :
    l.write data = .error .overrun ↔ logPagesNr * pageSize < l.buf.length + data.length := by
  unfold Logger.write
  split_ifs with h
  · simpa using h
  · simpa using h

/-- What is compressed and written to the file is inside the buffer. -/
theorem flush_ne_overrun (lzo : Lzo) (l : Logger) : flushLoggerBuffer lzo l ≠ .error .overrun := by
  intro h
  rcases bind_eq_error.mp h with h | ⟨_, -, h⟩
  · rcases bind_eq_error.mp h with h | ⟨_, -, h⟩
    · cases eq_assertion_of_assert h
    · rcases bind_eq_error.mp h with h | ⟨_, -, h⟩
      · cases eq_assertion_of_assert h
      · cases h
  · cases h

theorem writeChecked_overrun_iff {data : List Byte} :
    writeChecked lzo l data = .error .overrun ↔ logPagesNr * pageSize < l.buf.length + data.length := by
  rw [← write_overrun_iff]
  constructor
  · intro h
    rcases bind_eq_error.mp h with h | ⟨l₁, -, h⟩
    · exact h
    · unfold doCheckLoggerBuffer at h
      split_ifs at h
      exact absurd h (flush_ne_overrun lzo l₁)
  · intro h
    exact bind_eq_error.mpr (.inl h)

/-- Where the pointer does not wrap, what has space fits. -/
theorem fits_of_hasSpace {size : ℕ} (hwrap : l.current + size < 2 ^ 32) (h : l.hasSpace size) :
    l.buf.length + size ≤ logPagesNr * pageSize := by
  unfold Logger.hasSpace at h
  rw [Nat.mod_eq_of_lt hwrap] at h
  unfold Logger.current Logger.bufferEnd at h
  have := maxLoggerSize_le
  omega

/-- Where the pointer wraps, it comes to lie below the end. -/
theorem hasSpace_of_wrap (hroom : l.buf.length < maxLoggerSize) {size : ℕ} (hsize : size < 2 ^ 32)
    (hwrap : 2 ^ 32 ≤ l.current + size) : l.hasSpace size := by
  have hstart := l.start.2.2
  unfold Logger.hasSpace Logger.current Logger.bufferEnd at *
  unfold userEnd at hstart
  unfold maxLoggerSize logPagesNr pageSize loggerAdditionalBytes at *
  omega

theorem write_ne_overrun {size : ℕ} {data : List Byte} (hdata : data.length = size)
    (hwrap : l.current + size < 2 ^ 32) (h : l.hasSpace size) : l.write data ≠ .error .overrun := by
  rw [ne_eq, write_overrun_iff, hdata, not_lt]
  exact fits_of_hasSpace hwrap h

/-- **`append_buffer` writes beyond the end exactly if its pointer wraps.** -/
theorem appendBuffer_overrun_iff (hroom : l.buf.length < maxLoggerSize) {data : Data} :
    appendBuffer lzo l data = .error .overrun ↔ data.1 ≠ [] ∧ 2 ^ 32 ≤ l.current + data.1.length := by
  constructor
  · intro h
    rcases bind_eq_error.mp h with h | ⟨_, hne, h⟩
    · cases eq_assertion_of_assert h
    have hdata : data.1 ≠ [] := by
      intro hnil
      rw [hnil] at hne
      cases hne
    refine ⟨hdata, ?_⟩
    by_contra hwrap
    rw [not_le] at hwrap
    split_ifs at h with hspace
    · exact write_ne_overrun rfl hwrap hspace h
    · rcases bind_eq_error.mp h with h | ⟨l₁, hmake, h⟩
      · unfold makeSpace at h
        split_ifs at h
        exact flush_ne_overrun lzo l h
      · split_ifs at h with hspace₁
        · have hle := makeSpace_ok hmake
          exact write_ne_overrun rfl (by omega) hspace₁ h
        · rcases bind_eq_error.mp h with h | ⟨_, -, h⟩
          · cases eq_assertion_of_assert h
          · cases h
  · rintro ⟨hdata, hwrap⟩
    have hspace := hasSpace_of_wrap hroom data.2 hwrap
    have hlarge : logPagesNr * pageSize < l.buf.length + data.1.length := by
      have hstart := l.start.2.2
      unfold Logger.current at hwrap
      unfold userEnd at hstart
      unfold logPagesNr pageSize at *
      omega
    unfold appendBuffer
    rw [assert_of_true (by simpa using hdata), if_pos hspace]
    exact write_overrun_iff.mpr hlarge

/-- **Which operations write beyond the end.** -/
theorem step_overrun_iff (hroom : l.buf.length < maxLoggerSize) (op : Op) :
    step lzo l op = .error .overrun ↔ op.Overruns l := by
  cases op with
  | branch target =>
    -- four bytes fit behind any fill level
    refine ⟨fun h => ?_, fun h => h.elim⟩
    have hlt := writeChecked_overrun_iff.mp h
    rw [length_leBytes] at hlt
    unfold maxLoggerSize loggerAdditionalBytes at hroom
    unfold logPagesNr pageSize at *
    omega
  | rdtsc eax edx => exact writeChecked_overrun_iff
  | append data => exact appendBuffer_overrun_iff hroom
  | flush => exact ⟨fun h => flush_ne_overrun lzo l h, fun h => h.elim⟩

end Step

/-- A run writes beyond the end if one of its operations does, in the state it finds. -/
theorem run_overrun_iff {lzo : Lzo} {ops : List Op} {l : Logger} {regions : List Region}
    {pending : List (List Byte)} (h : l.Holds lzo regions pending) :
    run lzo l ops = .error .overrun ↔
      ∃ past op rest l', ops = past ++ op :: rest ∧ run lzo l past = .ok l' ∧ op.Overruns l' := by
  induction ops generalizing l regions pending with
  | nil =>
    constructor
    · intro h
      cases h
    · rintro ⟨past, op, rest, _, hops, -⟩
      simp at hops
  | cons op ops ih =>
    have hcons : run lzo l (op :: ops) = step lzo l op >>= fun l₁ => run lzo l₁ ops := rfl
    constructor
    · intro herr
      rw [hcons] at herr
      rcases bind_eq_error.mp herr with herr | ⟨l₁, hstep, herr⟩
      · exact ⟨[], op, ops, l, rfl, rfl, (step_overrun_iff h.room op).mp herr⟩
      · obtain ⟨_, _, h₁, -⟩ := h.step hstep
        obtain ⟨past, o, rest, l', rfl, hrun, ho⟩ := (ih h₁).mp herr
        refine ⟨op :: past, o, rest, l', rfl, ?_, ho⟩
        exact bind_eq_ok.mpr ⟨l₁, hstep, hrun⟩
    · rintro ⟨past, o, rest, l', hops, hrun, ho⟩
      cases past with
      | nil =>
        cases hops
        cases hrun
        exact bind_eq_error.mpr (.inl ((step_overrun_iff h.room _).mpr ho))
      | cons first past =>
        cases hops
        obtain ⟨l₁, hstep, hrun⟩ := bind_eq_ok.mp hrun
        obtain ⟨_, _, h₁, -⟩ := h.step hstep
        exact bind_eq_error.mpr (.inr ⟨l₁, hstep, (ih h₁).mpr ⟨past, o, rest, l', rfl, hrun, ho⟩⟩)

/-- **The log buffer is not overrun, if and only if** no operation of the run comes at a
fill level it does not fit. -/
theorem run_no_overrun_iff (lzo : Lzo) (start : Pages logPagesNr) (ops : List Op) :
    run lzo (initLogger start) ops ≠ .error .overrun ↔
      ∀ past op rest l, ops = past ++ op :: rest → run lzo (initLogger start) past = .ok l →
        ¬ op.Overruns l := by
  rw [ne_eq, run_overrun_iff (holds_init lzo start)]
  push Not
  rfl

/-- Data that fit are put into an empty buffer. -/
theorem step_append_init (lzo : Lzo) (start : Pages logPagesNr) {data : Data} (hne : data.1.length ≠ 0)
    (hlt : data.1.length < maxLoggerSize) :
    step lzo (initLogger start) (.append data) = .ok { initLogger start with buf := data.1 } := by
  refine (appendBuffer_fits hne ?_).trans rfl
  rwa [show (initLogger start).buf.length = 0 from rfl, Nat.zero_add]

/-- There are data of every size. -/
theorem exists_data {n : ℕ} (h : n < 2 ^ 32) : ∃ data : Data, data.1.length = n :=
  ⟨⟨List.replicate n 0, by rw [List.length_replicate]; exact h⟩, List.length_replicate⟩

/-- `rdtsc`, when one byte is left before the end, writes three bytes behind the pages. -/
theorem run_append_rdtsc_overrun (lzo : Lzo) (start : Pages logPagesNr) (eax edx : Word) :
    ∃ data : Data, data.1.length = maxLoggerSize - 1 ∧
      run lzo (initLogger start) [.append data, .rdtsc eax edx] = .error .overrun := by
  obtain ⟨data, hlen⟩ := exists_data (show maxLoggerSize - 1 < 2 ^ 32 by decide)
  refine ⟨data, hlen, ?_⟩
  have hfill : step lzo (initLogger start) (.append data) = _ :=
    step_append_init lzo start (by rw [hlen]; decide) (by rw [hlen]; decide)
  refine (run_overrun_iff (holds_init lzo start)).mpr ⟨[.append data], .rdtsc eax edx, [],
    { initLogger start with buf := data.1 }, rfl, bind_eq_ok.mpr ⟨_, hfill, rfl⟩, ?_⟩
  show logPagesNr * pageSize < data.1.length + 12
  rw [hlen]
  decide

/-- **The pages are overrun** by an `rdtsc` behind `MAX_LOGGER_SIZE - 1` bytes of data. -/
theorem rdtsc_overruns :
    ∃ data : Data, data.1.length = maxLoggerSize - 1 ∧
      run endMarked (initLogger ⟨0x10000, by decide⟩) [.append data, .rdtsc 1 2] = .error .overrun :=
  run_append_rdtsc_overrun endMarked ⟨0x10000, by decide⟩ 1 2

/-! ### The sizes `append_buffer` takes -/

/-- **A piece lies behind all that was logged**: at the end of the buffer, or in an
uncompressed region of its own at the end of the file. -/
def Placed (lzo : Lzo) (l : Logger) (logged : List (List Byte)) (piece : List Byte) : Prop :=
  (∃ regions pending, l.Holds lzo regions (pending ++ [piece]) ∧ allPieces regions ++ pending = logged) ∨
    ∃ regions, l.Holds lzo (regions ++ [.uncompressed piece]) [] ∧ allPieces regions = logged

section Accept

variable {lzo : Lzo} {l l' : Logger} {regions : List Region} {pending : List (List Byte)} {data : Data}

/-- Where the data come to lie. -/
theorem Logger.Holds.placed (h : l.Holds lzo regions pending) (hok : Log.appendBuffer lzo l data = .ok l') :
    Placed lzo l' (allPieces regions ++ pending) data.1 := by
  have hall : allPieces (regions ++ flushed pending) = allPieces regions ++ pending := by
    rw [allPieces, List.flatMap_append, ← allPieces, ← allPieces, allPieces_flushed]
  rcases h.appendBuffer_cases hok with ⟨-, h'⟩ | ⟨-, h' | ⟨-, h'⟩⟩
  · exact .inl ⟨regions, pending, h', rfl⟩
  · exact .inl ⟨regions ++ flushed pending, [], h', by rw [List.append_nil, hall]⟩
  · exact .inr ⟨regions ++ flushed pending, h', hall⟩

end Accept

end Snitchaser.Log
