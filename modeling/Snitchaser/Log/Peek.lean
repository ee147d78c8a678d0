import Snitchaser.Foundation.Marked
import Snitchaser.Log.ReplayLog

/-!
# Looking ahead

`readahead_log` copies bytes and leaves them to be read. When the region has been read to
its end it loads the next one, and there it is not as if nothing had happened: `read_log`
would have spent a call on that. So the calls that follow find the regions at other places
than they would have, and `read_log_full` bears one end of a region, but not two in a row.

## The model

* `copyLogFull` is `read_log_full` with what it has copied to `buf` when it throws.
* A reader is before a stream of bytes with marks: a mark is where `next_region` loads a
  region, and the stream ends where it throws (`Reader.Sees`). The calls are those of a
  stream with marks (`match_callLog`).

## What is proved

`peek_pure_iff`: looking ahead changes nothing in what is read until the log ends, whatever
the calls are, **if and only if** it has not loaded a region, or there is no empty region
before another one in the file.
-/

namespace Snitchaser.Log

open Foundation

/-! ### Calls -/

/-- What `read_log_full` throws. -/
def unableToRead : Stop := .throw .logCorrupted "unable to read %d data from log"

/-- `read_log_full`: what it has copied to `buf`, and how it ends. -/
def copyLogFull (lzo : Lzo) (size : ℕ) (lastZero : Bool) (r : Reader) :
    List Byte × Except Stop Reader :=
  if size = 0 then ([], .ok r)
  else
    match (readLog lzo size).run r with
    | .error e _ => ([], .error e)
    | .ok data r' =>
      if _h : data = [] then
        if lastZero then ([], .error unableToRead) else copyLogFull lzo size true r'
      else
        (data ++ (copyLogFull lzo (size - data.length) false r').1,
          (copyLogFull lzo (size - data.length) false r').2)
termination_by 2 * size + if lastZero then 0 else 1
decreasing_by
  · simp_all
  · have hpos := List.length_pos_of_ne_nil _h
    split_ifs <;> omega

/-- It is `read_log_full`. -/
theorem copyLogFull_spec (lzo : Lzo) (size : ℕ) (lastZero : Bool) (r : Reader) :
    match (readLogFull lzo size lastZero).run r with
    | .ok data r' => copyLogFull lzo size lastZero r = (data, .ok r')
    | .error e _ => (copyLogFull lzo size lastZero r).2 = .error e := by
  fun_induction copyLogFull lzo size lastZero r with
  | case1 lastZero r =>
    rw [readLogFull, if_pos rfl]
    rfl
  | case2 size lastZero r hsize e r' hread =>
    rw [readLogFull, if_neg hsize, run_bind_error hread]
  | case3 size r hsize r' hread =>
    rw [readLogFull, if_neg hsize, run_bind_ok hread, dif_pos rfl]
    rfl
  | case4 size lastZero r hsize r' hzero hread ih =>
    rw [readLogFull, if_neg hsize, run_bind_ok hread, dif_pos rfl, if_neg hzero]
    exact ih
  | case5 size lastZero r hsize data r' hread hdata ih =>
    rw [readLogFull, if_neg hsize, run_bind_ok hread, dif_neg hdata]
    cases hrest : (readLogFull lzo (size - data.length) false).run r' with
    | ok more r'' =>
      rw [hrest] at ih
      rw [run_bind_ok hrest, ih]
      rfl
    | error e r'' =>
      rw [hrest] at ih
      rw [run_bind_error hrest]
      exact ih

/-- A call of `read_log` or of `read_log_full`: what it copies, and how it ends. -/
def callLog (lzo : Lzo) : Marked.Call → Reader → List Byte × Except Stop Reader
  | .read size, r =>
    match (readLog lzo size).run r with
    | .ok data r' => (data, .ok r')
    | .error e _ => ([], .error e)
  | .full size, r => copyLogFull lzo size false r

/-- **A pure peek**: calls that read until the log ends copy the same bytes, and those that
were seen ahead first. -/
def PurePeek (lzo : Lzo) (r r' : Reader) (ahead : List Byte) : Prop :=
  ∀ cs stream e, Marked.run (callLog lzo) cs r = (stream, .error e) →
    Marked.run (callLog lzo) cs r' = (stream, .error e) ∧ ahead <+: stream

/-- Somewhere in the file there is an empty region, and a region behind it. -/
inductive EmptyRegionWithin (lzo : Lzo) : List Byte → Prop
  | here {file r r'} : (nextRegion lzo).run ⟨file, []⟩ = .ok () r → r.region = [] →
      (nextRegion lzo).run ⟨r.file, []⟩ = .ok () r' → EmptyRegionWithin lzo file
  | later {file r} : (nextRegion lzo).run ⟨file, []⟩ = .ok () r →
      EmptyRegionWithin lzo r.file → EmptyRegionWithin lzo file

/-! ### What `next_region` leaves -/

/-- At least `n` bytes of the file are used up, and it is not `read_log_full` that throws. -/
structure Takes {α : Type} (n : ℕ) (x : ReadM α) : Prop where
  file : ∀ {r a r'}, x.run r = .ok a r' → r'.file.length + n ≤ r.file.length
  thrown : ∀ {r e r'}, x.run r = .error e r' → e ≠ unableToRead

section Takes

variable {α β : Type}

theorem Takes.bind {m n : ℕ} {x : ReadM α} {f : α → ReadM β} (hx : Takes m x)
    (hf : ∀ a, Takes n (f a)) : Takes (m + n) (x >>= f) where
  file {r a r''} h := by
    obtain ⟨a, r', hxa, hfa⟩ := run_bind_eq_ok h
    calc r''.file.length + (m + n) = r''.file.length + n + m := by omega
      _ ≤ r'.file.length + m := Nat.add_le_add_right ((hf a).file hfa) m
      _ ≤ r.file.length := hx.file hxa
  thrown {r e r'} h := by
    cases hxa : x.run r with
    | ok a r₁ =>
      rw [run_bind_ok hxa] at h
      exact (hf a).thrown h
    | error e₁ r₁ =>
      rw [run_bind_error hxa] at h
      cases h
      exact hx.thrown hxa

theorem Takes.weaken {n : ℕ} {x : ReadM α} (h : Takes n x) : Takes 0 x where
  file hx := (Nat.le_add_right _ n).trans (h.file hx)
  thrown hx := h.thrown hx

theorem Takes.then {n : ℕ} {x : ReadM α} {f : α → ReadM β} (hx : Takes 0 x)
    (hf : ∀ a, Takes n (f a)) : Takes n (x >>= f) := Nat.zero_add n ▸ hx.bind hf

theorem takes_pure (a : α) : Takes 0 (pure a : ReadM α) where
  file h := by
    cases h
    exact le_rfl
  thrown h := by cases h

theorem takes_setRegion (region : List Byte) : Takes 0 (setRegion region) where
  file h := by
    cases h
    exact le_rfl
  thrown h := by cases h

theorem takes_throw {e : Stop} (h : e ≠ unableToRead) : Takes 0 (throw e : ReadM α) where
  file h := by cases h
  thrown he := by
    cases he
    exact h

theorem takes_readFromFile (n : ℕ) : Takes n (readFromFile n) where
  file {r data r'} h := by
    change readFromFile n r = _ at h
    unfold readFromFile at h
    split_ifs at h with hn
    · cases h
      exact (by rw [List.length_drop, Nat.sub_add_cancel hn] : _ = _).le
  thrown {r e r'} h := by
    change readFromFile n r = _ at h
    unfold readFromFile at h
    split_ifs at h
    · cases h
      decide

theorem takes_readSize : Takes 0 readSize :=
  ((takes_readFromFile 4).bind fun _ => takes_pure _).weaken

/-- **A region has a mark at least.** -/
theorem takes_nextRegion (lzo : Lzo) : Takes 1 (nextRegion lzo) := by
  unfold nextRegion
  refine (takes_setRegion []).then fun _ =>
    Takes.bind (n := 0) (takes_readFromFile 1) fun mark => ?_
  split_ifs
  · refine takes_readSize.then fun realSz => takes_readSize.then fun compressedSz =>
      (takes_readFromFile compressedSz).weaken.then fun compressed => ?_
    split_ifs
    · exact takes_throw (by decide)
    · exact takes_setRegion _
  · exact takes_readSize.then fun size =>
      (takes_readFromFile size).weaken.then fun data => takes_setRegion data
  · exact takes_throw (by decide)

end Takes

/-! ### The stream before a reader -/

/-- What the rest of a file holds: each region behind a mark, and what is thrown then. -/
inductive Behind (lzo : Lzo) : List Byte → List (Option Byte) → Stop → Prop
  | stop {file e r} : (nextRegion lzo).run ⟨file, []⟩ = .error e r → Behind lzo file [] e
  | next {file r t e} : (nextRegion lzo).run ⟨file, []⟩ = .ok () r → Behind lzo r.file t e →
      Behind lzo file (none :: (r.region.map some ++ t)) e

/-- The stream before a reader. -/
def Reader.Sees (lzo : Lzo) (e : Stop) (r : Reader) (t : List (Option Byte)) : Prop :=
  ∃ t', Behind lzo r.file t' e ∧ t = r.region.map some ++ t'

section Sees

variable {lzo : Lzo} {e : Stop} {r : Reader} {t : List (Option Byte)}

/-- Every file has a stream. -/
theorem exists_behind (lzo : Lzo) (file : List Byte) : ∃ t e, Behind lzo file t e := by
  induction hlen : file.length using Nat.strong_induction_on generalizing file with
  | _ len ih =>
    cases hnext : (nextRegion lzo).run ⟨file, []⟩ with
    | error e r => exact ⟨[], e, .stop hnext⟩
    | ok _ r =>
      have hshort : r.file.length < len := hlen ▸ (takes_nextRegion lzo).file hnext
      obtain ⟨t, e, ht⟩ := ih _ hshort r.file rfl
      exact ⟨_, e, .next hnext ht⟩

/-- The regions of the logger, each behind a mark. -/
def markedRegions (regions : List Region) : List (Option Byte) :=
  regions.flatMap fun region => none :: region.data.map some

/-- A file of the logger. -/
theorem behind_encodeRegions {regions : List Region} (h : ∀ region ∈ regions, region.Sized lzo) :
    Behind lzo (encodeRegions lzo regions) (markedRegions regions) fileIsEnd := by
  induction regions with
  | nil => exact .stop (nextRegion_nil lzo [])
  | cons region regions ih =>
    rw [encodeRegions_cons]
    exact .next (nextRegion_encode lzo (h region List.mem_cons_self) _ [])
      (ih fun other hother => h other (List.mem_cons_of_mem _ hother))

theorem Behind.ne_unableToRead {file : List Byte} (h : Behind lzo file t e) : e ≠ unableToRead := by
  induction h with
  | stop hnext => exact (takes_nextRegion lzo).thrown hnext
  | next _ _ ih => exact ih

/-- It does not begin with a byte. -/
theorem Behind.head_ne {file : List Byte} (h : Behind lzo file t e) (b : Byte) :
    t.head? ≠ some (some b) := by
  cases h with
  | stop => simp
  | next => simp

/-- It begins with a mark if there is a region. -/
theorem Behind.head_iff {file : List Byte} (h : Behind lzo file t e) :
    t.head? = some none ↔ ∃ r, (nextRegion lzo).run ⟨file, []⟩ = .ok () r := by
  cases h with
  | stop hnext => simp [hnext]
  | next hnext => simp [hnext]

/-- An empty region here, or behind. -/
theorem emptyRegionWithin_iff {file : List Byte} (h : (nextRegion lzo).run ⟨file, []⟩ = .ok () r) :
    EmptyRegionWithin lzo file ↔
      (r.region = [] ∧ ∃ r', (nextRegion lzo).run ⟨r.file, []⟩ = .ok () r') ∨
        EmptyRegionWithin lzo r.file := by
  constructor
  · intro hempty
    cases hempty with
    | here hnext hregion hnext' =>
      cases h.symm.trans hnext
      exact .inl ⟨hregion, _, hnext'⟩
    | later hnext hwithin =>
      cases h.symm.trans hnext
      exact .inr hwithin
  · rintro (⟨hregion, r', hnext'⟩ | hwithin)
    · exact .here h hregion hnext'
    · exact .later h hwithin

/-- **Two marks stand together at an empty region.** -/
theorem Behind.noGap_iff {file : List Byte} (h : Behind lzo file t e) :
    Marked.NoGap t ↔ ¬EmptyRegionWithin lzo file := by
  induction h with
  | stop hnext =>
    refine iff_of_true (fun hgap => by simpa using hgap.length_le) fun hempty => ?_
    cases hempty with
    | here hnext' => exact absurd (hnext.symm.trans hnext') (by simp)
    | later hnext' => exact absurd (hnext.symm.trans hnext') (by simp)
  | @next file r t e hnext ht ih =>
    have hhead : (r.region.map some ++ t).head? = some none ↔
        r.region = [] ∧ ∃ r', (nextRegion lzo).run ⟨r.file, []⟩ = .ok () r' := by
      rw [← ht.head_iff]
      cases r.region with
      | nil => simp
      | cons b region => simp
    rw [emptyRegionWithin_iff hnext, Marked.noGap_mark, Marked.noGap_map_append, ih, Ne, hhead]
    tauto

/-! ### Calls take from the stream -/

/-- A read in a region. -/
theorem run_readLog_of_ne {file region : List Byte} (lzo : Lzo) (size : ℕ) (hne : region ≠ []) :
    (readLog lzo size).run ⟨file, region⟩ = .ok (region.take size) ⟨file, region.drop size⟩ := by
  rcases le_or_gt size region.length with hle | hlt
  · exact run_readLog_of_le lzo hle
  · rw [run_readLog_of_lt lzo hlt hne, List.take_of_length_le hlt.le, List.drop_of_length_le hlt.le]

/-- A read of something takes bytes, or a mark, or comes to the end. -/
theorem Reader.Sees.readLog (h : r.Sees lzo e t) {size : ℕ} (hsize : size ≠ 0) :
    (∃ data r' t', data ≠ [] ∧ data.length ≤ size ∧ (readLog lzo size).run r = .ok data r' ∧
        t = data.map some ++ t' ∧ Marked.takeItems size t = (data, t') ∧ r'.Sees lzo e t') ∨
      (∃ r' t', (readLog lzo size).run r = .ok [] r' ∧ t = none :: t' ∧ r'.Sees lzo e t') ∨
      (t = [] ∧ ∃ r', (readLog lzo size).run r = .error e r') := by
  obtain ⟨t₀, hbehind, rfl⟩ := h
  rcases r with ⟨file, region⟩
  by_cases hregion : region = []
  · subst hregion
    right
    cases hbehind with
    | @stop _ _ r' hnext =>
      refine .inr ⟨rfl, r', ?_⟩
      rw [run_readLog_nil lzo (Nat.pos_of_ne_zero hsize), seqRight_eq_bind, run_bind_error hnext]
    | @next _ r' t' _ hnext ht =>
      exact .inl ⟨r', _, run_readLog_next lzo (Nat.pos_of_ne_zero hsize) hnext, rfl, t', ht, rfl⟩
  · have htake : region.take size ≠ [] := by
      rw [Ne, List.take_eq_nil_iff]
      tauto
    refine .inl ⟨region.take size, _, (region.drop size).map some ++ t₀, htake,
      List.length_take_le size region, run_readLog_of_ne lzo size hregion, ?_,
      Marked.takeItems_map_append hbehind.head_ne size region, t₀, hbehind, rfl⟩
    rw [← List.append_assoc, ← List.map_append, List.take_append_drop]

/-- `read_log_full` takes from the stream. -/
theorem match_copyLogFull (h : r.Sees lzo e t) (size : ℕ) (lastZero : Bool) :
    Marked.Match (Reader.Sees lzo e) (copyLogFull lzo size lastZero r)
      (Marked.full e unableToRead size lastZero t) := by
  fun_induction copyLogFull lzo size lastZero r generalizing t with
  | case1 lastZero r =>
    rw [Marked.full]
    exact .ok h
  | case2 size lastZero r hsize e' r' hread =>
    obtain ⟨size, rfl⟩ := Nat.exists_eq_add_one_of_ne_zero hsize
    rcases h.readLog hsize with ⟨_, _, _, _, _, hok, _⟩ | ⟨_, _, hok, _⟩ | ⟨rfl, r₁, herr⟩
    · cases hread.symm.trans hok
    · cases hread.symm.trans hok
    · cases hread.symm.trans herr
      exact .error
  | case3 size r hsize r' hread =>
    obtain ⟨size, rfl⟩ := Nat.exists_eq_add_one_of_ne_zero hsize
    rcases h.readLog hsize with ⟨_, _, _, hne, _, hok, _⟩ | ⟨_, _, _, rfl, _⟩ | ⟨_, _, herr⟩
    · cases hread.symm.trans hok
      exact absurd rfl hne
    · exact .error
    · cases hread.symm.trans herr
  | case4 size lastZero r hsize r' hzero hread ih =>
    obtain ⟨size, rfl⟩ := Nat.exists_eq_add_one_of_ne_zero hsize
    rcases h.readLog hsize with ⟨_, _, _, hne, _, hok, _⟩ | ⟨_, t', hok, rfl, hsees⟩ | ⟨_, _, herr⟩
    · cases hread.symm.trans hok
      exact absurd rfl hne
    · cases hread.symm.trans hok
      rw [Marked.full, if_neg hzero]
      exact ih hsees
    · cases hread.symm.trans herr
  | case5 size lastZero r hsize data r' hread hdata ih =>
    rcases h.readLog hsize with ⟨_, _, t', _, hle, hok, rfl, _, hsees⟩ | ⟨_, _, hok, _⟩ | ⟨_, _, herr⟩
    · cases hread.symm.trans hok
      rw [Marked.full_map_append hdata hle]
      exact (ih hsees).append
    · cases hread.symm.trans hok
      exact absurd rfl hdata
    · cases hread.symm.trans herr

/-- **A call takes from the stream.** -/
theorem match_callLog (c : Marked.Call) (h : r.Sees lzo e t) :
    Marked.Match (Reader.Sees lzo e) (callLog lzo c r) (Marked.call e unableToRead c t) := by
  cases c with
  | full size => exact match_copyLogFull h size false
  | read size =>
    change Marked.Match _ (match (readLog lzo size).run r with
      | .ok data r' => (data, .ok r')
      | .error e _ => ([], .error e)) (Marked.read e size t)
    by_cases hsize : size = 0
    · subst hsize
      exact .ok h
    rcases h.readLog hsize with ⟨data, r', t', hne, _, hok, ht, htake, hsees⟩ |
      ⟨r', t', hok, rfl, hsees⟩ | ⟨rfl, r', herr⟩
    · obtain ⟨b, data, rfl⟩ := List.exists_cons_of_ne_nil hne
      have hread : Marked.read e size t = (b :: data, .ok t') := by
        rw [ht, List.map_cons, List.cons_append] at htake ⊢
        rw [Marked.read, if_neg hsize, htake]
      rw [hok, hread]
      exact .ok hsees
    · have hread : Marked.read e size (none :: t') = ([], .ok t') := if_neg hsize
      rw [hok, hread]
      exact .ok hsees
    · have hread : Marked.read e size ([] : List (Option Byte)) = ([], .error e) := if_neg hsize
      rw [herr, hread]
      exact .error

/-- **A run takes from the stream.** -/
theorem run_callLog_eq_error (h : r.Sees lzo e t) (cs : List Marked.Call) (stream : List Byte)
    (e' : Stop) : Marked.run (callLog lzo) cs r = (stream, .error e') ↔
      Marked.run (Marked.call e unableToRead) cs t = (stream, .error e') :=
  (Marked.Match.run (fun c _ _ hsees => match_callLog c hsees) h cs).error_iff stream e'

end Sees

/-! ### Looking ahead -/

section Peek

variable {lzo : Lzo} {r r' : Reader} {n : ℕ} {ahead : List Byte}

/-- Bytes ahead are the first bytes of the region; and if they were not in the region, then
the region has been read to its end, and the next one has been loaded. -/
theorem readaheadLog_eq_some (h : (readaheadLog lzo n).run r = .ok (some ahead) r') :
    ahead <+: r'.region ∧
      if n ≤ r.region.length then r' = r
      else r.region = [] ∧ r'.region ≠ [] ∧ (nextRegion lzo).run ⟨r.file, []⟩ = .ok () r' := by
  rcases r with ⟨file, region⟩
  change readaheadLog lzo n ⟨file, region⟩ = _ at h
  unfold readaheadLog at h
  split_ifs at h ⊢ with hn hregion
  · cases h
    exact ⟨List.take_prefix n region, rfl⟩
  · cases not_not.mp hregion
    cases hnext : (nextRegion lzo).run ⟨file, []⟩ with
    | error e r₁ =>
      rw [hnext] at h
      cases e with
      | blocked => cases h
      | throw type msg => cases type <;> cases h
    | ok _ r₁ =>
      rw [hnext] at h
      dsimp only at h
      split_ifs at h with hlt
      · cases h
        refine ⟨List.take_prefix n _, rfl, ?_, rfl⟩
        rintro hnil
        rw [hnil] at hlt
        exact hlt (Nat.pos_of_ne_zero fun hzero => hn (hzero ▸ Nat.zero_le _))

/-- Bytes in the region are read first. -/
theorem prefix_of_run {cs : List Marked.Call} {stream : List Byte} {e : Stop}
    (h : Marked.run (callLog lzo) cs r = (stream, .error e)) : r.region <+: stream := by
  obtain ⟨t, e₀, ht⟩ := exists_behind lzo r.file
  exact Marked.run_error_prefix ((run_callLog_eq_error ⟨t, ht, rfl⟩ cs stream e).mp h)

/-- A region that is loaded ahead: the mark before it has been passed. -/
theorem exists_sees_next (hr : r.region = [])
    (hnext : (nextRegion lzo).run ⟨r.file, []⟩ = .ok () r') :
    ∃ t e, r.Sees lzo e (none :: (r'.region.map some ++ t)) ∧
      r'.Sees lzo e (r'.region.map some ++ t) ∧ e ≠ unableToRead ∧
      (Marked.NoGap (none :: (r'.region.map some ++ t)) ↔ ¬EmptyRegionWithin lzo r.file) := by
  obtain ⟨t, e, ht⟩ := exists_behind lzo r'.file
  have hbehind : Behind lzo r.file (none :: (r'.region.map some ++ t)) e := .next hnext ht
  exact ⟨t, e, ⟨_, hbehind, by rw [hr]; rfl⟩, ⟨t, ht, rfl⟩, ht.ne_unableToRead, hbehind.noGap_iff⟩

/-- A region that is loaded ahead, and no empty one before another. -/
theorem purePeek_of_next (hr : r.region = [])
    (hnext : (nextRegion lzo).run ⟨r.file, []⟩ = .ok () r') (hahead : ahead <+: r'.region)
    (hempty : ¬EmptyRegionWithin lzo r.file) : PurePeek lzo r r' ahead := by
  obtain ⟨t, e₀, hsees, hsees', -, hgap⟩ := exists_sees_next hr hnext
  intro cs stream e hrun
  have hlater := Marked.run_later (hgap.mpr hempty) (List.suffix_cons none _) rfl
    ((run_callLog_eq_error hsees cs stream e).mp hrun)
  have hrun' := (run_callLog_eq_error hsees' cs stream e).mpr hlater
  exact ⟨hrun', hahead.trans (prefix_of_run hrun')⟩

/-- A region that is loaded ahead, and an empty one before another. -/
theorem not_purePeek_of_next (hr : r.region = []) (hr' : r'.region ≠ [])
    (hnext : (nextRegion lzo).run ⟨r.file, []⟩ = .ok () r') (hempty : EmptyRegionWithin lzo r.file) :
    ¬PurePeek lzo r r' ahead := by
  obtain ⟨t, e, hsees, hsees', hne, hgap⟩ := exists_sees_next hr hnext
  obtain ⟨b, region, hregion⟩ := List.exists_cons_of_ne_nil hr'
  rw [hregion] at hsees hsees' hgap
  have hno : ¬Marked.NoGap (some b :: (region.map some ++ t)) := fun hno =>
    hgap.mp ((Marked.noGap_mark _).mpr ⟨hno, by simp⟩) hempty
  obtain ⟨cs, taken, hrun, hrun'⟩ := Marked.exists_gap_calls hno
  intro hpure
  have hsame := (hpure cs _ e ((run_callLog_eq_error hsees cs _ e).mpr hrun)).1
  have hbroken := (run_callLog_eq_error hsees' cs _ unableToRead).mpr hrun'
  cases hsame.symm.trans hbroken
  exact hne rfl

/-- **When looking ahead is pure.** -/
theorem peek_pure_iff (h : (readaheadLog lzo n).run r = .ok (some ahead) r') :
    PurePeek lzo r r' ahead ↔ n ≤ r.region.length ∨ ¬EmptyRegionWithin lzo r.file := by
  obtain ⟨hahead, hr'⟩ := readaheadLog_eq_some h
  split_ifs at hr' with hn
  · subst hr'
    exact iff_of_true (fun cs stream e hrun => ⟨hrun, hahead.trans (prefix_of_run hrun)⟩) (.inl hn)
  · obtain ⟨hr, hne, hnext⟩ := hr'
    constructor
    · intro hpure
      exact .inr fun hempty => not_purePeek_of_next hr hne hnext hempty hpure
    · rintro (hle | hempty)
      · exact absurd hle hn
      · exact purePeek_of_next hr hnext hahead hempty

end Peek

instance (lzo : Lzo) : DecidablePred (Region.Sized lzo)
  | .compressed _ => inferInstanceAs (Decidable (_ ∧ _))
  | .uncompressed _ => inferInstanceAs (Decidable (_ < _))

/-- A log of two regions. -/
def twoRegions : List Region := [.compressed [[1, 2, 3, 4]], .compressed [[5, 6, 7, 8]]]

theorem peek_pure_iff_twoRegions :
    ∃ r', (readaheadLog endMarked 4).run (openLog (encodeRegions endMarked twoRegions)) =
        .ok (some [1, 2, 3, 4]) r' ∧
      PurePeek endMarked (openLog (encodeRegions endMarked twoRegions)) r' [1, 2, 3, 4] := by
  have hbehind : Behind endMarked (encodeRegions endMarked twoRegions) (markedRegions twoRegions) _ :=
    behind_encodeRegions (by decide)
  have hempty : ¬EmptyRegionWithin endMarked (encodeRegions endMarked twoRegions) :=
    hbehind.noGap_iff.mp (by unfold Marked.NoGap; decide)
  have hahead : (readaheadLog endMarked 4).run (openLog (encodeRegions endMarked twoRegions)) =
      .ok (some [1, 2, 3, 4]) ⟨encodeRegions endMarked [.compressed [[5, 6, 7, 8]]], [1, 2, 3, 4]⟩ := rfl
  exact ⟨_, hahead, (peek_pure_iff hahead).mpr (.inr hempty)⟩

/-- An empty region, as a flush of an empty buffer leaves it, and a region behind it. -/
def emptyFirst : List Region := [.compressed [], .compressed [[5, 6, 7, 8]]]

/-- The log in which it is the second. -/
def emptyBetween : List Byte := encodeRegions endMarked (.compressed [[1, 2, 3, 4]] :: emptyFirst)

/-- Short reads, and one read of four bytes. -/
def shortReads : List Marked.Call := [.read 4, .full 4, .read 4, .read 4, .read 4, .read 4]

/-- **Looking ahead breaks a read**: the calls that would have read all of the log come to
the end of the first region one call earlier, and there `read_log_full` finds nothing twice. -/
theorem peek_before_empty_region :
    ∃ r', (readaheadLog endMarked 4).run (openLog emptyBetween) = .ok (some [1, 2, 3, 4]) r' ∧
      Marked.run (callLog endMarked) shortReads (openLog emptyBetween) =
        ([1, 2, 3, 4, 5, 6, 7, 8], .error fileIsEnd) ∧
      Marked.run (callLog endMarked) shortReads r' = ([1, 2, 3, 4], .error unableToRead) ∧
      ¬PurePeek endMarked (openLog emptyBetween) r' [1, 2, 3, 4] := by
  have hbehind : Behind endMarked emptyBetween _ fileIsEnd := behind_encodeRegions (by decide)
  have hbehind' : Behind endMarked (encodeRegions endMarked emptyFirst) _ fileIsEnd :=
    behind_encodeRegions (by decide)
  have hrun : Marked.run (callLog endMarked) shortReads (openLog emptyBetween) =
      ([1, 2, 3, 4, 5, 6, 7, 8], .error fileIsEnd) :=
    (run_callLog_eq_error ⟨_, hbehind, rfl⟩ _ _ _).mpr rfl
  have hrun' : Marked.run (callLog endMarked) shortReads
      ⟨encodeRegions endMarked emptyFirst, [1, 2, 3, 4]⟩ = ([1, 2, 3, 4], .error unableToRead) :=
    (run_callLog_eq_error ⟨_, hbehind', rfl⟩ _ _ _).mpr rfl
  refine ⟨⟨encodeRegions endMarked emptyFirst, [1, 2, 3, 4]⟩, rfl, hrun, hrun', fun hpure => ?_⟩
  exact absurd ((hpure _ _ _ hrun).1.symm.trans hrun') (by simp)

end Snitchaser.Log
