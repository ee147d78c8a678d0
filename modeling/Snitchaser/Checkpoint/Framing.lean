import Snitchaser.Checkpoint.Region
import Snitchaser.Interp.Tls

/-!
# Reading a checkpoint back

Three pieces of code go through the records of a checkpoint, each with its own sum of what a
record takes:

* `check_ckpt` and the other loops of `host/main.c` follow `next_region` through the file in
  memory,
* `replayer_main` reads the file from front to back, and `do_restore_mem_region` reads or
  skips what a record holds, in one of five ways.

## The model

The host's pointer is a position in the file, and may be moved back by a negative size; a look
outside the file is a fault. The loops take fuel: a position that comes twice comes for ever.
For the replayer the file is what is left of it. Calls to the kernel succeed.

## What is proved

`ckpt_round_trip`: for records that were written, `check_ckpt` accepts the file, the walk gives
back regions, names and data, and the replayer takes exactly the bytes of each record and stops
at the end mark. For that, the region at the replayer's own stack has to be that stack: the
replayer asserts it.
-/

namespace Snitchaser.Checkpoint

open Foundation Interp

/-! ### The host -/

/-- How a walk stops that does not come to its end. -/
inductive CkptStop where
  /-- `THROW_FATAL(EXP_WRONG_CKPT, ..)`. -/
  | wrongCkpt (msg : String)
  /-- `assert(cond)` failed. -/
  | assertion (cond : String)
  /-- A pointer out of the file is followed. -/
  | outside
  /-- The walk goes on for ever. -/
  | diverges
  deriving DecidableEq, Repr

/-- Some bytes of the file. -/
def bytesAt (file : List Byte) (pos : ℤ) (n : ℕ) : Except CkptStop (List Byte) :=
  if 0 ≤ pos ∧ pos.toNat + n ≤ file.length then .ok ((file.drop pos.toNat).take n) else .error .outside

/-- `*(uint32_t *)(ptr)`. -/
def wordAt (file : List Byte) (pos : ℤ) : Except CkptStop Word := do
  let bytes ← bytesAt file pos 4
  .ok (leWord bytes)

/-- `*r`. -/
def regionAt (file : List Byte) (pos : ℤ) : Except CkptStop MemRegion := do
  let bytes ← bytesAt file pos memRegionSize
  .ok (.ofBytes bytes)

/-- `region_p_real_sz(r)`. -/
def regionPRealSz (r : MemRegion) (pos : ℤ) : ℤ := pos + memRegionSize + r.fnSz.toNat

/-- `region_data(r)`. -/
def regionData (r : MemRegion) (pos : ℤ) : ℤ := regionPRealSz r pos + 4

/-- `next_region(r)`. -/
def nextRegion (file : List Byte) (r : MemRegion) (pos : ℤ) : Except CkptStop ℤ := do
  let realSz ← wordAt file (regionPRealSz r pos)
  .ok (regionData r pos + realSz.toInt)

/-- The loop of `check_ckpt`. -/
def checkLoop (file : List Byte) : ℕ → ℤ → Except CkptStop Unit
  | 0, _ => .error .diverges
  | fuel + 1, pos => do
    let start ← wordAt file pos
    if start = memRegionsEndMark then .ok ()
    else if (file.length : ℤ) ≤ pos then .error (.wrongCkpt "checkpoint corrupted: out of boundry")
    else do
      let r ← regionAt file pos
      if r.endAddr ≤ r.start then .error (.wrongCkpt "checkpoint corrupted: data corrupted")
      else do
        let next ← nextRegion file r pos
        checkLoop file fuel next

/-- `check_ckpt`: `headSz` is `sizeof(struct checkpoint_head)`. -/
def checkCkpt (headSz : ℕ) (file : List Byte) : Except CkptStop Unit := do
  let mark ← wordAt file ((file.length : ℤ) - 4)
  if mark ≠ ckptEndMark then .error (.wrongCkpt "checkpoint corrupted: no end mark")
  else checkLoop file (file.length + 1) headSz

/-- A record as the host sees it. -/
structure Seen where
  region : MemRegion
  /-- `r->fn`, with its `'\0'`. -/
  fn : List Byte
  /-- `region_data(r)`, as much as `*region_p_real_sz(r)` says. -/
  data : List Byte
  deriving DecidableEq, Repr

/-- What the host sees of a record. -/
def seenAt (file : List Byte) (r : MemRegion) (pos : ℤ) : Except CkptStop Seen := do
  let fn ← bytesAt file (pos + memRegionSize) r.fnSz.toNat
  let realSz ← wordAt file (regionPRealSz r pos)
  let data ← bytesAt file (regionData r pos) realSz.toInt.toNat
  .ok ⟨r, fn, data⟩

/-- The walk with `next_region`, as in `do_read_ckpt`. -/
def walkLoop (file : List Byte) : ℕ → ℤ → Except CkptStop (List Seen)
  | 0, _ => .error .diverges
  | fuel + 1, pos => do
    let start ← wordAt file pos
    if start = memRegionsEndMark then .ok []
    else do
      let r ← regionAt file pos
      if r.endAddr ≤ r.start then .error (.assertion "r->end > r->start")
      else do
        let seen ← seenAt file r pos
        let next ← nextRegion file r pos
        let rest ← walkLoop file fuel next
        .ok (seen :: rest)

def walk (headSz : ℕ) (file : List Byte) : Except CkptStop (List Seen) :=
  walkLoop file (file.length + 1) headSz

/-! ### The replayer -/

/-- What the replayer knows. -/
structure Replayer where
  /-- `tpd->tnr`. -/
  tnr : ℕ
  interpFn : List Byte
  execFn : List Byte
  /-- `_end`. -/
  endSym : Word

/-- `GUARDER_LENGTH`. -/
def guarderLength : Word := 0x1000

/-- Where the stack of the thread begins, behind its guard. -/
def Replayer.stackStart (t : Replayer) : Word := tnrToStack t.tnr + guarderLength

/-- Where it ends. -/
def Replayer.stackEnd (t : Replayer) : Word := tnrToStack t.tnr + BitVec.ofNat 32 tlsStackSize

/-- How the pages of a region come to be there. -/
inductive Mapping where
  | file | anon | reprotect | none
  deriving DecidableEq, Repr

/-- What is done for a region. -/
structure Restored where
  mapping : Mapping
  /-- Where memory is filled, and with what. -/
  fill : Option (Word × List Byte)
  /-- What is left of `ckpt_fd`. -/
  rest : List Byte
  deriving DecidableEq, Repr

/-- `read_from_file`: all of it, or the end. -/
def readFromFile (fd : List Byte) (sz : ℕ) : Except Fault (List Byte × List Byte) :=
  if sz ≤ fd.length then .ok (fd.take sz, fd.drop sz) else .error (.fatal "read error: %d\n")

/-- `skip_nbytes`: it can go beyond the end. -/
def skipNbytes (fd : List Byte) (n : Word) : List Byte := fd.drop n.toNat

/-- `region->start < _end && region->end >= _end`. -/
def holdsEnd (t : Replayer) (region : MemRegion) : Prop :=
  region.start < t.endSym ∧ t.endSym ≤ region.endAddr

instance (t : Replayer) (region : MemRegion) : Decidable (holdsEnd t region) :=
  inferInstanceAs (Decidable (_ ∧ _))

/-- How a region is mapped, and whether it is filled. -/
def mappingOf (t : Replayer) (region : MemRegion) (fn : List Byte) : Mapping × Bool :=
  if ¬isAnon fn then
    if isDev fn then (.anon, false)
    else if t.execFn = fn then (.reprotect, true)
    else (.file, true)
  else if holdsEnd t region then (.none, true)
  else (.anon, true)

/-- `do_restore_mem_region`, behind the `struct mem_region`. -/
def doRestoreMemRegion (t : Replayer) (region : MemRegion) (fd : List Byte) :
    Except Fault Restored := do
  let (name, fd) ← readFromFile fd region.fnSz.toNat
  let fn := name.takeWhile (· ≠ 0)
  let (size, fd) ← readFromFile fd 4
  let realRegionSz := leWord size
  if region.start = t.stackStart then do
    assert (region.endAddr = t.stackEnd)
      "region->end == (uintptr_t)(TNR_TO_STACK(tpd->tnr) + TLS_STACK_SIZE)"
    .ok ⟨.none, none, skipNbytes fd realRegionSz⟩
  else if fn = t.interpFn then .ok ⟨.none, none, skipNbytes fd realRegionSz⟩
  else if (mappingOf t region fn).2 = false then .ok ⟨(mappingOf t region fn).1, none, fd⟩
  else if holdsEnd t region then do
    let behind := region.endAddr - t.endSym
    let (data, fd) ← readFromFile (skipNbytes fd (realRegionSz - behind)) behind.toNat
    .ok ⟨(mappingOf t region fn).1, some (t.endSym, data), fd⟩
  else do
    let (data, fd) ← readFromFile fd realRegionSz.toNat
    .ok ⟨(mappingOf t region fn).1, some (region.start, data), fd⟩

/-- The loop of `replayer_main`: how much of the file each record took, and what is left
behind the end mark. -/
def restoreLoop (t : Replayer) : ℕ → List Byte → Except Fault (List ℕ × List Byte)
  | 0, _ => .error .diverges
  | fuel + 1, fd => do
    let (head, rest) ← readFromFile fd memRegionSize
    let region := MemRegion.ofBytes head
    if region.start = memRegionsEndMark then .ok ([], rest)
    else do
      let out ← doRestoreMemRegion t region rest
      let (taken, left) ← restoreLoop t fuel out.rest
      .ok ((fd.length - out.rest.length) :: taken, left)

/-! ### What is written -/

/-- **A region to be recorded**: not empty, of whole pages, with a name of C. -/
structure Entry where
  region : MemRegion
  fn : List Byte
  fn_ne_zero : ∀ b ∈ fn, b ≠ 0
  fnSz_eq : region.fnSz.toNat = fn.length + 1
  start_page : region.start % pageSize = 0
  end_page : region.endAddr % pageSize = 0
  nonempty : region.start < region.endAddr

/-- The records of regions, and what follows them. -/
def writeRegions (env : Env) (entries : List Entry) : Except Fault (List Byte) := do
  let records ← appendRegions env (entries.map fun e => (e.region, e.fn))
  .ok (records ++ trailer)

namespace Entry

variable (env : Env) (e : Entry)

/-- `real_region_sz`. -/
def realSz : Word := (payload env e.region e.fn).1

/-- The memory that is recorded. -/
def data : List Byte := (payload env e.region e.fn).2

def record : List Byte := recordBytes env e.region e.fn

/-- What the host sees of it. -/
def seen : Seen := ⟨e.region, e.fn ++ [0], e.data env⟩

theorem fnSz_eq_length : e.region.fnSz.toNat = (e.fn ++ [0]).length := by
  rw [e.fnSz_eq, List.length_append]
  rfl

theorem record_eq :
    e.record env = e.region.bytes ++ ((e.fn ++ [0]) ++ (leBytes (e.realSz env) ++ e.data env)) := by
  unfold record recordBytes
  rw [e.fnSz_eq_length, List.take_length]
  simp only [List.append_assoc]
  rfl

@[simp] theorem length_data : (e.data env).length = (e.realSz env).toNat := by
  unfold data realSz payload
  split_ifs <;> simp

theorem length_record :
    (e.record env).length = memRegionSize + (e.fn.length + 1) + 4 + (e.realSz env).toNat := by
  rw [record_eq]
  simp only [List.length_append, MemRegion.length_bytes, length_leBytes, length_data, List.length_cons,
    List.length_nil]
  omega

/-- No region begins at the end mark. -/
theorem start_ne_endMark : e.region.start ≠ memRegionsEndMark := by
  intro h
  have := e.start_page
  rw [h] at this
  exact absurd this (by decide)

variable {env e}

/-- The size is no negative number. -/
theorem toInt_realSz (h : Recordable env e.region e.fn) :
    (e.realSz env).toInt = (e.realSz env).toNat := by
  have hnonneg : 0 ≤ (e.realSz env).toInt := by
    unfold realSz payload
    split_ifs with hdev
    · decide
    · exact (h.resolve_left hdev).2
  rw [BitVec.toInt_eq_toNat_cond] at hnonneg ⊢
  split_ifs at hnonneg ⊢ <;> omega

end Entry

theorem writeRegions_eq_ok {env : Env} {entries : List Entry} {file : List Byte} :
    writeRegions env entries = .ok file ↔
      (∀ e ∈ entries, Recordable env e.region e.fn) ∧ file = entries.flatMap (Entry.record env) ++ trailer := by
  unfold writeRegions
  rw [bind_eq_ok]
  constructor
  · rintro ⟨records, hrecords, hfile⟩
    obtain ⟨hrec, rfl⟩ := appendRegions_eq_ok.mp hrecords
    refine ⟨fun e he => hrec _ (List.mem_map_of_mem he), ?_⟩
    rw [← Except.ok.inj hfile, List.flatMap_map]
    rfl
  · rintro ⟨hrec, rfl⟩
    refine ⟨_, appendRegions_eq_ok.mpr ⟨?_, rfl⟩, ?_⟩
    · simpa using hrec
    · rw [List.flatMap_map]
      rfl

/-! ### The host comes through -/

section Host

variable {file : List Byte} (pre rest : List Byte) {env : Env} {e : Entry}

theorem bytesAt_append {x : List Byte} {pos : ℤ} {n : ℕ} (hfile : file = pre ++ (x ++ rest))
    (hpos : pos = pre.length) (hn : n = x.length) : bytesAt file pos n = .ok x := by
  subst hfile hpos hn
  unfold bytesAt
  rw [if_pos] <;> simp

theorem wordAt_append {w : Word} {pos : ℤ} (hfile : file = pre ++ (leBytes w ++ rest))
    (hpos : pos = pre.length) : wordAt file pos = .ok w := by
  unfold wordAt
  rw [bytesAt_append pre rest hfile hpos (length_leBytes w).symm]
  exact congrArg Except.ok (leWord_leBytes w)

theorem regionAt_append {r : MemRegion} {pos : ℤ} (hfile : file = pre ++ (r.bytes ++ rest))
    (hpos : pos = pre.length) : regionAt file pos = .ok r := by
  unfold regionAt
  rw [bytesAt_append pre rest hfile hpos r.length_bytes.symm]
  exact congrArg Except.ok r.ofBytes_bytes

/-- A structure begins with `start`. -/
theorem wordAt_start {r : MemRegion} {pos : ℤ} (hfile : file = pre ++ (r.bytes ++ rest))
    (hpos : pos = pre.length) : wordAt file pos = .ok r.start := by
  refine wordAt_append pre (leBytesList r.words.tail ++ rest) ?_ hpos
  rw [hfile]
  rfl

/-- The host at a record. -/
theorem host_record (hfile : file = pre ++ (e.record env ++ rest))
    (hrec : Recordable env e.region e.fn) {pos : ℤ} (hpos : pos = pre.length) :
    wordAt file pos = .ok e.region.start ∧ regionAt file pos = .ok e.region ∧
      seenAt file e.region pos = .ok (e.seen env) ∧
      nextRegion file e.region pos = .ok ((pre ++ e.record env).length : ℤ) := by
  rw [e.record_eq, List.append_assoc] at hfile
  have hreal : wordAt file (regionPRealSz e.region pos) = .ok (e.realSz env) := by
    refine wordAt_append (pre ++ e.region.bytes ++ (e.fn ++ [0])) (e.data env ++ rest) ?_ ?_
    · rw [hfile]
      simp only [List.append_assoc]
    · unfold regionPRealSz
      simp only [hpos, e.fnSz_eq, List.length_append, MemRegion.length_bytes, List.length_cons,
        List.length_nil]
      omega
  have hfn : bytesAt file (pos + memRegionSize) e.region.fnSz.toNat = .ok (e.fn ++ [0]) := by
    refine bytesAt_append (pre ++ e.region.bytes) (leBytes (e.realSz env) ++ e.data env ++ rest) ?_ ?_ ?_
    · rw [hfile]
      simp only [List.append_assoc]
    · rw [hpos, List.length_append, MemRegion.length_bytes, Int.natCast_add]
    · exact e.fnSz_eq_length
  have hdata : bytesAt file (regionData e.region pos) (e.realSz env).toInt.toNat = .ok (e.data env) := by
    refine bytesAt_append (pre ++ e.region.bytes ++ (e.fn ++ [0]) ++ leBytes (e.realSz env)) rest ?_ ?_ ?_
    · rw [hfile]
      simp only [List.append_assoc]
    · unfold regionData regionPRealSz
      simp only [hpos, e.fnSz_eq, List.length_append, MemRegion.length_bytes, length_leBytes,
        List.length_cons, List.length_nil]
      omega
    · rw [Entry.toInt_realSz hrec, Int.toNat_natCast, e.length_data]
  refine ⟨wordAt_start pre _ hfile hpos, regionAt_append pre _ hfile hpos, ?_, ?_⟩
  · unfold seenAt
    rw [hfn, hreal]
    simp only [bind, Except.bind, hdata]
    rfl
  · unfold nextRegion
    rw [hreal]
    refine congrArg Except.ok ?_
    unfold regionData regionPRealSz
    rw [Entry.toInt_realSz hrec, hpos, List.length_append, e.length_record, e.fnSz_eq]
    omega

/-- The host at the end. -/
theorem host_trailer (hfile : file = pre ++ trailer) {pos : ℤ} (hpos : pos = pre.length) :
    wordAt file pos = .ok memRegionsEndMark :=
  have h : wordAt file pos = .ok endRegion.start := wordAt_start pre (leBytes ckptEndMark) hfile hpos
  h

/-- The two loops of the host come to the end mark, and the walk gives back what was
written. -/
theorem host_loops {entries : List Entry} (hrec : ∀ e ∈ entries, Recordable env e.region e.fn)
    (hfile : file = pre ++ (entries.flatMap (Entry.record env) ++ trailer)) {fuel : ℕ}
    (hfuel : entries.length < fuel) :
    checkLoop file fuel pre.length = .ok () ∧
      walkLoop file fuel pre.length = .ok (entries.map (Entry.seen env)) := by
  induction entries generalizing pre fuel with
  | nil =>
    obtain ⟨fuel, rfl⟩ := Nat.exists_eq_add_one_of_ne_zero (Nat.ne_zero_of_lt hfuel)
    unfold checkLoop walkLoop
    rw [host_trailer pre hfile rfl]
    exact ⟨rfl, rfl⟩
  | cons e entries ih =>
    obtain ⟨fuel, rfl⟩ := Nat.exists_eq_add_one_of_ne_zero (Nat.ne_zero_of_lt hfuel)
    obtain ⟨hhead, htail⟩ := List.forall_mem_cons.mp hrec
    rw [List.flatMap_cons, List.append_assoc] at hfile
    obtain ⟨hstart, hregion, hseen, hnext⟩ := host_record pre _ hfile hhead rfl
    obtain ⟨hcheck, hwalk⟩ := ih (pre ++ e.record env) htail
      (by rw [hfile]; simp only [List.append_assoc]) (Nat.lt_of_succ_lt_succ hfuel)
    have hinside : ¬(file.length : ℤ) ≤ pre.length := by
      have hlen := congrArg List.length hfile
      simp only [List.length_append, e.length_record] at hlen
      unfold memRegionSize at hlen
      omega
    have hnonempty : ¬e.region.endAddr ≤ e.region.start := BitVec.not_le.mpr e.nonempty
    unfold checkLoop walkLoop
    simp only [hstart, hregion, hseen, hnext, hcheck, hwalk, bind, Except.bind,
      if_neg e.start_ne_endMark, if_neg hinside, if_neg hnonempty]
    exact ⟨trivial, rfl⟩

/-- Each record takes some bytes. -/
theorem length_le_flatMap_record (env : Env) (entries : List Entry) :
    entries.length ≤ (entries.flatMap (Entry.record env)).length := by
  induction entries with
  | nil => exact le_rfl
  | cons e entries ih =>
    rw [List.flatMap_cons, List.length_append, List.length_cons, e.length_record]
    unfold memRegionSize
    omega

end Host

/-! ### The replayer comes through -/

section Replayer

variable {t : Replayer} {env : Env} {e : Entry}

theorem readFromFile_append {x rest : List Byte} {n : ℕ} (hn : n = x.length) :
    readFromFile (x ++ rest) n = .ok (x, rest) := by
  subst hn
  unfold readFromFile
  rw [if_pos] <;> simp

theorem skipNbytes_append {x rest : List Byte} {n : Word} (hn : n.toNat = x.length) :
    skipNbytes (x ++ rest) n = rest := by
  unfold skipNbytes
  rw [hn, List.drop_left]

/-- A name that is none is no device. -/
theorem not_isDev_of_isAnon {fn : List Byte} (h : isAnon fn) : ¬isDev fn := by
  intro hdev
  have hhead : fn.head? = some (chr '/') := by
    cases fn with
    | nil => exact absurd hdev (by decide)
    | cons b fn => exact congrArg List.head? hdev
  rcases h with rfl | h
  · cases hhead
  · rw [h] at hhead
    exact absurd hhead (by decide)

/-- The end of a page is the end of the page it ends. -/
theorem roundUp_page {b : Word} (h : b % pageSize = 0) :
    b + pageSize - 1 - (b + pageSize - 1) % pageSize = b := by
  have hb : b.toNat % 4096 = 0 := congrArg BitVec.toNat h
  have hlt := b.isLt
  apply BitVec.eq_of_toNat_eq
  simp only [BitVec.toNat_sub, BitVec.toNat_add, BitVec.toNat_umod, show pageSize.toNat = 4096 from rfl,
    show (1 : Word).toNat = 1 from rfl]
  omega

/-- What is anonymous is recorded in full. -/
theorem realSz_of_anon (hanon : isAnon e.fn) : e.realSz env = e.region.endAddr - e.region.start := by
  unfold Entry.realSz payload
  rw [if_neg (not_isDev_of_isAnon hanon)]
  show recordedSize env e.region e.fn = _
  unfold recordedSize getAvalSize
  rw [if_pos hanon]
  have hend : e.region.start + (e.region.endAddr - e.region.start) = e.region.endAddr := by
    rw [BitVec.add_comm, BitVec.sub_add_cancel]
  simp only [hend, roundUp_page e.end_page]

/-- The name that is read is the one that was written. -/
theorem takeWhile_fn : (e.fn ++ [0]).takeWhile (fun b => decide (b ≠ 0)) = e.fn := by
  rw [List.takeWhile_append_of_pos]
  · simp
  · intro b hb
    simpa using e.fn_ne_zero b hb

/-- Some bytes are skipped, and the others are read. -/
theorem readFromFile_skipNbytes {x rest : List Byte} {n behind : Word} (hn : n.toNat = x.length)
    (hle : behind ≤ n) :
    readFromFile (skipNbytes (x ++ rest) (n - behind)) behind.toNat =
      .ok (x.drop (n - behind).toNat, rest) := by
  have hsub : (n - behind).toNat = n.toNat - behind.toNat := BitVec.toNat_sub_of_le hle
  have hle' : behind.toNat ≤ n.toNat := hle
  unfold skipNbytes
  rw [List.drop_append_of_le_length (by omega)]
  exact readFromFile_append (by rw [List.length_drop]; omega)

/-- **The region of the thread's stack is the thread's stack.** -/
def StackWhole (t : Replayer) (region : MemRegion) : Prop :=
  region.start = t.stackStart → region.endAddr = t.stackEnd

/-- The region that contains `_end` is anonymous. -/
def EndAnon (t : Replayer) (e : Entry) : Prop :=
  e.region.start ≤ t.endSym → t.endSym < e.region.endAddr → isAnon e.fn

/-- Nothing is recorded of what is not filled. -/
theorem data_of_no_fill (h : (mappingOf t e.region e.fn).2 = false) : e.data env = [] := by
  have hdev : isDev e.fn := by
    unfold mappingOf at h
    split_ifs at h
    assumption
  unfold Entry.data payload
  rw [if_pos hdev]

/-- What lies behind `_end` is recorded. -/
theorem behind_le_realSz (hend : EndAnon t e) (hholds : holdsEnd t e.region) :
    e.region.endAddr - t.endSym ≤ e.realSz env := by
  obtain ⟨hlt, hle⟩ := hholds
  by_cases hinside : t.endSym < e.region.endAddr
  · rw [realSz_of_anon (hend (BitVec.le_of_lt hlt) hinside)]
    bv_omega
  · -- the region ends where the image does: nothing lies behind it
    have heq : t.endSym = e.region.endAddr := BitVec.le_antisymm hle (BitVec.not_lt.mp hinside)
    rw [heq, BitVec.sub_self]
    exact Nat.zero_le _

/-- Whichever way a region goes, what is left behind its record is the rest. -/
theorem doRestoreMemRegion_record (env : Env) (hend : EndAnon t e) (hstack : StackWhole t e.region)
    (rest : List Byte) :
    ∃ mapping fill, doRestoreMemRegion t e.region
        ((e.fn ++ [0]) ++ (leBytes (e.realSz env) ++ (e.data env ++ rest))) =
      .ok ⟨mapping, fill, rest⟩ := by
  have hskip : skipNbytes (e.data env ++ rest) (e.realSz env) = rest :=
    skipNbytes_append (e.length_data env).symm
  unfold doRestoreMemRegion
  simp only [readFromFile_append e.fnSz_eq_length, readFromFile_append (length_leBytes _).symm, bind,
    Except.bind, leWord_leBytes, takeWhile_fn, hskip]
  by_cases hstart : e.region.start = t.stackStart
  · simp only [if_pos hstart, assert_of_true (hstack hstart)]
    exact ⟨_, _, rfl⟩
  · rw [if_neg hstart]
    by_cases hinterp : e.fn = t.interpFn
    · rw [if_pos hinterp]
      exact ⟨_, _, rfl⟩
    · rw [if_neg hinterp]
      by_cases hfill : (mappingOf t e.region e.fn).2 = false
      · rw [if_pos hfill, data_of_no_fill hfill]
        exact ⟨_, _, rfl⟩
      · rw [if_neg hfill]
        by_cases hholds : holdsEnd t e.region
        · simp only [if_pos hholds, readFromFile_skipNbytes (e.length_data env).symm
            (behind_le_realSz hend hholds)]
          exact ⟨_, _, rfl⟩
        · simp only [if_neg hholds, readFromFile_append (e.length_data env).symm]
          exact ⟨_, _, rfl⟩

/-- The stack has to be the stack. -/
theorem doRestoreMemRegion_half_stack (h : ¬StackWhole t e.region) (rest : List Byte) :
    doRestoreMemRegion t e.region ((e.fn ++ [0]) ++ (leBytes (e.realSz env) ++ rest)) = .error
      (.assertion "region->end == (uintptr_t)(TNR_TO_STACK(tpd->tnr) + TLS_STACK_SIZE)") := by
  obtain ⟨hstart, hend⟩ := Classical.not_imp.mp h
  unfold doRestoreMemRegion
  simp only [readFromFile_append e.fnSz_eq_length, readFromFile_append (length_leBytes _).symm, bind,
    Except.bind, if_pos hstart, assert_of_false hend]

/-- The loop of `replayer_main` takes record after record, and the end mark. -/
theorem restoreLoop_records {entries : List Entry} (hend : ∀ e ∈ entries, EndAnon t e)
    (hstack : ∀ e ∈ entries, StackWhole t e.region) {fuel : ℕ} (hfuel : entries.length < fuel) :
    restoreLoop t fuel (entries.flatMap (Entry.record env) ++ trailer) =
      .ok (entries.map fun e => (e.record env).length, leBytes ckptEndMark) := by
  induction entries generalizing fuel with
  | nil =>
    obtain ⟨fuel, rfl⟩ := Nat.exists_eq_add_one_of_ne_zero (Nat.ne_zero_of_lt hfuel)
    rw [List.flatMap_nil, List.nil_append, trailer, restoreLoop,
      readFromFile_append endRegion.length_bytes.symm]
    simp only [bind, Except.bind, MemRegion.ofBytes_bytes]
    rfl
  | cons e entries ih =>
    obtain ⟨fuel, rfl⟩ := Nat.exists_eq_add_one_of_ne_zero (Nat.ne_zero_of_lt hfuel)
    obtain ⟨hend₁, hend⟩ := List.forall_mem_cons.mp hend
    obtain ⟨hstack₁, hstack⟩ := List.forall_mem_cons.mp hstack
    have hrest := ih hend hstack (Nat.lt_of_succ_lt_succ hfuel)
    obtain ⟨mapping, fill, hrestore⟩ := doRestoreMemRegion_record env hend₁ hstack₁
      (entries.flatMap (Entry.record env) ++ trailer)
    have hsplit : (e :: entries).flatMap (Entry.record env) ++ trailer =
        e.region.bytes ++ ((e.fn ++ [0]) ++ (leBytes (e.realSz env) ++ (e.data env ++
          (entries.flatMap (Entry.record env) ++ trailer)))) := by
      rw [List.flatMap_cons, e.record_eq]
      simp only [List.append_assoc]
    have htaken : ((e :: entries).flatMap (Entry.record env) ++ trailer).length -
        (entries.flatMap (Entry.record env) ++ trailer).length = (e.record env).length := by
      rw [List.flatMap_cons, List.append_assoc, List.length_append, Nat.add_sub_cancel]
    rw [restoreLoop, List.map_cons, ← htaken, hsplit, readFromFile_append e.region.length_bytes.symm]
    simp only [bind, Except.bind, MemRegion.ofBytes_bytes, if_neg e.start_ne_endMark, hrestore, hrest]

end Replayer

/-- **The round trip of a checkpoint.** -/
theorem ckpt_round_trip {env : Env} {entries : List Entry} {body : List Byte}
    (hbody : writeRegions env entries = .ok body) {t : Replayer} (hend : ∀ e ∈ entries, EndAnon t e)
    (hstack : ∀ e ∈ entries, StackWhole t e.region) (head : List Byte) :
    checkCkpt head.length (head ++ body) = .ok () ∧
      walk head.length (head ++ body) = .ok (entries.map (Entry.seen env)) ∧
      restoreLoop t (body.length + 1) body =
        .ok (entries.map fun e => (e.record env).length, leBytes ckptEndMark) := by
  obtain ⟨hrec, rfl⟩ := writeRegions_eq_ok.mp hbody
  have hlen := length_le_flatMap_record env entries
  have hmark : wordAt (head ++ (entries.flatMap (Entry.record env) ++ trailer))
      (((head ++ (entries.flatMap (Entry.record env) ++ trailer)).length : ℤ) - 4) = .ok ckptEndMark := by
    refine wordAt_append (head ++ entries.flatMap (Entry.record env) ++ endRegion.bytes) [] ?_ ?_
    · unfold trailer
      simp only [List.append_assoc, List.append_nil]
    · unfold trailer
      simp only [List.length_append, length_leBytes]
      omega
  have hfuel : entries.length < (head ++ (entries.flatMap (Entry.record env) ++ trailer)).length + 1 := by
    simp only [List.length_append]
    omega
  obtain ⟨hcheck, hwalk⟩ := host_loops head hrec rfl hfuel
  refine ⟨?_, hwalk, restoreLoop_records hend hstack (by simp only [List.length_append]; omega)⟩
  unfold checkCkpt
  rw [hmark]
  exact hcheck

/-! ### A checkpoint -/

/-- Two files that are mapped, the second shorter than its mapping. -/
def someEnv : Env :=
  ⟨fun _ => 0, fun fn => if fn = str "/lib/libinterp.so" then some 0x5000 else some 0x1234⟩

/-- The first thread replays; the image of the interpreter ends within a page. -/
def someReplayer : Replayer := ⟨0, str "/lib/libinterp.so", str "/bin/true", 0x30800⟩

def devEntry : Entry :=
  ⟨⟨0x10000, 0x11000, 3, 0, 10⟩, str "/dev/zero", by simp [str, chr], by simp [str], by decide, by decide,
    by decide⟩

def interpEntry : Entry :=
  ⟨⟨0x20000, 0x22000, 5, 0, 18⟩, str "/lib/libinterp.so", by simp [str, chr], by simp [str], by decide,
    by decide, by decide⟩

def stackEntry : Entry :=
  ⟨⟨0x4000, 0x6000, 3, 0, 1⟩, [], by decide, by decide, by decide, by decide, by decide⟩

def endEntry : Entry :=
  ⟨⟨0x30000, 0x32000, 3, 0, 1⟩, [], by decide, by decide, by decide, by decide, by decide⟩

def fileEntry : Entry :=
  ⟨⟨0x40000, 0x44000, 1, 0, 10⟩, str "/bin/true", by simp [str, chr], by simp [str], by decide, by decide,
    by decide⟩

instance (env : Env) (region : MemRegion) (fn : List Byte) : Decidable (Recordable env region fn) :=
  inferInstanceAs (Decidable (_ ∨ _))

instance (t : Replayer) (region : MemRegion) : Decidable (StackWhole t region) :=
  inferInstanceAs (Decidable (_ → _))

instance (t : Replayer) (e : Entry) : Decidable (EndAnon t e) :=
  inferInstanceAs (Decidable (_ → _ → _))

/-- A region of each kind. -/
theorem ckpt_round_trip_kinds :
    let entries := [devEntry, interpEntry, stackEntry, endEntry, fileEntry]
    ∃ body, writeRegions someEnv entries = .ok body ∧
      checkCkpt 3 ([1, 2, 3] ++ body) = .ok () ∧
      walk 3 ([1, 2, 3] ++ body) = .ok (entries.map (Entry.seen someEnv)) ∧
      restoreLoop someReplayer (body.length + 1) body =
        .ok (entries.map fun e => (e.record someEnv).length, leBytes ckptEndMark) ∧
      fileEntry.realSz someEnv = 0x2000 := by
  have hbody : writeRegions someEnv [devEntry, interpEntry, stackEntry, endEntry, fileEntry] = .ok _ :=
    writeRegions_eq_ok.mpr ⟨by decide +kernel, rfl⟩
  obtain ⟨hcheck, hwalk, hrestore⟩ :=
    ckpt_round_trip hbody (t := someReplayer) (by decide +kernel) (by decide +kernel) [1, 2, 3]
  exact ⟨_, hbody, hcheck, hwalk, hrestore, by decide +kernel⟩

/-- A region that begins like the thread's stack and ends before it. -/
def halfStackEntry : Entry :=
  ⟨⟨0x4000, 0x5000, 3, 0, 1⟩, [], by decide, by decide, by decide, by decide, by decide⟩

/-- The replayer does not come through: it asserts that this region is its stack. -/
theorem half_stack_not_restored :
    ∃ body, writeRegions someEnv [halfStackEntry] = .ok body ∧ EndAnon someReplayer halfStackEntry ∧
      restoreLoop someReplayer (body.length + 1) body = .error
        (.assertion "region->end == (uintptr_t)(TNR_TO_STACK(tpd->tnr) + TLS_STACK_SIZE)") := by
  have hbody : writeRegions someEnv [halfStackEntry] = .ok _ := writeRegions_eq_ok.mpr ⟨by decide +kernel, rfl⟩
  refine ⟨_, hbody, by decide +kernel, ?_⟩
  rw [List.flatMap_cons, halfStackEntry.record_eq, restoreLoop]
  simp only [List.append_assoc, readFromFile_append halfStackEntry.region.length_bytes.symm, bind,
    Except.bind, MemRegion.ofBytes_bytes, if_neg halfStackEntry.start_ne_endMark]
  rw [← List.append_assoc, doRestoreMemRegion_half_stack (by decide +kernel)]

end Snitchaser.Checkpoint
