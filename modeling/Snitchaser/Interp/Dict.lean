import Snitchaser.Common.Bithacks
import Snitchaser.Foundation.Congruential
import Snitchaser.Foundation.OpenAddressing
import Mathlib.Data.Finset.Image

/-!
# The dictionary

`interp/dict.c`: the hash table in which the code cache finds the compiled block of
an original address. Slots lie in one array whose size is a power of two; a key is
looked for at `key`, `5 key + 1`, … modulo the size; nothing is removed; and when
`active` passes two thirds of the size, everything is inserted again into a table
twice as large.

## The model

The functions of `dict.c` under their own names, on 32-bit words that wrap. A
table is a function from slot numbers, all zero after `create_dict`'s `memset`.
`Dict` carries the comment of `dict.h` as a field: `mask` is the size minus one, and
the size is a power of two. Allocation succeeds; but where the `int` size handed to
the allocator has wrapped, `createDict` ends in `Fault.sizeWrapped`.

## What is proved

* `getEntry_spec` — the search stops where open addressing says it does, as long
  as one slot is free: `probe_surjective` is the arithmetic of `5 i + 1`.
* `probe_visits_every_slot` — the first `size` probes are all slots, each once, so `NULL`
  means a full table.
* `dictInsert_spec` — an insert keeps the invariant `Dict.Valid` and updates the
  map at one key, whether or not the table grows.
* `insertAll_finite_map` — **the dictionary is a finite map** after any sequence
  of inserts.
-/

namespace Snitchaser.Interp

open Foundation Foundation.OpenAddressing Bithacks

/-- `NO_SUCH_KEY`: the key of a free slot. -/
def noSuchKey : Word := 0

/-- `DUMMY_KEY`: the key of a removed slot; nothing is ever removed. -/
def dummyKey : Word := 1

/-- `DEFAULT_DICT_SLOTS`. -/
def defaultDictSlots : Word := 100000

/-- `struct dict_entry_t`. -/
@[ext]
structure DictEntry where
  /-- The key, or `NO_SUCH_KEY`. -/
  key : Word
  /-- The value. -/
  value : Word
  deriving DecidableEq, Repr

/-- `struct dict_t`. -/
structure Dict where
  /-- The size minus one. -/
  mask : Word
  /-- How many inserts the table has taken since it was created. -/
  active : Word
  /-- The slots. -/
  table : Word → DictEntry
  /-- "size is always power of 2". -/
  size_pow2 : ∃ k ≤ 31, mask.toNat + 1 = 2 ^ k

/-- `DICT_REAL_SZ(nr)`: the size of the header and of `nr` entries. -/
def dictRealSz (nr : Word) : Word := 8 + 8 * nr

theorem createDict_pow2 {maxSlots : Word} (h : 0 < maxSlots.toInt) :
    ∃ k ≤ 31, (pow2roundup maxSlots - 1).toNat + 1 = 2 ^ k := by
  have hr := pow2roundup_toNat h
  have hlt : maxSlots.toNat < 2 ^ 31 := by
    rw [BitVec.toInt_eq_toNat_cond] at h
    split at h <;> omega
  have hsize : (maxSlots.toNat - 1).size ≤ 31 := Nat.size_le.mpr (by omega)
  have hpos := Nat.two_pow_pos (maxSlots.toNat - 1).size
  refine ⟨_, hsize, ?_⟩
  rw [BitVec.toNat_sub_of_le (by rw [BitVec.le_def, hr]; exact hpos), hr]
  exact Nat.sub_add_cancel hpos

/-- `create_dict(max_slots)`. -/
def createDict (maxSlots : Word) : Except Fault Dict :=
  if h : 0 < maxSlots.toInt then
    if (dictRealSz (pow2roundup maxSlots)).toInt = 8 + 8 * (pow2roundup maxSlots).toNat then
      .ok { mask := pow2roundup maxSlots - 1, active := 0, table := fun _ => ⟨0, 0⟩
            size_pow2 := createDict_pow2 h }
    else .error .sizeWrapped
  else .error (.assertion "max_slots > 0")

/-- The loop of `get_entry`, with `n` more slots to check, from position `i`. -/
def getEntryLoop (dict : Dict) (key : Word) : ℕ → Word → Except Fault (Option Word)
  | 0, _ => .ok none
  | n + 1, i =>
    let ep := dict.table (i &&& dict.mask)
    if ep.key = key ∨ ep.key = noSuchKey then .ok (some (i &&& dict.mask))
    else if ep.key = dummyKey then
      .error (.fatal "dict %p contains dummy key, that shouldn't happen\n")
    else getEntryLoop dict key n ((i <<< 2) + i + 1)

/-- `get_entry(dict, key)`: the slot the search for `key` ends at. -/
def getEntry (dict : Dict) (key : Word) : Except Fault (Option Word) :=
  getEntryLoop dict key (max 1 (dict.mask + 1).toInt.toNat) (key &&& dict.mask)

/-- `dict_insert_clean(dict, key, value)`. -/
def dictInsertClean (dict : Dict) (key value : Word) : Except Fault Dict := do
  match ← getEntry dict key with
  | none => .error (.assertion "ep != NULL")
  | some slot =>
    .ok { dict with table := Function.update dict.table slot ⟨key, value⟩
                    active := dict.active + 1 }

/-- One round of the loop of `copy_dict`. -/
def copyEntry (dst : Dict) (oep : DictEntry) : Except Fault Dict :=
  if oep.key = noSuchKey ∨ oep.key = dummyKey then .ok dst
  else dictInsertClean dst oep.key oep.value

/-- `copy_dict(dst, src)`. -/
def copyDict (dst src : Dict) : Except Fault Dict := do
  assert (src.mask ≤ dst.mask) "dst->mask >= src->mask"
  (List.range (src.mask + 1).toInt.toNat).foldlM
    (fun dst i => copyEntry dst (src.table (BitVec.ofNat 32 i))) dst

/-- The table `dict_insert` goes on with: a new one twice as large when `active`
has passed two thirds of the size. -/
def growDict (dict : Dict) : Except Fault Dict :=
  if (2 * dict.mask + 2).toInt < (dict.active * 3).toInt then do
    let newDict ← createDict (dict.mask * 2 + 1)
    copyDict newDict dict
  else .ok dict

/-- The table `dict_insert` starts with: a new one if there is none yet. -/
def openDict : Option Dict → Except Fault Dict
  | none => createDict defaultDictSlots
  | some dict => .ok dict

/-- `dict_insert(pdict, key, value)`: the dictionary `*pdict` afterwards. -/
def dictInsert (pdict : Option Dict) (key value : Word) : Except Fault Dict := do
  assert (key ≠ 0) "key != 0"
  let dict ← openDict pdict
  let dict ← growDict dict
  dictInsertClean dict key value

/-- `dict_get(dict, key)`. -/
def dictGet (dict : Option Dict) (key : Word) : Except Fault Word :=
  match dict with
  | none => .ok 0
  | some dict => do
    match ← getEntry dict key with
    | none => .ok 0
    | some slot =>
      let ep := dict.table slot
      if ep.key = noSuchKey then .ok 0
      else if ep.key = dummyKey then .ok 0
      else do
        assert (ep.key = key) "ep->key == key"
        .ok ep.value

/-- A sequence of inserts. -/
def insertAll (pdict : Option Dict) (ops : List (Word × Word)) : Except Fault (Option Dict) :=
  ops.foldlM (fun d op => some <$> dictInsert d op.1 op.2) pdict

/-! ### The table as open addressing sees it -/

/-- What a slot holds. -/
def DictEntry.slot (e : DictEntry) : Option (Word × Word) :=
  if e.key = noSuchKey then none else some (e.key, e.value)

namespace Dict

/-- The table. -/
def view (d : Dict) : Table Word Word Word := fun i => (d.table i).slot

/-- The number of slots. -/
def size (d : Dict) : ℕ := d.mask.toNat + 1

/-- The slot numbers. -/
def slots (d : Dict) : Finset Word := (Finset.range d.size).image (BitVec.ofNat 32)

/-- `i = (i << 2) + i + 1`. -/
def next (i : Word) : Word := (i <<< 2) + i + 1

/-- The slots `get_entry` looks at for `key`. -/
def probe (mask key : Word) (n : ℕ) : Word := next^[n] (key &&& mask) &&& mask

theorem slot_eq_some {e : DictEntry} {k v : Word} :
    e.slot = some (k, v) ↔ e.key ≠ noSuchKey ∧ e.key = k ∧ e.value = v := by
  unfold DictEntry.slot
  split_ifs with h <;> simp [h]

theorem view_update (d : Dict) (slot key value active : Word) (hk : key ≠ noSuchKey) :
    view { d with table := Function.update d.table slot ⟨key, value⟩, active := active } =
      Function.update d.view slot (some (key, value)) := by
  funext i
  unfold view
  by_cases hi : i = slot
  · subst hi
    simp [DictEntry.slot, hk]
  · simp [Function.update_of_ne hi]

theorem toNat_and_mask (d : Dict) (i : Word) : (i &&& d.mask).toNat = i.toNat % d.size := by
  obtain ⟨k, _, hk⟩ := d.size_pow2
  rw [size, hk, BitVec.toNat_and, ← Nat.and_two_pow_sub_one_eq_mod, ← hk, Nat.add_sub_cancel]

theorem size_pos (d : Dict) : 0 < d.size := Nat.succ_pos _

theorem size_le (d : Dict) : d.size ≤ 2 ^ 32 := d.mask.isLt

theorem card_slots (d : Dict) : d.slots.card = d.size := by
  unfold slots
  rw [Finset.card_image_of_injOn, Finset.card_range]
  intro i hi j hj h
  simp only [Finset.coe_range, Set.mem_Iio] at hi hj
  have := congrArg BitVec.toNat h
  have := d.size_le
  simp only [BitVec.toNat_ofNat] at *
  omega

theorem mem_slots (d : Dict) (i : Word) : i ∈ d.slots ↔ i.toNat < d.size := by
  unfold slots
  rw [Finset.mem_image]
  constructor
  · rintro ⟨n, hn, rfl⟩
    exact (BitVec.toNat_ofNat .. ▸ Nat.mod_le n (2 ^ 32)).trans_lt (Finset.mem_range.mp hn)
  · intro hi
    exact ⟨i.toNat, Finset.mem_range.mpr hi, BitVec.ofNat_toNat ..⟩

theorem probe_toNat_lt (d : Dict) (key : Word) (n : ℕ) : (probe d.mask key n).toNat < d.size := by
  rw [probe, toNat_and_mask]
  exact Nat.mod_lt _ d.size_pos

/-! ### The probe sequence -/

theorem next_toNat (i : Word) : (next i).toNat = (5 * i.toNat + 1) % 2 ^ 32 := by
  have := i.isLt
  simp only [next, BitVec.toNat_add, BitVec.toNat_shiftLeft, Nat.shiftLeft_eq]
  change ((i.toNat * 2 ^ 2 % 2 ^ 32 + i.toNat) % 2 ^ 32 + 1) % 2 ^ 32 = _
  omega

theorem iterate_next_modEq (i : Word) (n : ℕ) :
    ((next^[n] i).toNat : ℤ) ≡ (Congruential.affine 5 1)^[n] i.toNat [ZMOD 2 ^ 32] := by
  induction n with
  | zero => rfl
  | succ n ih =>
    rw [Function.iterate_succ_apply', Function.iterate_succ_apply', next_toNat]
    unfold Congruential.affine at ih ⊢
    push_cast
    exact (Int.mod_modEq _ _).trans ((ih.mul_left 5).add_right 1)

/-- **The probe sequence visits every slot** within `size` steps. -/
theorem probe_surjective (d : Dict) (key : Word) {s : Word} (hs : s.toNat < d.size) :
    ∃ n < d.size, probe d.mask key n = s := by
  obtain ⟨k, hk31, hk⟩ := d.size_pow2
  have hsize : d.size = 2 ^ k := hk
  obtain ⟨n, hn, hr⟩ := Congruential.exists_iterate_emod_eq (a := 5) (c := 1) rfl rfl k
    (key &&& d.mask).toNat (hsize ▸ hs)
  refine ⟨n, hsize ▸ hn, BitVec.eq_of_toNat_eq ?_⟩
  have hmod : ((next^[n] (key &&& d.mask)).toNat : ℤ) % 2 ^ k = s.toNat := by
    rw [← hr]
    exact (iterate_next_modEq _ n).of_dvd (pow_dvd_pow 2 (by omega))
  rw [probe, toNat_and_mask, hsize]
  exact_mod_cast hmod

/-- Its first `size` members are the slots, in another order. -/
theorem probe_perm (d : Dict) (key : Word) :
    ((List.range d.size).map (probe d.mask key)).Perm ((List.range d.size).map (BitVec.ofNat 32)) := by
  have hnodup : ((List.range d.size).map (BitVec.ofNat 32)).Nodup := by
    refine List.nodup_range.map_on fun i hi j hj h => ?_
    have hle := d.size_le
    rw [List.mem_range] at hi hj
    rw [← BitVec.toNat_inj, BitVec.toNat_ofNat, BitVec.toNat_ofNat] at h
    omega
  have hsubset : (List.range d.size).map (BitVec.ofNat 32) ⊆
      (List.range d.size).map (probe d.mask key) := by
    intro s hs
    obtain ⟨i, hi, rfl⟩ := List.mem_map.mp hs
    have hslot : (BitVec.ofNat 32 i).toNat < d.size :=
      (BitVec.toNat_ofNat i 32 ▸ Nat.mod_le i (2 ^ 32)).trans_lt (List.mem_range.mp hi)
    obtain ⟨n, hn, hprobe⟩ := d.probe_surjective key hslot
    exact List.mem_map.mpr ⟨n, List.mem_range.mpr hn, hprobe⟩
  -- all slots occur among as many members
  refine ((List.subperm_of_subset hnodup hsubset).perm_of_length_le ?_).symm
  rw [List.length_map, List.length_map]

/-! ### The invariant -/

/-- The table is a well-placed one that holds the map `m`, and `active` counts at
least the slots taken. -/
structure Holds (d : Dict) (m : Word → Option Word) : Prop where
  /-- Every key is where its search finds it. -/
  placed : WellPlaced d.view (probe d.mask)
  /-- The table holds the pairs of `m`. -/
  represents : Represents d.view m
  /-- Repeated inserts of one key are counted again. -/
  load_le : load d.view d.slots ≤ d.active.toNat
  /-- The `int` sizes have not wrapped. -/
  size_le : d.size ≤ 2 ^ 27
  /-- No slot is marked as removed. -/
  no_dummy : m dummyKey = none

theorem Holds.key_ne_dummy {d : Dict} {m : Word → Option Word} (h : d.Holds m) (i : Word) :
    (d.table i).key ≠ dummyKey := by
  intro hk
  have hv : d.view i = some (dummyKey, (d.table i).value) :=
    slot_eq_some.mpr ⟨hk ▸ by decide, hk, rfl⟩
  have := (h.represents dummyKey _).mpr ⟨i, hv⟩
  rw [h.no_dummy] at this
  cases this

theorem Holds.noSuchKey_eq_none {d : Dict} {m : Word → Option Word} (h : d.Holds m) :
    m noSuchKey = none := by
  cases hm : m noSuchKey with
  | none => rfl
  | some v =>
    obtain ⟨s, hs⟩ := (h.represents _ _).mp hm
    obtain ⟨hne, he, _⟩ := slot_eq_some.mp hs
    exact absurd he hne

/-! ### Searching -/

/-- The loop of `get_entry` goes on to the position its search stops at. -/
theorem getEntryLoop_eq {d : Dict} {key : Word} (hd : ∀ i, (d.table i).key ≠ dummyKey) {n : ℕ}
    (hs : Stops d.view (probe d.mask key) key n) (fuel j : ℕ) (hj : j ≤ n) (hn : n < j + fuel) :
    getEntryLoop d key fuel (next^[j] (key &&& d.mask)) = .ok (some (probe d.mask key n)) := by
  induction fuel generalizing j with
  | zero => omega
  | succ fuel ih =>
    simp only [getEntryLoop]
    rw [show next^[j] (key &&& d.mask) &&& d.mask = probe d.mask key j from rfl]
    obtain rfl | hlt := hj.eq_or_lt
    · have hstop : (d.table (probe d.mask key j)).key = key ∨
          (d.table (probe d.mask key j)).key = noSuchKey := by
        by_cases h0 : (d.table (probe d.mask key j)).key = noSuchKey
        · exact .inr h0
        · exact .inl (hs.stop _ (slot_eq_some.mpr ⟨h0, rfl, rfl⟩))
      rw [if_pos hstop]
    · obtain ⟨e, he, hne⟩ := hs.blocked j hlt
      obtain ⟨h0, hk, _⟩ := slot_eq_some.mp (show (d.table _).slot = some (e.1, e.2) from he)
      have hnext := ih (j + 1) hlt (by omega)
      rw [Function.iterate_succ_apply'] at hnext
      rw [if_neg (by rw [hk]; exact not_or.mpr ⟨hne, hk ▸ h0⟩), if_neg (hd _)]
      exact hnext

/-- The `int` size is the number of slots. -/
theorem toInt_size {d : Dict} (h : d.size ≤ 2 ^ 30) : (d.mask + 1).toInt = d.size := by
  have hnat : (d.mask + 1).toNat = d.size := by
    rw [BitVec.toNat_add]
    exact Nat.mod_eq_of_lt (h.trans_lt (by decide))
  rw [BitVec.toInt_eq_toNat_of_lt (by omega), hnat]

/-- `get_entry` makes as many rounds as there are slots. -/
theorem getEntry_eq_loop {d : Dict} (h : d.size ≤ 2 ^ 30) (key : Word) :
    getEntry d key = getEntryLoop d key d.size (key &&& d.mask) := by
  have hsize : max 1 (d.mask + 1).toInt.toNat = d.size := by
    rw [toInt_size h, Int.toNat_natCast]
    exact max_eq_right d.size_pos
  rw [getEntry, hsize]

/-- **A search in a table that is not full** ends at the slot open addressing
says: never in `NULL`, never at a removed slot. -/
theorem getEntry_spec {d : Dict} {m : Word → Option Word} (h : d.Holds m)
    (hroom : d.active.toNat < d.size) (key : Word) :
    ∃ n, Stops d.view (probe d.mask key) key n ∧
      getEntry d key = .ok (some (probe d.mask key n)) := by
  obtain ⟨s, hs, hfree⟩ := exists_free_of_load_lt
    (lt_of_le_of_lt h.load_le (hroom.trans_eq d.card_slots.symm))
  obtain ⟨N, hN, rfl⟩ := d.probe_surjective key ((d.mem_slots s).mp hs)
  obtain ⟨n, hn, hstops⟩ := exists_stops d.view (probe d.mask key) key (N := N)
    fun e he => by rw [hfree] at he; cases he
  refine ⟨n, hstops, ?_⟩
  rw [getEntry_eq_loop (h.size_le.trans (by decide))]
  exact getEntryLoop_eq h.key_ne_dummy hstops d.size 0 (Nat.zero_le n) (by omega)

/-- A search that ends in `NULL` has seen another key at every position. -/
theorem key_ne_of_getEntryLoop_none {d : Dict} {key : Word} {n : ℕ} {i : Word}
    (h : getEntryLoop d key n i = .ok none) {j : ℕ} (hj : j < n) :
    (d.table (next^[j] i &&& d.mask)).key ≠ noSuchKey ∧ (d.table (next^[j] i &&& d.mask)).key ≠ key := by
  induction n generalizing i j with
  | zero => exact absurd hj (Nat.not_lt_zero j)
  | succ n ih =>
    simp only [getEntryLoop] at h
    split_ifs at h with hstop hdummy
    · cases h
    · cases j with
      | zero => exact ⟨fun h0 => hstop (.inr h0), fun hkey => hstop (.inl hkey)⟩
      | succ j => exact ih h (Nat.succ_lt_succ_iff.mp hj)

/-- **The probe sequence visits every slot**, each once in `size` steps, whatever the table
holds: so `get_entry` answers `NULL` only if every slot is taken by a key other than the one
sought. -/
theorem probe_visits_every_slot (d : Dict) (h : d.size ≤ 2 ^ 30) (key : Word) :
    ((List.range d.size).map (probe d.mask key)).Perm ((List.range d.size).map (BitVec.ofNat 32)) ∧
      (getEntry d key = .ok none → ∀ s : Word, s.toNat < d.size →
        (d.table s).key ≠ noSuchKey ∧ (d.table s).key ≠ key) := by
  refine ⟨d.probe_perm key, fun hnull s hs => ?_⟩
  rw [getEntry_eq_loop h] at hnull
  obtain ⟨n, hn, rfl⟩ := d.probe_surjective key hs
  exact key_ne_of_getEntryLoop_none hnull hn

/-- Four slots, all taken. -/
def fullDict : Dict where
  mask := 3
  active := 4
  table i := ⟨i + 8, 0⟩
  size_pow2 := ⟨2, by decide, rfl⟩

theorem probe_visits_every_slot_fullDict :
    (List.range 4).map (probe 3 6) = [2, 3, 0, 1] ∧ getEntry fullDict 6 = .ok none ∧
      (fullDict.table 3).key ≠ 6 := by
  have hnull : getEntry fullDict 6 = .ok none := by decide
  exact ⟨by decide, hnull, ((probe_visits_every_slot fullDict (by decide) 6).2 hnull 3 (by decide)).2⟩

/-- **Inserting into a table that is not full** updates the map at the key. -/
theorem dictInsertClean_spec {d : Dict} {m : Word → Option Word} (h : d.Holds m)
    (hroom : d.active.toNat < d.size) {key : Word} (h0 : key ≠ noSuchKey) (h1 : key ≠ dummyKey)
    (value : Word) :
    ∃ d', dictInsertClean d key value = .ok d' ∧ d'.Holds (Function.update m key (some value)) ∧
      d'.mask = d.mask ∧ d'.active.toNat = d.active.toNat + 1 := by
  obtain ⟨n, hs, he⟩ := getEntry_spec h hroom key
  have hactive : (d.active + 1).toNat = d.active.toNat + 1 := by
    have := h.size_le
    rw [BitVec.toNat_add]
    change (d.active.toNat + 1) % 2 ^ 32 = _
    omega
  have hview := d.view_update (probe d.mask key n) key value (d.active + 1) h0
  refine ⟨{ d with table := Function.update d.table (probe d.mask key n) ⟨key, value⟩,
                   active := d.active + 1 },
    by simp [dictInsertClean, he, bind, Except.bind], ⟨?_, ?_, ?_, h.size_le, ?_⟩, rfl, hactive⟩
  · rw [hview]; exact h.placed.update hs value
  · rw [hview]; exact h.represents.update h.placed hs value
  · rw [hview, hactive]
    exact (load_update_le ..).trans (Nat.add_le_add_right h.load_le 1)
  · rw [Function.update_of_ne h1.symm]; exact h.no_dummy

/-! ### Creating, copying and growing -/

/-- `DICT_REAL_SZ` is the size meant exactly up to `2 ^ 27` slots. -/
theorem dictRealSz_toInt_iff {nr : Word} {k : ℕ} (hnr : nr.toNat = 2 ^ k) :
    (dictRealSz nr).toInt = 8 + 8 * (nr.toNat : ℤ) ↔ k ≤ 27 := by
  have hsz : (dictRealSz nr).toNat = (8 + 8 * nr.toNat) % 2 ^ 32 := by
    simp only [dictRealSz, BitVec.toNat_add, BitVec.toNat_mul]
    change (8 + 8 * nr.toNat % 2 ^ 32) % 2 ^ 32 = _
    omega
  rw [BitVec.toInt_eq_toNat_cond, hsz]
  constructor
  · intro h
    by_contra hk
    have := Nat.pow_le_pow_right Nat.two_pos (show 28 ≤ k by omega)
    split at h <;> omega
  · intro hk
    have := Nat.pow_le_pow_right Nat.two_pos hk
    rw [if_pos (by omega), Nat.mod_eq_of_lt (by omega)]
    push_cast
    rfl

/-- `create_dict` of a positive number makes an empty table of the next power of
two, unless its size in bytes does not fit an `int`. -/
theorem createDict_cases {maxSlots : Word} (h : 0 < maxSlots.toInt) :
    (27 < (maxSlots.toNat - 1).size ∧ createDict maxSlots = .error .sizeWrapped) ∨
      ∃ d, createDict maxSlots = .ok d ∧ d.size = 2 ^ (maxSlots.toNat - 1).size ∧
        d.active = 0 ∧ d.Holds fun _ => none := by
  have hnr := pow2roundup_toNat h
  by_cases hk : (maxSlots.toNat - 1).size ≤ 27
  · right
    let d : Dict := { mask := pow2roundup maxSlots - 1, active := 0, table := fun _ => ⟨0, 0⟩
                      size_pow2 := createDict_pow2 h }
    have hsize : d.size = 2 ^ (maxSlots.toNat - 1).size := by
      have hpos := Nat.two_pow_pos (maxSlots.toNat - 1).size
      change (pow2roundup maxSlots - 1).toNat + 1 = _
      rw [BitVec.toNat_sub_of_le (by rw [BitVec.le_def, hnr]; exact hpos), hnr]
      exact Nat.sub_add_cancel hpos
    have hview : d.view = fun _ => none := rfl
    refine ⟨d, ?_, hsize, rfl, ?_, ?_, ?_, ?_, rfl⟩
    · rw [createDict, dif_pos h, if_pos ((dictRealSz_toInt_iff hnr).mpr hk)]
    · rw [hview]; exact wellPlaced_empty _
    · rw [hview]; exact represents_empty
    · rw [hview, load_empty]; exact Nat.zero_le _
    · rw [hsize]; exact Nat.pow_le_pow_right Nat.two_pos hk
  · left
    refine ⟨not_le.mp hk, ?_⟩
    rw [createDict, dif_pos h, if_neg (mt (dictRealSz_toInt_iff hnr).mp hk)]

/-- The part of `m` whose keys are in the first `i` slots of `src`. -/
def copied (src : Dict) (m : Word → Option Word) (i : ℕ) : Word → Option Word :=
  fun k => if ∃ j < i, (src.table (BitVec.ofNat 32 j)).key = k then m k else none

theorem copied_zero (src : Dict) (m : Word → Option Word) : copied src m 0 = fun _ => none := by
  funext k
  exact if_neg (by simp)

/-- A slot says nothing of other keys than its own. -/
theorem copied_succ_of_ne {src : Dict} (m : Word → Option Word) {i : ℕ} {k : Word}
    (hk : (src.table (BitVec.ofNat 32 i)).key ≠ k) : copied src m (i + 1) k = copied src m i k := by
  simp only [copied, Nat.exists_lt_succ_right, hk, or_false]

/-- A slot without a pair adds nothing. -/
theorem copied_succ_of_none {src : Dict} {m : Word → Option Word} {i : ℕ}
    (h : m (src.table (BitVec.ofNat 32 i)).key = none) : copied src m (i + 1) = copied src m i := by
  funext k
  by_cases hk : (src.table (BitVec.ofNat 32 i)).key = k
  · subst hk
    simp only [copied, h, ite_self]
  · exact copied_succ_of_ne m hk

/-- A slot with a pair adds that pair. -/
theorem copied_succ_of_some {src : Dict} {m : Word → Option Word} {i : ℕ} {v : Word}
    (h : m (src.table (BitVec.ofNat 32 i)).key = some v) :
    copied src m (i + 1) =
      Function.update (copied src m i) (src.table (BitVec.ofNat 32 i)).key (some v) := by
  funext k
  by_cases hk : k = (src.table (BitVec.ofNat 32 i)).key
  · subst hk
    rw [Function.update_self, copied, if_pos ⟨i, Nat.lt_succ_self i, rfl⟩, h]
  · rw [Function.update_of_ne hk, copied_succ_of_ne m (Ne.symm hk)]

/-- All slots together give the whole map: a key is only ever in a slot below the size. -/
theorem copied_size {src : Dict} {m : Word → Option Word} (h : src.Holds m) :
    copied src m src.size = m := by
  funext k
  unfold copied
  split_ifs with hk
  · rfl
  · cases hm : m k with
    | none => rfl
    | some v =>
      obtain ⟨s, hs⟩ := (h.represents k v).mp hm
      obtain ⟨n, rfl, _⟩ := h.placed s k v hs
      refine absurd ⟨_, src.probe_toNat_lt k n, ?_⟩ hk
      rw [BitVec.ofNat_toNat, BitVec.setWidth_eq]
      exact (slot_eq_some.mp hs).2.1

/-- The loop of `copy_dict` after `i` rounds. -/
theorem copyLoop_spec {src dst : Dict} {m : Word → Option Word} (hsrc : src.Holds m)
    (hdst : dst.Holds fun _ => none) (hactive : dst.active = 0) (hsize : src.size ≤ dst.size)
    (i : ℕ) (hi : i ≤ src.size) :
    ∃ d, (List.range i).foldlM
        (fun dst i => copyEntry dst (src.table (BitVec.ofNat 32 i))) dst = .ok d ∧
      d.Holds (copied src m i) ∧ d.mask = dst.mask ∧ d.active.toNat ≤ i := by
  induction i with
  | zero => exact ⟨dst, rfl, by rwa [copied_zero], rfl, by simp [hactive]⟩
  | succ i ih =>
    obtain ⟨d, hd, hh, hmask, hact⟩ := ih (by omega)
    rw [List.range_succ, List.foldlM_append, hd]
    simp only [List.foldlM_cons, List.foldlM_nil, bind_pure]
    change ∃ d', copyEntry d (src.table (BitVec.ofNat 32 i)) = .ok d' ∧ _
    have hd1 := hsrc.key_ne_dummy (BitVec.ofNat 32 i)
    by_cases h0 : (src.table (BitVec.ofNat 32 i)).key = noSuchKey
    · refine ⟨d, by rw [copyEntry, if_pos (.inl h0)], ?_, hmask, by omega⟩
      rwa [copied_succ_of_none (by rw [h0]; exact hsrc.noSuchKey_eq_none)]
    · have hm : m (src.table (BitVec.ofNat 32 i)).key = some (src.table (BitVec.ofNat 32 i)).value :=
        (hsrc.represents _ _).mpr ⟨_, slot_eq_some.mpr ⟨h0, rfl, rfl⟩⟩
      have hroom : d.active.toNat < d.size := by
        have : d.size = dst.size := by unfold size; rw [hmask]
        omega
      obtain ⟨d', hd', hh', hmask', hact'⟩ := dictInsertClean_spec hh hroom h0 hd1
        (src.table (BitVec.ofNat 32 i)).value
      refine ⟨d', ?_, by rwa [copied_succ_of_some hm], hmask'.trans hmask, by omega⟩
      rw [copyEntry, if_neg (not_or.mpr ⟨h0, hd1⟩), hd']

/-- **Copying keeps the map**, and counts only what the old table held. -/
theorem copyDict_spec {src dst : Dict} {m : Word → Option Word} (hsrc : src.Holds m)
    (hdst : dst.Holds fun _ => none) (hactive : dst.active = 0) (hsize : src.size ≤ dst.size) :
    ∃ d, copyDict dst src = .ok d ∧ d.Holds m ∧ d.mask = dst.mask ∧ d.active.toNat ≤ src.size := by
  obtain ⟨d, hd, hh, hmask, hact⟩ := copyLoop_spec hsrc hdst hactive hsize src.size le_rfl
  refine ⟨d, ?_, copied_size hsrc ▸ hh, hmask, hact⟩
  have hle : src.mask ≤ dst.mask := by unfold size at hsize; rw [BitVec.le_def]; omega
  rw [copyDict, assert_of_true hle, toInt_size (hsrc.size_le.trans (by decide)), Int.toNat_natCast]
  exact hd

/-- The invariant between two calls: `Dict.Holds`, and `active` has passed the
growth limit by at most the last insert. -/
structure Valid (d : Dict) (m : Word → Option Word) : Prop extends d.Holds m where
  /-- Small tables do not occur: the first one has `2 ^ 17` slots. -/
  four_le_size : 4 ≤ d.size
  /-- Two thirds of the size, and one. -/
  active_le : 3 * d.active.toNat ≤ 2 * d.size + 3

theorem Valid.active_lt_size {d : Dict} {m : Word → Option Word} (h : d.Valid m) :
    d.active.toNat < d.size := by
  have := h.four_le_size
  have := h.active_le
  omega

/-- `(dict->active * 3) > (int)(2 * dict->mask) + 2` compares the numbers meant. -/
theorem Valid.grows_iff {d : Dict} {m : Word → Option Word} (h : d.Valid m) :
    (2 * d.mask + 2).toInt < (d.active * 3).toInt ↔ 2 * d.size < 3 * d.active.toNat := by
  have hsize := h.size_le
  have hact := h.active_le
  have hl : (2 * d.mask + 2).toNat = 2 * d.size := by
    simp only [BitVec.toNat_add, BitVec.toNat_mul, size] at *
    change (2 * d.mask.toNat % 2 ^ 32 + 2) % 2 ^ 32 = _
    omega
  have hr : (d.active * 3).toNat = 3 * d.active.toNat := by
    rw [BitVec.toNat_mul, Nat.mul_comm]
    exact Nat.mod_eq_of_lt (by change 3 * d.active.toNat < _; omega)
  rw [BitVec.toInt_eq_toNat_of_lt (by omega), BitVec.toInt_eq_toNat_of_lt (by omega), hl, hr,
    Nat.cast_lt]

/-- A table of `mask * 2 + 1` slots is one twice as large. -/
theorem size_double {d : Dict} (h4 : 4 ≤ d.size) (h27 : d.size ≤ 2 ^ 27) :
    0 < (d.mask * 2 + 1).toInt ∧ 2 ^ ((d.mask * 2 + 1).toNat - 1).size = 2 * d.size := by
  obtain ⟨k, _, hk⟩ := d.size_pow2
  have hsize : d.size = 2 ^ k := hk
  have hnat : (d.mask * 2 + 1).toNat = 2 * d.size - 1 := by
    simp only [BitVec.toNat_add, BitVec.toNat_mul, size] at *
    change (d.mask.toNat * 2 % 2 ^ 32 + 1) % 2 ^ 32 = _
    omega
  constructor
  · rw [BitVec.toInt_eq_toNat_of_lt (by omega), hnat]
    omega
  · have hlog : (2 * d.size - 1 - 1).size = k + 1 := by
      refine le_antisymm (Nat.size_le.mpr (by rw [pow_succ]; omega)) (Nat.lt_size.mpr ?_)
      omega
    rw [hnat, hlog, pow_succ, hsize, Nat.mul_comm]

/-- **Growing** keeps the map and leaves room for one insert, unless the table is
already as large as an `int` can say. -/
theorem growDict_spec {d : Dict} {m : Word → Option Word} (h : d.Valid m) :
    growDict d = .error .sizeWrapped ∨
      ∃ d', growDict d = .ok d' ∧ d'.Holds m ∧ 4 ≤ d'.size ∧ d'.active.toNat < d'.size ∧
        3 * d'.active.toNat ≤ 2 * d'.size := by
  have h4 := h.four_le_size
  by_cases hg : 2 * d.size < 3 * d.active.toNat
  · rw [growDict, if_pos (h.grows_iff.mpr hg)]
    obtain ⟨hpos, hdouble⟩ := size_double h4 h.size_le
    obtain ⟨_, he⟩ | ⟨new, hnew, hsize, hactive, hempty⟩ := createDict_cases hpos
    · exact .inl (by rw [he]; rfl)
    · rw [hdouble] at hsize
      obtain ⟨d', hd', hh, hmask, hact⟩ :=
        copyDict_spec h.toHolds hempty hactive (by omega)
      have hsize' : d'.size = 2 * d.size := by rw [← hsize, size, size, hmask]
      exact .inr ⟨d', by rw [hnew]; exact hd', hh, by omega, by omega, by omega⟩
  · rw [growDict, if_neg (mt h.grows_iff.mp hg)]
    exact .inr ⟨d, rfl, h.toHolds, h4, h.active_lt_size, by omega⟩

end Dict

/-! ### Whole runs -/

/-- A dictionary pointer, `NULL` before the first insert, and the map it stands for. -/
def ValidPtr : Option Dict → (Word → Option Word) → Prop
  | none, m => m = fun _ => none
  | some d, m => d.Valid m

theorem openDict_spec {pdict : Option Dict} {m : Word → Option Word} (h : ValidPtr pdict m) :
    ∃ d, openDict pdict = .ok d ∧ d.Valid m := by
  cases pdict with
  | some d => exact ⟨d, rfl, h⟩
  | none =>
    have hsize : (defaultDictSlots.toNat - 1).size = 17 :=
      le_antisymm (Nat.size_le.mpr (by decide)) (Nat.lt_size.mpr (by decide))
    obtain ⟨hlt, _⟩ | ⟨d, hd, hsz, hact, hh⟩ :=
      Dict.createDict_cases (show 0 < defaultDictSlots.toInt by decide)
    · omega
    · rw [hsize] at hsz
      exact ⟨d, hd, h ▸ hh, by omega, by simp [hact]⟩

/-- **One insert** updates the map at its key; only a size that wraps stops it. -/
theorem dictInsert_spec {pdict : Option Dict} {m : Word → Option Word} (h : ValidPtr pdict m)
    {key : Word} (h0 : key ≠ noSuchKey) (h1 : key ≠ dummyKey) (value : Word) :
    dictInsert pdict key value = .error .sizeWrapped ∨
      ∃ d, dictInsert pdict key value = .ok d ∧ d.Valid (Function.update m key (some value)) := by
  obtain ⟨d, hd, hv⟩ := openDict_spec h
  simp only [dictInsert, assert_of_true (show key ≠ 0 from h0), hd]
  obtain he | ⟨d₁, hd₁, hh, h4, hroom, hact⟩ := Dict.growDict_spec hv
  · exact .inl (by simp [bind, Except.bind, he])
  · obtain ⟨d₂, hd₂, hh₂, hmask, hact₂⟩ := Dict.dictInsertClean_spec hh hroom h0 h1 value
    have hsize : d₂.size = d₁.size := by rw [Dict.size, Dict.size, hmask]
    exact .inr ⟨d₂, by simp [bind, Except.bind, hd₁, hd₂], hh₂, by omega, by omega⟩

/-- **A lookup** answers what the map says, and `0` where it says nothing. -/
theorem dictGet_spec {pdict : Option Dict} {m : Word → Option Word} (h : ValidPtr pdict m)
    (key : Word) : dictGet pdict key = .ok ((m key).getD 0) := by
  cases pdict with
  | none => rw [show m = fun _ => none from h]; rfl
  | some d =>
    have hv : d.Valid m := h
    obtain ⟨n, hs, he⟩ := Dict.getEntry_spec hv.toHolds hv.active_lt_size key
    have hlook := hv.represents.lookup_of_stops hv.placed hs
    simp only [dictGet, he, bind, Except.bind]
    by_cases h0 : (d.table (Dict.probe d.mask key n)).key = noSuchKey
    · rw [if_pos h0, hlook, Dict.view, DictEntry.slot, if_pos h0]
      rfl
    · have hslot : d.view (Dict.probe d.mask key n) = some (_, _) :=
        Dict.slot_eq_some.mpr ⟨h0, rfl, rfl⟩
      rw [if_neg h0, if_neg (hv.key_ne_dummy _), assert_of_true (hs.stop _ hslot), hlook, hslot]
      rfl

/-- The map that a sequence of inserts builds. -/
def insertMap (m : Word → Option Word) (ops : List (Word × Word)) : Word → Option Word :=
  ops.foldl (fun m op => Function.update m op.1 (some op.2)) m

/-- The value the last insert of `key` gave it. -/
def lastInserted (ops : List (Word × Word)) (key : Word) : Option Word :=
  (ops.reverse.find? fun op => op.1 = key).map Prod.snd

theorem insertMap_eq_lastInserted (ops : List (Word × Word)) (key : Word) :
    insertMap (fun _ => none) ops key = lastInserted ops key := by
  induction ops using List.reverseRecOn with
  | nil => rfl
  | append_singleton ops op ih =>
    unfold insertMap lastInserted at *
    rw [List.foldl_append, List.reverse_append]
    by_cases h : key = op.1
    · subst h
      simp
    · simp [Function.update_of_ne h, Ne.symm h, ih]

/-- A whole run keeps the invariant, unless a size wraps. -/
theorem insertAll_spec {pdict : Option Dict} {m : Word → Option Word} (h : ValidPtr pdict m)
    (ops : List (Word × Word)) (hkeys : ∀ op ∈ ops, op.1 ≠ noSuchKey ∧ op.1 ≠ dummyKey) :
    insertAll pdict ops = .error .sizeWrapped ∨
      ∃ d, insertAll pdict ops = .ok d ∧ ValidPtr d (insertMap m ops) := by
  induction ops generalizing pdict m with
  | nil => exact .inr ⟨pdict, rfl, h⟩
  | cons op ops ih =>
    obtain ⟨h0, h1⟩ := hkeys op List.mem_cons_self
    unfold insertAll at ih ⊢
    rw [List.foldlM_cons]
    obtain he | ⟨d, hd, hv⟩ := dictInsert_spec h h0 h1 op.2
    · exact .inl (by rw [he]; rfl)
    · rw [hd]
      exact @ih (some d) _ hv fun op' hop => hkeys op' (List.mem_cons_of_mem _ hop)

/-- **The dictionary is a finite map**: after any sequence of inserts whose table
sizes fit an `int`, `dict_get` answers the value inserted last, and `0` for a key
never inserted; no assertion fails and the dummy key is never met. -/
theorem insertAll_finite_map (ops : List (Word × Word))
    (hkeys : ∀ op ∈ ops, op.1 ≠ noSuchKey ∧ op.1 ≠ dummyKey)
    (hrange : insertAll none ops ≠ .error .sizeWrapped) :
    ∃ d, insertAll none ops = .ok d ∧
      ∀ key, dictGet d key = .ok ((lastInserted ops key).getD 0) := by
  obtain he | ⟨d, hd, hv⟩ := insertAll_spec (show ValidPtr none _ from rfl) ops hkeys
  · exact absurd he hrange
  · refine ⟨d, hd, fun key => ?_⟩
    rw [dictGet_spec hv, insertMap_eq_lastInserted]

/-- A repeated key, and two keys whose searches start at one slot. -/
theorem insertAll_repeated_and_colliding :
    ∃ d, insertAll none [(5, 7), (131077, 3), (5, 9)] = .ok d ∧
      ∀ key, dictGet d key = .ok ((lastInserted [(5, 7), (131077, 3), (5, 9)] key).getD 0) :=
  insertAll_finite_map _ (by simp [noSuchKey, dummyKey]) fun h =>
    absurd (congrArg Except.isOk h) (by decide)

end Snitchaser.Interp
