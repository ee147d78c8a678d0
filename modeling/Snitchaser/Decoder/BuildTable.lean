import Snitchaser.Decoder.Opcode
import Mathlib.Data.List.Induction
import Mathlib.Logic.Function.Basic

/-!
# The table builder

`buildtable.c`: `add_descriptor` enters one row of `x86_instructions.tbl` into the
table the row belongs to. A row with a mandatory prefix goes to the next free place
of `spec_prefix_table`, and the opcode's own entry remembers that place under the
prefix.

## What is proved

What the decoder finds under an opcode is what the entry says after following the
places it remembers: `Tables.resolve`. `resolve_build` says that it depends only on
the rows of the opcode's own table that cover the opcode, taken in order
(`rowStep`): no row disturbs what another row put elsewhere. This is the builder's
own part in the correctness of the decoder; what the rows themselves say is
`Snitchaser.Decoder.Instructions`.
-/

namespace Snitchaser.Decoder

/-- The operator of a row: an instruction, in lower case, or one of the words in
upper case that make the entry something else. -/
inductive Operator where
  | inst (name : String)
  | prefix1
  | prefix2
  | prefix3
  | prefix4
  | grp (g : GroupName)
  | invalid
  | bad
  | escapeTwoBytes
  | escapeThreeBytesA
  | escapeThreeBytesB
  | escapeCoprocessor
  | special
  | xxxGrp7
  | xxxGrp15
  /-- Any other word: the builder stops there. -/
  | unknown (name : String)
  deriving Repr

/-- The entry type an operator asks for. -/
def Operator.type : Operator → Option InstType
  | .inst _ => some .normal
  | .prefix1 => some .prefix1
  | .prefix2 => some .prefix2
  | .prefix3 => some .prefix3
  | .prefix4 => some .prefix4
  | .grp g => some (.group g)
  | .invalid => some .invalid
  | .bad => some .invalid
  | .escapeTwoBytes => some .escape2B
  | .escapeThreeBytesA => some .escape3B_0x38
  | .escapeThreeBytesB => some .escape3B_0x3a
  | .escapeCoprocessor => some .escapeCop
  | .special => some .special
  | .xxxGrp7 => some .group7
  | .xxxGrp15 => some .group15
  | .unknown _ => none

/-- The arguments of `add_descriptor`, less the table: one row. -/
structure Descriptor where
  /-- `64` inside an `X64` block. -/
  head : ℕ := 32
  /-- The operator. -/
  operator : Operator
  /-- The first opcode. -/
  rngStart : ℕ
  /-- The last opcode. -/
  rngEnd : ℕ := rngStart
  /-- The mandatory prefix. -/
  specPrefix : Option SpecPrefix := none
  /-- The operands. -/
  operades : List Operade := []
  /-- Whether `o64` is among the hints, the only hint the builder looks for. -/
  o64 : Bool := false
  /-- The row is marked `!`. -/
  jmpnote : Bool := false

/-- The row is for 64-bit mode only. -/
def Descriptor.omitted (d : Descriptor) : Bool := d.head == 64 || d.o64

/-- The static tables of `buildtable.c`. -/
structure Tables where
  /-- The four opcode maps and the groups. -/
  insts : TableName → ℕ → OpcodeTableEntry
  /-- `spec_prefix_table`. -/
  specPrefixTable : ℕ → OpcodeTableEntry
  /-- `next_spec_prefix_instruction`. -/
  nextSpecPrefixInstruction : ℕ

/-- Before any row: all zero; place `0` of `spec_prefix_table` stays so. -/
def Tables.empty : Tables := ⟨fun _ _ => {}, fun _ => {}, 1⟩

/-- Type, operands and jump mark are written over an entry; a mark stays. -/
def Descriptor.fill (d : Descriptor) (type : InstType) (inst : OpcodeTableEntry) :
    OpcodeTableEntry :=
  { inst with type := type, operades := d.operades, jmpnote := inst.jmpnote || d.jmpnote }

/-- The entry of an opcode with prefix-dependent rows: reset unless it is one already. -/
def specEntry (inst : OpcodeTableEntry) : OpcodeTableEntry :=
  if inst.type ≠ .needSpecPrefix then { type := .needSpecPrefix } else inst

/-- Replace entry `i` of a table. -/
def Tables.set (st : Tables) (table : TableName) (i : ℕ) (e : OpcodeTableEntry) : Tables :=
  { st with insts := Function.update st.insts table (Function.update (st.insts table) i e) }

/-- A row without a mandatory prefix is written over the opcode's own entry. -/
def addPlain (table : TableName) (d : Descriptor) (type : InstType) (st : Tables) (i : ℕ) : Tables :=
  st.set table i (d.fill type (st.insts table i))

/-- The opcode's own entry after a row with mandatory prefix `p` took place `next`. -/
def specEntryAt (inst : OpcodeTableEntry) (p : SpecPrefix) (next : ℕ) : OpcodeTableEntry :=
  { specEntry inst with spec := Function.update (specEntry inst).spec p next }

/-- A row with mandatory prefix `p` takes the next place of `spec_prefix_table`. -/
def addSpec (table : TableName) (d : Descriptor) (type : InstType) (p : SpecPrefix) (st : Tables)
    (i : ℕ) : Tables where
  insts := (st.set table i (specEntryAt (st.insts table i) p st.nextSpecPrefixInstruction)).insts
  specPrefixTable := Function.update st.specPrefixTable st.nextSpecPrefixInstruction
    (d.fill type (st.specPrefixTable st.nextSpecPrefixInstruction))
  nextSpecPrefixInstruction := st.nextSpecPrefixInstruction + 1

/-- One round of the loop of `add_descriptor`, for opcode `i`. -/
def addAt (table : TableName) (d : Descriptor) (type : InstType) (st : Tables) (i : ℕ) : Tables :=
  match d.specPrefix with
  | none => addPlain table d type st i
  | some p => addSpec table d type p st i

/-- `add_descriptor`; `none` is the builder's `exit`. -/
def addDescriptor (st : Tables) (table : TableName) (d : Descriptor) : Option Tables :=
  if d.omitted then some st
  else do
    let type ← d.operator.type
    some ((List.range' d.rngStart (d.rngEnd + 1 - d.rngStart)).foldl (addAt table d type) st)

/-- A table of the file: its name and its rows. -/
abbrev Section := TableName × List Descriptor

/-- The rows of one table, in order. -/
def addSection (st : Tables) (s : Section) : Option Tables :=
  s.2.foldlM (fun st d => addDescriptor st s.1 d) st

/-- The whole file. -/
def buildTables (file : List Section) : Option Tables := file.foldlM addSection .empty

/-- `print_table`. -/
def Tables.printTable (st : Tables) : Tables where
  insts table i := (st.insts table i).printed
  specPrefixTable n := (st.specPrefixTable n).printed
  nextSpecPrefixInstruction := st.nextSpecPrefixInstruction

/-! ### What the decoder finds -/

/-- An entry with the prefix-dependent rows it leads to. -/
structure Resolved where
  /-- The entry itself. -/
  own : InstRow := {}
  /-- The row each prefix leads to. -/
  rows : SpecPrefix → InstRow := fun _ => {}

/-- What the decoder finds under opcode `i` of a table. -/
def Tables.resolve (st : Tables) (table : TableName) (i : ℕ) : Resolved where
  own := (st.insts table i).row
  rows p := (st.specPrefixTable ((st.insts table i).spec p)).row

/-- What was found, forgotten unless it is prefix-dependent. -/
def Resolved.specEntry (r : Resolved) : Resolved :=
  if r.own.type ≠ .needSpecPrefix then { own := { type := .needSpecPrefix } } else r

/-- What one row makes of what was found under an opcode it covers. -/
def Descriptor.step (d : Descriptor) (type : InstType) (r : Resolved) : Resolved :=
  match d.specPrefix with
  | none => { r with own := ⟨type, d.operades, r.own.jmpnote || d.jmpnote⟩ }
  | some p =>
    { r.specEntry with rows := Function.update r.specEntry.rows p ⟨type, d.operades, d.jmpnote⟩ }

/-- The row is entered under opcode `i`. -/
def Descriptor.covers (d : Descriptor) (i : ℕ) : Bool :=
  !d.omitted && Nat.ble d.rngStart i && Nat.ble i d.rngEnd

/-- What one row makes of what was found under opcode `i`. -/
def rowStep (i : ℕ) (r : Resolved) (d : Descriptor) : Resolved :=
  match d.operator.type with
  | none => r
  | some type => if d.covers i then d.step type r else r

/-- The places remembered are taken, and the next one is free. -/
structure Tables.Valid (st : Tables) : Prop where
  /-- Entries lead only to places already taken. -/
  spec_lt : ∀ table i p, (st.insts table i).spec p < st.nextSpecPrefixInstruction
  /-- Place `0` is never given away. -/
  next_pos : 0 < st.nextSpecPrefixInstruction
  /-- Places not yet taken are all zero. -/
  fresh : ∀ n, n = 0 ∨ st.nextSpecPrefixInstruction ≤ n → st.specPrefixTable n = {}

theorem valid_empty : Tables.empty.Valid := ⟨fun _ _ _ => Nat.one_pos, Nat.one_pos, fun _ _ => rfl⟩

theorem Tables.insts_set (st : Tables) (table t : TableName) (i j : ℕ) (e : OpcodeTableEntry) :
    (st.set table i e).insts t j = if t = table ∧ j = i then e else st.insts t j := by
  unfold Tables.set
  by_cases ht : t = table
  · subst ht
    by_cases hj : j = i
    · subst hj; simp
    · simp [hj]
  · simp [ht]

section AddAt

variable {st : Tables} (h : st.Valid) (table : TableName) (d : Descriptor) (type : InstType) (i : ℕ)
include h

/-- The entry a prefix-dependent row is entered under leads only to taken places. -/
theorem specEntry_spec_lt (q : SpecPrefix) :
    (specEntry (st.insts table i)).spec q < st.nextSpecPrefixInstruction := by
  unfold specEntry
  split_ifs
  · exact h.next_pos
  · exact h.spec_lt table i q

/-- Resetting the entry and following it commute. -/
theorem resolve_specEntry :
    (st.resolve table i).specEntry =
      { own := (specEntry (st.insts table i)).row
        rows := fun p => (st.specPrefixTable ((specEntry (st.insts table i)).spec p)).row } := by
  unfold Resolved.specEntry specEntry
  by_cases hty : (st.insts table i).type ≠ .needSpecPrefix
  · rw [if_pos hty, if_pos (show (st.resolve table i).own.type ≠ _ from hty)]
    simp only [h.fresh 0 (.inl rfl)]
    rfl
  · rw [if_neg hty, if_neg (show ¬ (st.resolve table i).own.type ≠ _ from hty)]
    rfl

theorem valid_addPlain : (addPlain table d type st i).Valid := by
  refine ⟨fun t j q => ?_, h.next_pos, h.fresh⟩
  rw [addPlain, Tables.insts_set]
  split_ifs with htj
  · exact h.spec_lt table i q
  · exact h.spec_lt t j q

theorem valid_addSpec (p : SpecPrefix) : (addSpec table d type p st i).Valid := by
  refine ⟨fun t j q => ?_, Nat.succ_pos _, fun n hn => ?_⟩
  · simp only [addSpec, Tables.insts_set, specEntryAt]
    split_ifs with htj
    · simp only [Function.update_apply]
      split_ifs with hq
      · exact Nat.lt_succ_self _
      · exact Nat.lt_succ_of_lt (specEntry_spec_lt h table i q)
    · exact Nat.lt_succ_of_lt (h.spec_lt t j q)
  · have hpos := h.next_pos
    simp only [addSpec] at hn ⊢
    rw [Function.update_of_ne (by omega)]
    exact h.fresh n (by omega)

theorem valid_addAt : (addAt table d type st i).Valid := by
  unfold addAt
  split
  · exact valid_addPlain h table d type i
  · exact valid_addSpec h table d type i _

omit h in
/-- A place already taken keeps its row. -/
theorem specPrefixTable_addSpec (p : SpecPrefix) {n : ℕ} (hn : n < st.nextSpecPrefixInstruction) :
    (addSpec table d type p st i).specPrefixTable n = st.specPrefixTable n :=
  Function.update_of_ne (Nat.ne_of_lt hn) _ _

/-- **One opcode of a row changes what is found under that opcode only.** -/
theorem resolve_addAt (t : TableName) (j : ℕ) :
    (addAt table d type st i).resolve t j =
      if t = table ∧ j = i then d.step type (st.resolve t j) else st.resolve t j := by
  unfold addAt Descriptor.step
  cases hp : d.specPrefix with
  | none =>
    simp only [Tables.resolve, addPlain, Tables.insts_set]
    split_ifs with htj
    · obtain ⟨rfl, rfl⟩ := htj
      rfl
    · rfl
  | some p =>
    split_ifs with htj
    · obtain ⟨rfl, rfl⟩ := htj
      have hset : (addSpec t d type p st j).insts t j =
          specEntryAt (st.insts t j) p st.nextSpecPrefixInstruction := by
        simp [addSpec, Tables.insts_set]
      simp only [resolve_specEntry h t j]
      simp only [Tables.resolve, hset, specEntryAt]
      congr 1
      funext q
      by_cases hq : q = p
      · subst hq
        simp [addSpec, Function.update_self, h.fresh _ (.inr (Nat.le_refl _)), Descriptor.fill,
          OpcodeTableEntry.row]
      · rw [Function.update_of_ne hq, Function.update_of_ne hq,
          specPrefixTable_addSpec t d type j p (specEntry_spec_lt h t j q)]
    · have hset : (addSpec table d type p st i).insts t j = st.insts t j := by
        simp [addSpec, Tables.insts_set, htj]
      simp only [Tables.resolve, hset]
      congr 1
      funext q
      rw [specPrefixTable_addSpec table d type i p (h.spec_lt t j q)]

end AddAt

/-! ### Rows, tables, the file -/

theorem valid_foldl_addAt {st : Tables} (h : st.Valid) (table : TableName) (d : Descriptor)
    (type : InstType) (l : List ℕ) : (l.foldl (addAt table d type) st).Valid := by
  induction l generalizing st with
  | nil => exact h
  | cons i l ih => exact ih (valid_addAt h table d type i)

/-- A row that covers the opcodes `l` changes what is found under those. -/
theorem resolve_foldl_addAt {st : Tables} (h : st.Valid) (table : TableName) (d : Descriptor)
    (type : InstType) {l : List ℕ} (hl : l.Nodup) (t : TableName) (j : ℕ) :
    (l.foldl (addAt table d type) st).resolve t j =
      if t = table ∧ j ∈ l then d.step type (st.resolve t j) else st.resolve t j := by
  induction l generalizing st with
  | nil => simp
  | cons i l ih =>
    rw [List.nodup_cons] at hl
    rw [List.foldl_cons, ih (valid_addAt h table d type i) hl.2, resolve_addAt h]
    by_cases ht : t = table
    · subst ht
      by_cases hj : j = i
      · subst hj
        simp [hl.1]
      · simp [hj]
    · simp [ht]

/-- **A row of another table changes nothing; a row of this one is a `rowStep`.** -/
theorem resolve_addDescriptor {st st' : Tables} (h : st.Valid) {table : TableName} {d : Descriptor}
    (hd : addDescriptor st table d = some st') :
    st'.Valid ∧ ∀ t j, st'.resolve t j =
      if t = table then rowStep j (st.resolve t j) d else st.resolve t j := by
  unfold addDescriptor at hd
  cases hom : d.omitted with
  | true =>
    rw [if_pos hom] at hd
    cases hd
    refine ⟨h, fun t j => ?_⟩
    cases hty : d.operator.type <;> simp [rowStep, Descriptor.covers, hty, hom]
  | false =>
    cases hty : d.operator.type with
    | none => simp [hom, hty] at hd
    | some type =>
      simp only [hom, hty, Bool.false_eq_true, if_false, Option.bind_eq_bind, Option.bind_some,
        Option.some.injEq] at hd
      subst hd
      refine ⟨valid_foldl_addAt h table d type _, fun t j => ?_⟩
      rw [resolve_foldl_addAt h table d type List.nodup_range']
      have hmem : j ∈ List.range' d.rngStart (d.rngEnd + 1 - d.rngStart) ↔
          d.rngStart ≤ j ∧ j ≤ d.rngEnd := by
        rw [List.mem_range'_1]
        omega
      by_cases ht : t = table
      · simp only [ht, true_and, hmem, rowStep, hty, Descriptor.covers, hom, Bool.not_false,
          Bool.true_and, Bool.and_eq_true, Nat.ble_eq, if_true]
      · simp [ht]

theorem resolve_addSection {st st' : Tables} (h : st.Valid) {s : Section}
    (hs : addSection st s = some st') :
    st'.Valid ∧ ∀ t j, st'.resolve t j =
      if t = s.1 then s.2.foldl (rowStep j) (st.resolve t j) else st.resolve t j := by
  obtain ⟨table, rows⟩ := s
  induction rows generalizing st with
  | nil => cases hs; exact ⟨h, fun t j => by simp⟩
  | cons d rows ih =>
    simp only [addSection, List.foldlM_cons, Option.bind_eq_bind, Option.bind_eq_some_iff] at hs ih
    obtain ⟨st₁, hd, hs⟩ := hs
    obtain ⟨h₁, hr₁⟩ := resolve_addDescriptor h hd
    obtain ⟨h', hr'⟩ := ih h₁ hs
    refine ⟨h', fun t j => ?_⟩
    rw [hr', hr₁]
    by_cases ht : t = table
    · simp [ht]
    · simp [ht]

/-- The rows of a file for one table. -/
def rowsOf (file : List Section) (t : TableName) : List Descriptor :=
  file.flatMap fun s => if t = s.1 then s.2 else []

theorem resolve_addSections {st st' : Tables} (h : st.Valid) {file : List Section}
    (hf : file.foldlM addSection st = some st') (t : TableName) (j : ℕ) :
    st'.resolve t j = (rowsOf file t).foldl (rowStep j) (st.resolve t j) := by
  induction file generalizing st with
  | nil => cases hf; rfl
  | cons s file ih =>
    simp only [List.foldlM_cons, Option.bind_eq_bind, Option.bind_eq_some_iff] at hf
    obtain ⟨st₁, hs, hf⟩ := hf
    obtain ⟨h₁, hr₁⟩ := resolve_addSection h hs
    rw [ih h₁ hf, hr₁, rowsOf, rowsOf, List.flatMap_cons, List.foldl_append]
    split_ifs <;> rfl

/-- **What the decoder finds under an opcode** is made of the rows of its table
that cover it, in their order. -/
theorem resolve_build {file : List Section} {st : Tables} (hf : buildTables file = some st)
    (t : TableName) (j : ℕ) : st.resolve t j = (rowsOf file t).foldl (rowStep j) {} :=
  resolve_addSections valid_empty hf t j

/-! ### Rows that do not describe anything twice -/

/-- The entry that is selected under prefix `p`. -/
def Resolved.select (r : Resolved) (p : SpecPrefix) : InstRow :=
  if r.own.type = .needSpecPrefix then r.rows p else r.own

/-- The row says what opcode `i` is under prefix `p`; a row without a mandatory
prefix says it for all. -/
def Descriptor.describes (d : Descriptor) (i : ℕ) (p : SpecPrefix) : Bool :=
  d.covers i && (match d.specPrefix with | none => true | some q => q == p)

/-- The entry a row makes. -/
def Descriptor.row (d : Descriptor) : InstRow :=
  match d.operator.type with
  | none => {}
  | some type => ⟨type, d.operades, d.jmpnote⟩

/-- No opcode is described twice under one prefix. -/
def Distinct (rows : List Descriptor) : Prop :=
  rows.Pairwise fun d d' => ∀ i p, d.describes i p = true → d'.describes i p = false

/-- What is found under opcode `i` when the rows read so far describe nothing twice. -/
structure Found (rows : List Descriptor) (i : ℕ) (r : Resolved) : Prop where
  /-- A row that was read is the one selected. -/
  listed : ∀ d ∈ rows, ∀ p, d.describes i p = true → r.select p = d.row
  /-- Nothing is selected that was not read. -/
  unlisted : ∀ p, (∀ d ∈ rows, d.describes i p = false) → r.select p = {}
  /-- A row without a mandatory prefix is the entry itself. -/
  plain : ∀ d ∈ rows, d.covers i = true → d.specPrefix = none → r.own = d.row
  /-- A row with one makes the entry prefix-dependent. -/
  dependent : ∀ d ∈ rows, d.covers i = true → d.specPrefix ≠ none → r.own.type = .needSpecPrefix
  /-- Entries are prefix-dependent, or one plain row was read, or none at all. -/
  shape : (r.own.type = .needSpecPrefix ∧ ∃ d ∈ rows, ∃ p, d.describes i p = true) ∨
    (∃ d ∈ rows, ∀ p, d.describes i p = true) ∨ r = {}

theorem Operator.type_ne_needSpecPrefix {op : Operator} {type : InstType} (h : op.type = some type) :
    type ≠ .needSpecPrefix := by
  rintro rfl
  cases op <;> simp [Operator.type] at h

theorem Descriptor.describes_of_plain {d : Descriptor} {i : ℕ} (hc : d.covers i = true)
    (hp : d.specPrefix = none) (p : SpecPrefix) : d.describes i p = true := by
  simp [Descriptor.describes, hc, hp]

theorem Descriptor.describes_iff_of_spec {d : Descriptor} {i : ℕ} (hc : d.covers i = true)
    {q : SpecPrefix} (hp : d.specPrefix = some q) (p : SpecPrefix) :
    d.describes i p = true ↔ q = p := by
  simp [Descriptor.describes, hc, hp]

/-- A row that covers an opcode describes it under some prefix. -/
theorem Descriptor.exists_describes {d : Descriptor} {i : ℕ} (hc : d.covers i = true) :
    ∃ p, d.describes i p = true := by
  cases hp : d.specPrefix with
  | none => exact ⟨.none, Descriptor.describes_of_plain hc hp _⟩
  | some q => exact ⟨q, (Descriptor.describes_iff_of_spec hc hp q).mpr rfl⟩

/-- A row that does not cover the opcode is no news about it. -/
theorem Found.skip {rows : List Descriptor} {i : ℕ} {r : Resolved} (h : Found rows i r)
    {d : Descriptor} (hd : d.covers i = false) : Found (rows ++ [d]) i r := by
  have hold : ∀ d' ∈ rows ++ [d], d'.covers i = true → d' ∈ rows := fun d' hm hc => by
    rcases List.mem_append.mp hm with hm | hm
    · exact hm
    · cases List.mem_singleton.mp hm
      rw [hd] at hc
      cases hc
  have hmem : ∀ d' ∈ rows, d' ∈ rows ++ [d] := fun d' hm => List.mem_append_left _ hm
  refine ⟨fun d' hm p hp => h.listed d' (hold d' hm (Bool.and_eq_true_iff.mp hp).1) p hp,
    fun p hp => h.unlisted p fun d' hm => hp d' (hmem d' hm),
    fun d' hm hc => h.plain d' (hold d' hm hc) hc,
    fun d' hm hc => h.dependent d' (hold d' hm hc) hc, ?_⟩
  rcases h.shape with ⟨hs, d', hm, hp⟩ | ⟨d', hm, hs⟩ | hs
  · exact .inl ⟨hs, d', hmem d' hm, hp⟩
  · exact .inr (.inl ⟨d', hmem d' hm, hs⟩)
  · exact .inr (.inr hs)

section Step

variable {rows : List Descriptor} {i : ℕ} {r : Resolved} (h : Found rows i r) {d : Descriptor}
  (hd : d.covers i = true) {type : InstType} (hty : d.operator.type = some type)
  (hnew : ∀ d' ∈ rows, ∀ p, d'.describes i p = true → d.describes i p = false)
include h hd hty hnew

/-- A row without a mandatory prefix finds nothing under its opcodes, and is
selected there from then on. -/
theorem Found.step_plain (hp : d.specPrefix = none) : Found (rows ++ [d]) i (d.step type r) := by
  have hne := Operator.type_ne_needSpecPrefix hty
  have hrow : d.row = ⟨type, d.operades, d.jmpnote⟩ := by simp [Descriptor.row, hty]
  have hall := Descriptor.describes_of_plain hd hp
  have hnone : ∀ d' ∈ rows, d'.covers i = false := fun d' hm => by
    by_contra hc
    obtain ⟨p, hp'⟩ := Descriptor.exists_describes (by simpa using hc)
    have := hnew d' hm p hp'
    rw [hall] at this
    cases this
  have hdesc : ∀ d' ∈ rows, ∀ p, d'.describes i p = false := fun d' hm p => by
    simp [Descriptor.describes, hnone d' hm]
  obtain rfl : r = {} := by
    rcases h.shape with ⟨_, d', hm, p, hs⟩ | ⟨d', hm, hs⟩ | hs
    · rw [hdesc d' hm p] at hs; cases hs
    · have := hs .none; rw [hdesc d' hm] at this; cases this
    · exact hs
  have hown : (d.step type {}).own = d.row := by simp [Descriptor.step, hp, hrow]
  have hsel : ∀ p, (d.step type {}).select p = d.row := fun p => by
    simp [Resolved.select, hown, hrow, hne]
  have hlast : ∀ d' ∈ rows ++ [d], d'.covers i = true → d' = d := fun d' hm hc => by
    rcases List.mem_append.mp hm with hm | hm
    · rw [hnone d' hm] at hc; cases hc
    · exact List.mem_singleton.mp hm
  refine ⟨fun d' hm p hp' => ?_, fun p hno => ?_, fun d' hm hc _ => ?_, fun d' hm hc hq => ?_,
    .inr (.inl ⟨d, by simp, hall⟩)⟩
  · rw [hlast d' hm (Bool.and_eq_true_iff.mp hp').1]
    exact hsel p
  · have := hno d (by simp)
    rw [hall] at this
    cases this
  · rw [hlast d' hm hc]
    exact hown
  · rw [hlast d' hm hc] at hq
    exact absurd hp hq

/-- A row with a mandatory prefix is selected under that prefix, and the earlier
rows, which have others, under theirs. -/
theorem Found.step_dependent {q : SpecPrefix} (hp : d.specPrefix = some q) :
    Found (rows ++ [d]) i (d.step type r) := by
  have hrow : d.row = ⟨type, d.operades, d.jmpnote⟩ := by simp [Descriptor.row, hty]
  have hdesc := Descriptor.describes_iff_of_spec hd hp
  have hother : ∀ d' ∈ rows, ∀ p, d'.describes i p = true → q ≠ p := fun d' hm p hp' hq => by
    have := hnew d' hm p hp'
    rw [(hdesc p).mpr hq] at this
    cases this
  have hbase : r.specEntry.own.type = .needSpecPrefix ∧ ∀ p, r.specEntry.rows p = r.select p := by
    rcases h.shape with ⟨hs, _⟩ | ⟨d', hm, hs⟩ | rfl
    · simp [Resolved.specEntry, Resolved.select, hs]
    · exact absurd rfl (hother d' hm q (hs q))
    · simp [Resolved.specEntry, Resolved.select]
  have hown : (d.step type r).own.type = .needSpecPrefix := by simp [Descriptor.step, hp, hbase.1]
  have hsel : ∀ p, (d.step type r).select p = if q = p then d.row else r.select p := fun p => by
    simp only [Descriptor.step, hp, Resolved.select, hbase.1, if_true, Function.update_apply,
      hbase.2, hrow, eq_comm (a := q)]
  refine ⟨fun d' hm p hp' => ?_, fun p hno => ?_, fun d' hm hc hpl => ?_, fun _ _ _ _ => hown,
    .inl ⟨hown, d, by simp, q, (hdesc q).mpr rfl⟩⟩
  · rcases List.mem_append.mp hm with hm | hm
    · rw [hsel, if_neg (hother d' hm p hp')]
      exact h.listed d' hm p hp'
    · cases List.mem_singleton.mp hm
      rw [hsel, if_pos ((hdesc p).mp hp')]
  · have hq : q ≠ p := fun hq => by
      have := hno d (by simp)
      rw [(hdesc p).mpr hq] at this
      cases this
    rw [hsel, if_neg hq]
    exact h.unlisted p fun d' hm => hno d' (List.mem_append_left _ hm)
  · rcases List.mem_append.mp hm with hm | hm
    · exact absurd rfl (hother d' hm q (Descriptor.describes_of_plain hc hpl q))
    · cases List.mem_singleton.mp hm
      rw [hp] at hpl
      cases hpl

/-- A row that covers the opcode is found from then on, and the earlier rows still are. -/
theorem Found.step : Found (rows ++ [d]) i (d.step type r) := by
  cases hp : d.specPrefix with
  | none => exact h.step_plain hd hty hnew hp
  | some q => exact h.step_dependent hd hty hnew hp

end Step

/-! ### In print -/

theorem OpcodeTableEntry.row_printed (e : OpcodeTableEntry) : e.printed.row = e.row.printed := by
  unfold OpcodeTableEntry.printed InstRow.printed
  by_cases h : e.type = .invalid
  · rw [if_pos h, if_pos (show e.row.type = _ from h)]
    rfl
  · rw [if_neg h, if_neg (show e.row.type ≠ _ from h)]

theorem Tables.own_printTable (st : Tables) (t : TableName) (i : ℕ) :
    (st.printTable.resolve t i).own = (st.resolve t i).own.printed :=
  OpcodeTableEntry.row_printed _

/-- Printing changes what is selected only by clearing what is invalid. -/
theorem Tables.select_printTable (st : Tables) (t : TableName) (i : ℕ) (p : SpecPrefix) :
    (st.printTable.resolve t i).select p = ((st.resolve t i).select p).printed := by
  unfold Resolved.select
  by_cases h : (st.resolve t i).own.type = .needSpecPrefix
  · have hi : (st.insts t i).type = .needSpecPrefix := h
    have hp : (st.printTable.resolve t i).own.type = .needSpecPrefix := by
      rw [st.own_printTable, InstRow.printed, if_neg (by rw [h]; decide), h]
    rw [if_pos h, if_pos hp]
    have hspec : (st.insts t i).printed = st.insts t i := by
      rw [OpcodeTableEntry.printed, if_neg (by rw [hi]; decide)]
    unfold Tables.resolve Tables.printTable
    simp only [hspec]
    exact OpcodeTableEntry.row_printed _
  · have hp : (st.printTable.resolve t i).own.type ≠ .needSpecPrefix := by
      rw [st.own_printTable, InstRow.printed]
      split_ifs
      · decide
      · exact h
    rw [if_neg h, if_neg hp, st.own_printTable]

theorem found_nil (i : ℕ) : Found [] i {} :=
  ⟨fun _ h => (List.not_mem_nil h).elim, fun _ _ => by simp [Resolved.select],
    fun _ h => (List.not_mem_nil h).elim, fun _ h => (List.not_mem_nil h).elim, .inr (.inr rfl)⟩

/-- **Rows that describe nothing twice are all found**, each under its own opcodes
and prefixes, in whatever order they stand. -/
theorem found_rows {rows : List Descriptor} (hdist : Distinct rows)
    (hops : ∀ d ∈ rows, d.omitted = false → d.operator.type ≠ none) (i : ℕ) :
    Found rows i (rows.foldl (rowStep i) {}) := by
  induction rows using List.reverseRecOn with
  | nil => exact found_nil i
  | append_singleton rows d ih =>
    obtain ⟨hrows, _, hnew⟩ := List.pairwise_append.mp hdist
    have ih := ih hrows fun d' hm => hops d' (List.mem_append_left _ hm)
    rw [List.foldl_append, List.foldl_cons, List.foldl_nil]
    cases hc : d.covers i with
    | false =>
      have hstep : rowStep i (rows.foldl (rowStep i) {}) d = rows.foldl (rowStep i) {} := by
        unfold rowStep
        split <;> simp [hc]
      rw [hstep]
      exact ih.skip hc
    | true =>
      have hom : d.omitted = false := by
        cases ho : d.omitted with
        | false => rfl
        | true => simp [Descriptor.covers, ho] at hc
      obtain ⟨type, hty⟩ := Option.ne_none_iff_exists'.mp (hops d (by simp) hom)
      have hstep : rowStep i (rows.foldl (rowStep i) {}) d =
          d.step type (rows.foldl (rowStep i) {}) := by simp [rowStep, hty, hc]
      rw [hstep]
      exact ih.step hc hty fun d' hm p => hnew d' hm d (by simp) i p

end Snitchaser.Decoder
