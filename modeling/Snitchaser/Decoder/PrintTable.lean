import Snitchaser.Decoder.Listing

/-!
# The tables in print

`buildtable.c` prints the tables it built as a C source, the decoder is compiled with it, and
`next_inst` looks its instructions up there. This module follows a row on that way: into the
tables (`Snitchaser.Decoder.BuildTable`), into print, through the C compiler, and to what
`next_inst` selects.

## The model

The print is a list of `Piece`s, the lines that begin and end an array or an entry; an entry is
printed with all that is in it. `compile` is what C makes of them: initialised places hold their
entries, the others are zero, and a brace too many is an error. `spec_prefix_table` has 1024
places, and to take another one is `Fault.overrun`.

`Selects` says which entry `next_inst` ends its `switch` with, for each `case` that looks at a
table: the opcode maps, the groups, and the groups that have a table of their own for `mod = 3`.

A `RowFile` is a file that describes no opcode twice under one prefix, or with and without one.

## What is proved

`compile_print`: the print is a C source unless the rows with a mandatory prefix take exactly 255
places. Then `print_one_table` takes the array of 256 places for an opcode map, and closes it.
`tables_faithful_iff`: `next_inst` finds each row where it was described, **if and only if** there
are places for all rows, they are not 255, no row of a table that is selected by `mod` has a
mandatory prefix, and no invalid row has operands or a mark. All this is so of the file of the
repository (`x86Opcode_compiled`).
-/

namespace Snitchaser.Decoder

open Foundation

/-! ### Printing -/

/-- The arrays in print. -/
inductive ArrayName where
  /-- An opcode map. -/
  | map (t : TableName)
  /-- `group_insts`. -/
  | groups
  /-- `spec_prefix_insts`. -/
  | spec
  deriving DecidableEq

/-- What is printed. -/
inductive Piece where
  /-- `static struct opcode_table_entry a[size] = {`. -/
  | openArray (a : ArrayName) (size : ℕ)
  /-- `[g] = {`. -/
  | openGroup (g : GroupName)
  /-- `[i] = { .. },`. -/
  | entry (i : ℕ) (e : OpcodeTableEntry)
  /-- `},`. -/
  | closeGroup
  /-- `};`. -/
  | closeArray

/-- The loop of `print_one_table`. -/
def printEntries (table : ℕ → OpcodeTableEntry) (nrOpc : ℕ) : List Piece :=
  (List.range nrOpc).flatMap fun i => if (table i).type = .invalid then [] else [.entry i (table i)]

/-- `print_one_table(head, table, nr_opc)`. -/
def printOneTable (head : Option ArrayName) (table : ℕ → OpcodeTableEntry) (nrOpc : ℕ) : List Piece :=
  (if nrOpc = 256 then head.toList.map (.openArray · nrOpc) else []) ++ printEntries table nrOpc ++
    if nrOpc = 256 then [.closeArray] else []

/-- `enum group_table_name`, in order. -/
def groupNames : List GroupName := [
  .grp1_0x80, .grp1_0x81, .grp1_0x82, .grp1_0x83, .grp1A_0x8f, .grp2_0xc0, .grp2_0xc1, .grp2_0xd0,
  .grp2_0xd1, .grp2_0xd2, .grp2_0xd3, .grp3_0xf6, .grp3_0xf7, .grp4_0xfe, .grp5_0xff, .grp6_0x0f00,
  .grp7_0x0f01_mem, .grp7_0x0f01_11b, .grp8_0x0fba, .grp9_0x0fc7, .grp10_0x0fb9, .grp11_0xc6, .grp11_0xc7,
  .grp12_0x0f71, .grp13_0x0f72, .grp14_0x0f73, .grp15_0x0fae_mem, .grp15_0x0fae_11b, .grp16_0x0f18]

/-- A round of the loop over the groups. -/
def printGroup (st : Tables) (g : GroupName) : List Piece :=
  .openGroup g :: printOneTable none (st.insts (.group g)) 8 ++ [.closeGroup]

/-- The opcode maps, in order. -/
def opcodeMaps : List TableName := [.onebyte, .twobytes, .threebytes_0f38, .threebytes_0f3a]

/-- The opcode maps in print. -/
def printMaps (st : Tables) : List Piece :=
  opcodeMaps.flatMap fun t => printOneTable (some (.map t)) (st.insts t) 256

/-- `group_insts`. -/
def printGroups (st : Tables) : List Piece :=
  .openArray .groups groupNames.length :: groupNames.flatMap (printGroup st) ++ [.closeArray]

/-- `spec_prefix_insts`. -/
def printSpec (st : Tables) : List Piece :=
  .openArray .spec st.nextSpecPrefixInstruction ::
    printOneTable none st.specPrefixTable st.nextSpecPrefixInstruction ++ [.closeArray]

/-- `print_table`. -/
def Tables.print (st : Tables) : List Piece := printMaps st ++ printGroups st ++ printSpec st

/-- The length of `spec_prefix_table`. -/
def specPrefixTableLength : ℕ := 1024

/-- The program: the rows of a file, and the print. A place beyond the table was taken if the
next one is. -/
def buildtable (file : List Section) : Except Fault (List Piece) :=
  match buildTables file with
  | none => .error (.fatal "unknow type %s\n")
  | some st =>
    if specPrefixTableLength < st.nextSpecPrefixInstruction then .error .overrun else .ok st.print

/-! ### Compiling the print -/

/-- Where in a source the compiler is. -/
inductive Place where
  | top
  | array (a : ArrayName) (size : ℕ)
  | group (size : ℕ) (g : GroupName)
  deriving DecidableEq

/-- Replace a place of `spec_prefix_insts`. -/
def Tables.setSpec (st : Tables) (i : ℕ) (e : OpcodeTableEntry) : Tables :=
  { st with specPrefixTable := Function.update st.specPrefixTable i e }

/-- What a piece means to the compiler. -/
def readPiece : Tables × Place → Piece → Option (Tables × Place)
  | (st, .top), .openArray a n => some (st, .array a n)
  | (st, .array .groups n), .openGroup g => some (st, .group n g)
  | (st, .array (.map t) n), .entry i e =>
    if i < n then some (st.set t i e, .array (.map t) n) else none
  | (st, .array .spec n), .entry i e =>
    if i < n then some (st.setSpec i e, .array .spec n) else none
  | (st, .group n g), .entry i e =>
    if i < 8 then some (st.set (.group g) i e, .group n g) else none
  | (st, .group n _), .closeGroup => some (st, .array .groups n)
  | (st, .array _ _), .closeArray => some (st, .top)
  | _, _ => none

/-- The tables of a source, if it is one. -/
def compile (pieces : List Piece) : Option Tables :=
  match pieces.foldlM readPiece (.empty, .top) with
  | some (st, .top) => some st
  | _ => none

/-! ### Looking up -/

/-- The entry of an opcode map, following the mandatory prefix where it depends on one. -/
def mapEntry (tables : Tables) (st : PrefixState) (t : TableName) (opc : Byte) : InstRow :=
  let e := tables.insts t opc.toNat
  if e.type = .needSpecPrefix then (tables.specPrefixTable (e.spec st.specPrefix)).row else e.row

/-- The table is one of the opcode maps. -/
def TableName.isMap : TableName → Bool
  | .group _ => false
  | _ => true

/-- What is selected under an opcode of a table, with these prefixes. -/
inductive Selects (tables : Tables) (st : PrefixState) : TableName → ℕ → InstRow → Prop where
  | map {t : TableName} (ht : t.isMap = true) (opc : Byte) :
    Selects tables st t opc.toNat (mapEntry tables st t opc)
  | group (g : GroupName) (modrm : Byte) :
    Selects tables st (.group g) (regField modrm) (groupEntry tables st g modrm)
  | group7 (modrm : Byte) :
    Selects tables st (.group (if modField modrm = 3 then .grp7_0x0f01_11b else .grp7_0x0f01_mem))
      (regField modrm) (splitGroupEntry tables .grp7_0x0f01_mem .grp7_0x0f01_11b modrm)
  | group15 (modrm : Byte) :
    Selects tables st (.group (if modField modrm = 3 then .grp15_0x0fae_11b else .grp15_0x0fae_mem))
      (regField modrm) (splitGroupEntry tables .grp15_0x0fae_mem .grp15_0x0fae_11b modrm)

/-- In `lookup` it is that entry the function ends with. -/
theorem lookup_eq_select {tables : Tables} {t : TableName} {opc : Byte}
    (h : (tables.insts t opc.toNat).type = .normal ∨ (tables.insts t opc.toNat).type = .needSpecPrefix)
    (code : Code) (st : PrefixState) (stream : Word) :
    lookup tables code st t opc stream = .select code st (mapEntry tables st t opc) stream := by
  unfold lookup mapEntry
  rcases h with h | h
  · simp [h]
  · simp [h]

/-! ### Files -/

/-- How many opcodes a table has. -/
def TableName.size : TableName → ℕ
  | .group _ => 8
  | _ => 256

/-- A file whose rows describe nothing twice. The builder knows their operators, their opcodes are
opcodes of their tables, and they have no more operands than an entry has. -/
structure RowFile where
  file : List Section
  distinct : ∀ t, Distinct (rowsOf file t)
  known : ∀ t, ∀ d ∈ rowsOf file t, d.omitted = false → d.operator.type ≠ none
  inside : ∀ t, ∀ d ∈ rowsOf file t, d.omitted = false → d.rngEnd < t.size
  operands : ∀ t, ∀ d ∈ rowsOf file t, d.operades.length ≤ 4

/-- How many places of `spec_prefix_table` a row takes: one for each opcode. -/
def Descriptor.places (d : Descriptor) : ℕ :=
  if d.omitted || d.specPrefix.isNone then 0 else d.rngEnd + 1 - d.rngStart

/-- How many places the rows of a file take. -/
def places (file : List Section) : ℕ := (file.map fun s => (s.2.map Descriptor.places).sum).sum

/-- `next_inst` finds the rows of a file in these tables. -/
structure FoundIn (file : List Section) (tables : Tables) : Prop where
  /-- What is described is found. -/
  described : ∀ st t i row, Selects tables st t i row →
    ∀ d ∈ rowsOf file t, d.describes i st.specPrefix = true → row = d.row
  /-- Where an opcode has rows for other prefixes, the place that is found is the first one, and it
  is invalid. -/
  undescribed : ∀ st t i row, Selects tables st t i row →
    (∃ d ∈ rowsOf file t, d.covers i = true ∧ d.specPrefix ≠ none) →
    (∀ d ∈ rowsOf file t, d.describes i st.specPrefix = false) →
    (tables.insts t i).spec st.specPrefix = 0 ∧ row = (tables.specPrefixTable 0).row ∧ row = {}

/-- The tables are built, printed and compiled, and the rows are found in them. -/
def Faithful (file : List Section) : Prop :=
  ∃ pieces tables, buildtable file = .ok pieces ∧ compile pieces = some tables ∧ FoundIn file tables

/-- The tables that are selected by `mod`. -/
def GroupName.bySplit : GroupName → Bool
  | .grp7_0x0f01_mem | .grp7_0x0f01_11b | .grp15_0x0fae_mem | .grp15_0x0fae_11b => true
  | _ => false

/-- What it takes. -/
structure Printable (file : List Section) : Prop where
  /-- There is a place for each row and opcode, besides the first one. -/
  room : places file < specPrefixTableLength
  /-- The places are not as many as the opcodes of a map. -/
  not_map : places file + 1 ≠ 256
  /-- Rows of the tables that are selected by `mod` have no mandatory prefix. -/
  plain : ∀ g, g.bySplit = true → ∀ d ∈ rowsOf file (.group g), ∀ i, d.covers i = true → d.specPrefix = none
  /-- Invalid rows have no operands and no mark. -/
  bare : ∀ t, ∀ d ∈ rowsOf file t, ∀ i, d.covers i = true → d.row.type = .invalid → d.row = {}

/-! ### Places -/

theorem next_addAt (table : TableName) (d : Descriptor) (type : InstType) (st : Tables) (i : ℕ) :
    (addAt table d type st i).nextSpecPrefixInstruction =
      st.nextSpecPrefixInstruction + if d.specPrefix.isNone then 0 else 1 := by
  unfold addAt
  cases d.specPrefix with
  | none => rfl
  | some p => rfl

theorem next_foldl_addAt (table : TableName) (d : Descriptor) (type : InstType) (st : Tables) (l : List ℕ) :
    (l.foldl (addAt table d type) st).nextSpecPrefixInstruction =
      st.nextSpecPrefixInstruction + if d.specPrefix.isNone then 0 else l.length := by
  induction l generalizing st with
  | nil => simp
  | cons i l ih =>
    rw [List.foldl_cons, ih, next_addAt, List.length_cons]
    split_ifs <;> omega

theorem next_addDescriptor {st st' : Tables} {table : TableName} {d : Descriptor}
    (h : addDescriptor st table d = some st') :
    st'.nextSpecPrefixInstruction = st.nextSpecPrefixInstruction + d.places := by
  unfold addDescriptor at h
  unfold Descriptor.places
  split_ifs at h with hom
  · cases h
    simp [hom]
  · obtain ⟨type, -, h⟩ := Option.bind_eq_some_iff.mp h
    cases h
    rw [next_foldl_addAt, List.length_range']
    simp [hom]

theorem next_addSection {st st' : Tables} {s : Section} (h : addSection st s = some st') :
    st'.nextSpecPrefixInstruction = st.nextSpecPrefixInstruction + (s.2.map Descriptor.places).sum := by
  obtain ⟨table, rows⟩ := s
  induction rows generalizing st with
  | nil =>
    cases h
    rfl
  | cons d rows ih =>
    obtain ⟨st₁, hd, h⟩ := Option.bind_eq_some_iff.mp h
    have := ih h
    have := next_addDescriptor hd
    simp only [List.map_cons, List.sum_cons] at *
    omega

theorem next_foldlM_addSection {st st' : Tables} {file : List Section}
    (h : file.foldlM addSection st = some st') :
    st'.nextSpecPrefixInstruction = st.nextSpecPrefixInstruction + places file := by
  induction file generalizing st with
  | nil =>
    cases h
    rfl
  | cons s file ih =>
    obtain ⟨st₁, hs, h⟩ := Option.bind_eq_some_iff.mp h
    rw [ih h, next_addSection hs, Nat.add_assoc]
    rfl

/-- **A place for each opcode of a row with a mandatory prefix, and one for none.** -/
theorem next_buildTables {file : List Section} {st : Tables} (h : buildTables file = some st) :
    st.nextSpecPrefixInstruction = places file + 1 := by
  rw [next_foldlM_addSection h, Nat.add_comm]
  rfl

/-! ### The print is a source -/

section Reading

/-- Entries are put into a table one after the other, the invalid ones left out. -/
def putAll (put : Tables → ℕ → OpcodeTableEntry → Tables) (table : ℕ → OpcodeTableEntry) : ℕ → Tables → Tables
  | 0, st => st
  | n + 1, st =>
    if (table n).type = .invalid then putAll put table n st
    else put (putAll put table n st) n (table n)

theorem foldlM_printEntries {put : Tables → ℕ → OpcodeTableEntry → Tables} {place : Place} {n : ℕ}
    (hput : ∀ st i e, i < n → readPiece (st, place) (.entry i e) = some (put st i e, place))
    (table : ℕ → OpcodeTableEntry) (st : Tables) :
    (printEntries table n).foldlM readPiece (st, place) = some (putAll put table n st, place) := by
  induction n with
  | zero => rfl
  | succ n ih =>
    have hfirst := ih fun st i e hi => hput st i e (Nat.lt_succ_of_lt hi)
    have hlast := hput (putAll put table n st) n (table n) (Nat.lt_succ_self n)
    unfold printEntries at hfirst ⊢
    rw [List.range_succ, List.flatMap_append, List.foldlM_append, hfirst, putAll]
    split_ifs with hinv
    · simp [hinv]
    · simp [hinv, hlast]

/-- Entries over others, the invalid ones left out. -/
def fill (table : ℕ → OpcodeTableEntry) (n : ℕ) (old : ℕ → OpcodeTableEntry) : ℕ → OpcodeTableEntry :=
  fun i => if i < n ∧ (table i).type ≠ .invalid then table i else old i

theorem fill_zero (table old : ℕ → OpcodeTableEntry) : fill table 0 old = old := by
  funext i
  exact if_neg fun h => Nat.not_lt_zero _ h.1

theorem fill_succ (table old : ℕ → OpcodeTableEntry) (n : ℕ) :
    fill table (n + 1) old =
      if (table n).type = .invalid then fill table n old
      else Function.update (fill table n old) n (table n) := by
  funext i
  by_cases hi : i = n
  · subst hi
    by_cases hinv : (table i).type = .invalid
    · simp [fill, hinv]
    · simp [fill, hinv]
  · have hlt : i < n + 1 ↔ i < n := by omega
    by_cases hinv : (table n).type = .invalid
    · simp only [fill, hlt, hinv, if_true]
    · simp only [fill, hlt, hinv, if_false, Function.update_of_ne hi]

theorem putAll_set (t : TableName) (table : ℕ → OpcodeTableEntry) (n : ℕ) (st : Tables) :
    putAll (fun st i e => st.set t i e) table n st =
      { st with insts := Function.update st.insts t (fill table n (st.insts t)) } := by
  induction n with
  | zero => rw [putAll, fill_zero, Function.update_eq_self]
  | succ n ih =>
    rw [putAll, fill_succ, ih]
    split_ifs
    · rfl
    · simp only [Tables.set, Function.update_self, Function.update_idem]

theorem putAll_setSpec (table : ℕ → OpcodeTableEntry) (n : ℕ) (st : Tables) :
    putAll Tables.setSpec table n st =
      { st with specPrefixTable := fill table n st.specPrefixTable } := by
  induction n with
  | zero => rw [putAll, fill_zero]
  | succ n ih =>
    rw [putAll, fill_succ, ih]
    split_ifs
    · rfl
    · rfl

/-- A table with the first entries of another one. -/
def withTable (src : Tables) (n : ℕ) (st : Tables) (t : TableName) : Tables :=
  { st with insts := Function.update st.insts t (fill (src.insts t) n (st.insts t)) }

/-- An opcode map is read. -/
theorem foldlM_printMap (src st : Tables) (t : TableName) :
    (printOneTable (some (.map t)) (src.insts t) 256).foldlM readPiece (st, .top) =
      some (withTable src 256 st t, .top) := by
  have hopen : ((some (ArrayName.map t)).toList.map (Piece.openArray · 256)).foldlM readPiece (st, .top) =
      some (st, .array (.map t) 256) := rfl
  have hentries : (printEntries (src.insts t) 256).foldlM readPiece (st, .array (.map t) 256) =
      some (withTable src 256 st t, .array (.map t) 256) := by
    rw [withTable, ← putAll_set]
    refine foldlM_printEntries ?_ _ st
    intro st i e hi
    exact if_pos hi
  unfold printOneTable
  rw [if_pos rfl, if_pos rfl, List.foldlM_append, List.foldlM_append, hopen, Option.bind_eq_bind,
    Option.bind_some, hentries]
  rfl

/-- The opcode maps are read. -/
theorem foldlM_printMaps (src st : Tables) (ts : List TableName) :
    (ts.flatMap fun t => printOneTable (some (.map t)) (src.insts t) 256).foldlM readPiece (st, .top) =
      some (ts.foldl (withTable src 256) st, .top) := by
  induction ts generalizing st with
  | nil => rfl
  | cons t ts ih =>
    rw [List.flatMap_cons, List.foldlM_append, foldlM_printMap, Option.bind_eq_bind, Option.bind_some, ih]
    rfl

/-- A group is read. -/
theorem foldlM_printGroup (src st : Tables) (n : ℕ) (g : GroupName) :
    (printGroup src g).foldlM readPiece (st, .array .groups n) =
      some (withTable src 8 st (.group g), .array .groups n) := by
  have hopen : readPiece (st, .array .groups n) (.openGroup g) = some (st, .group n g) := rfl
  have hentries : (printEntries (src.insts (.group g)) 8).foldlM readPiece (st, .group n g) =
      some (withTable src 8 st (.group g), .group n g) := by
    rw [withTable, ← putAll_set]
    refine foldlM_printEntries ?_ _ st
    intro st i e hi
    exact if_pos hi
  have hone : printOneTable none (src.insts (.group g)) 8 = printEntries (src.insts (.group g)) 8 :=
    List.append_nil _
  unfold printGroup
  rw [hone, List.cons_append, List.foldlM_cons, hopen, Option.bind_eq_bind, Option.bind_some,
    List.foldlM_append, hentries]
  rfl

theorem foldlM_flatMap_printGroup (src st : Tables) (n : ℕ) (gs : List GroupName) :
    (gs.flatMap (printGroup src)).foldlM readPiece (st, .array .groups n) =
      some ((gs.map .group).foldl (withTable src 8) st, .array .groups n) := by
  induction gs generalizing st with
  | nil => rfl
  | cons g gs ih =>
    rw [List.flatMap_cons, List.foldlM_append, foldlM_printGroup, Option.bind_eq_bind, Option.bind_some, ih]
    rfl

/-- `group_insts` is read. -/
theorem foldlM_printGroups (src st : Tables) :
    (printGroups src).foldlM readPiece (st, .top) =
      some ((groupNames.map .group).foldl (withTable src 8) st, .top) := by
  have hopen : readPiece (st, .top) (.openArray .groups groupNames.length) =
      some (st, .array .groups groupNames.length) := rfl
  unfold printGroups
  rw [List.cons_append, List.foldlM_cons, hopen, Option.bind_eq_bind, Option.bind_some, List.foldlM_append,
    foldlM_flatMap_printGroup]
  rfl

/-- `spec_prefix_insts` is read, unless it is closed twice. -/
theorem foldlM_printSpec (src st : Tables) :
    (printSpec src).foldlM readPiece (st, .top) =
      if src.nextSpecPrefixInstruction = 256 then none
      else some (⟨st.insts, fill src.specPrefixTable src.nextSpecPrefixInstruction st.specPrefixTable,
        st.nextSpecPrefixInstruction⟩, .top) := by
  set n := src.nextSpecPrefixInstruction with hdef
  have hopen : readPiece (st, .top) (.openArray .spec n) = some (st, .array .spec n) := rfl
  have hentries : (printEntries src.specPrefixTable n).foldlM readPiece (st, .array .spec n) =
      some ({ st with specPrefixTable := fill src.specPrefixTable n st.specPrefixTable }, .array .spec n) := by
    rw [← putAll_setSpec]
    refine foldlM_printEntries ?_ _ st
    intro st i e hi
    exact if_pos hi
  unfold printSpec printOneTable
  rw [← hdef, List.cons_append, List.foldlM_cons, hopen, Option.bind_eq_bind, Option.bind_some]
  split_ifs with hn
  · -- `print_one_table` closes the array, and `print_table` does so again
    simp only [Option.toList_none, List.map_nil, List.nil_append, List.foldlM_append, hentries]
    rfl
  · simp only [List.append_nil, List.nil_append, List.foldlM_append, hentries]
    rfl

/-- The tables that are compiled. -/
def Tables.compiled (st : Tables) : Tables where
  insts := fun t i => if i < t.size then (st.insts t i).printed else {}
  specPrefixTable := fun n => if n < st.nextSpecPrefixInstruction then (st.specPrefixTable n).printed else {}
  nextSpecPrefixInstruction := 1

theorem fill_empty (table : ℕ → OpcodeTableEntry) (n : ℕ) :
    fill table n (fun _ => {}) = fun i => if i < n then (table i).printed else {} := by
  funext i
  unfold fill OpcodeTableEntry.printed
  by_cases hi : i < n
  · by_cases hinv : (table i).type = .invalid
    · simp [hi, hinv]
    · simp [hi, hinv]
  · simp [hi]

theorem mem_groupNames (g : GroupName) : g ∈ groupNames := by
  cases g <;> decide

theorem insts_foldl_withTable (src : Tables) (n : ℕ) {ts : List TableName} (hts : ts.Nodup) (st : Tables)
    (t : TableName) : (ts.foldl (withTable src n) st).insts t =
      if t ∈ ts then fill (src.insts t) n (st.insts t) else st.insts t := by
  induction ts generalizing st with
  | nil => rfl
  | cons u ts ih =>
    obtain ⟨hu, hts⟩ := List.nodup_cons.mp hts
    rw [List.foldl_cons, ih hts]
    by_cases ht : t = u
    · subst ht
      rw [if_neg hu, if_pos List.mem_cons_self]
      exact Function.update_self _ _ _
    · have hold : (withTable src n st u).insts t = st.insts t := Function.update_of_ne ht _ _
      rw [hold]
      exact if_congr (by simp [ht]) rfl rfl

/-- The rest of the tables is not touched. -/
theorem foldl_withTable (src : Tables) (n : ℕ) (ts : List TableName) (st : Tables) :
    (ts.foldl (withTable src n) st).specPrefixTable = st.specPrefixTable ∧
    (ts.foldl (withTable src n) st).nextSpecPrefixInstruction = st.nextSpecPrefixInstruction := by
  induction ts generalizing st with
  | nil => exact ⟨rfl, rfl⟩
  | cons t ts ih => exact ih _

theorem nodup_groups : (groupNames.map TableName.group).Nodup := by decide

theorem nodup_opcodeMaps : opcodeMaps.Nodup := by decide

theorem mem_opcodeMaps {t : TableName} : t ∈ opcodeMaps ↔ t.isMap = true := by
  cases t <;> simp [opcodeMaps, TableName.isMap]

theorem mem_map_group {t : TableName} : t ∈ groupNames.map TableName.group ↔ t.isMap = false := by
  cases t with
  | group g => exact iff_of_true (List.mem_map_of_mem (mem_groupNames g)) rfl
  | _ => simp [TableName.isMap]

/-- The opcode maps and the groups, as they are read. -/
theorem insts_read (src : Tables) :
    ((groupNames.map .group).foldl (withTable src 8) (opcodeMaps.foldl (withTable src 256) .empty)).insts =
      src.compiled.insts := by
  funext t
  have hempty : Tables.empty.insts t = fun _ => {} := rfl
  rw [insts_foldl_withTable src 8 nodup_groups, insts_foldl_withTable src 256 nodup_opcodeMaps, hempty]
  cases ht : t.isMap with
  | true =>
    have hsize : t.size = 256 := by cases t <;> first | rfl | cases ht
    rw [if_neg (by rw [mem_map_group, ht]; decide), if_pos (mem_opcodeMaps.mpr ht), fill_empty, ← hsize]
    rfl
  | false =>
    have hsize : t.size = 8 := by cases t <;> first | rfl | cases ht
    rw [if_pos (mem_map_group.mpr ht), if_neg (by rw [mem_opcodeMaps, ht]; decide), fill_empty, ← hsize]
    rfl

/-- **The print is a source unless it closes an array twice.** -/
theorem compile_print (src : Tables) :
    compile src.print = if src.nextSpecPrefixInstruction = 256 then none else some src.compiled := by
  obtain ⟨hgspec, hgnext⟩ := foldl_withTable src 8 (groupNames.map .group)
    (opcodeMaps.foldl (withTable src 256) .empty)
  obtain ⟨hspec, hnext⟩ := foldl_withTable src 256 opcodeMaps .empty
  have hempty : Tables.empty.specPrefixTable = fun _ => {} := rfl
  unfold compile Tables.print printMaps
  rw [List.foldlM_append, List.foldlM_append, foldlM_printMaps]
  simp only [Option.bind_eq_bind, Option.bind_some, foldlM_printGroups, foldlM_printSpec]
  rw [insts_read, hgspec, hgnext, hspec, hnext, hempty, fill_empty]
  split_ifs with hn
  · rfl
  · rfl

end Reading

/-! ### What the compiled tables hold -/

/-- **What the rounds of `add_descriptor` keep, the builder keeps.** -/
theorem foldlM_addSection_induction {P : Tables → Prop} {file : List Section} {st st' : Tables} (h : P st)
    (hst : file.foldlM addSection st = some st')
    (hstep : ∀ s ∈ file, ∀ d ∈ s.2, ∀ i, d.covers i = true →
      ∀ type st, P st → P (addAt s.1 d type st i)) : P st' := by
  refine foldlM_induction h hst fun s hs st st' h hst => ?_
  refine foldlM_induction h hst fun d hd st st' h hst => ?_
  unfold addDescriptor at hst
  split_ifs at hst with hom
  · cases hst
    exact h
  · obtain ⟨type, -, hst⟩ := Option.bind_eq_some_iff.mp hst
    cases hst
    refine List.foldlRecOn _ _ h fun st h i hi => hstep s hs d hd i ?_ type st h
    rw [List.mem_range'_1] at hi
    simp only [Descriptor.covers, hom, Bool.not_false, Bool.true_and, Bool.and_eq_true, Nat.ble_eq]
    omega

theorem valid_buildTables {file : List Section} {st : Tables} (hf : buildTables file = some st) :
    st.Valid :=
  foldlM_addSection_induction valid_empty hf fun s _ d _ i _ type _ h => valid_addAt h s.1 d type i

/-- What is found under an opcode is what `print_table` leaves of it. -/
theorem resolve_compiled {st : Tables} (h : st.Valid) {t : TableName} {i : ℕ} (hi : i < t.size) :
    st.compiled.resolve t i = st.printTable.resolve t i := by
  have hinst : st.compiled.insts t i = (st.insts t i).printed := if_pos hi
  have hlt : ∀ p, (st.insts t i).printed.spec p < st.nextSpecPrefixInstruction := by
    intro p
    unfold OpcodeTableEntry.printed
    split_ifs
    · exact h.next_pos
    · exact h.spec_lt t i p
  have hspec : ∀ p, st.compiled.specPrefixTable ((st.insts t i).printed.spec p) =
      (st.specPrefixTable ((st.insts t i).printed.spec p)).printed := fun p => if_pos (hlt p)
  simp only [Tables.resolve, hinst, hspec, Tables.printTable]

theorem select_compiled {st : Tables} (h : st.Valid) {t : TableName} {i : ℕ} (hi : i < t.size)
    (p : SpecPrefix) : (st.compiled.resolve t i).select p = ((st.resolve t i).select p).printed := by
  rw [resolve_compiled h hi, st.select_printTable]

theorem own_compiled {st : Tables} (h : st.Valid) {t : TableName} {i : ℕ} (hi : i < t.size) :
    (st.compiled.resolve t i).own = (st.resolve t i).own.printed := by
  rw [resolve_compiled h hi, st.own_printTable]

/-! ### Entries that lead nowhere -/

theorem mem_rowsOf {file : List Section} {t : TableName} {rows : List Descriptor} (hs : (t, rows) ∈ file)
    {d : Descriptor} (hd : d ∈ rows) : d ∈ rowsOf file t := by
  refine List.mem_flatMap.mpr ⟨_, hs, ?_⟩
  rwa [if_pos rfl]

section SpecZero

variable {t : TableName} {j : ℕ} {p : SpecPrefix}

/-- The row takes a place for the opcode and the prefix. -/
def Descriptor.takes (d : Descriptor) (j : ℕ) (p : SpecPrefix) : Prop :=
  d.covers j = true ∧ d.specPrefix = some p

theorem spec_addAt {st : Tables} (h : (st.insts t j).spec p = 0) {table : TableName} {d : Descriptor}
    {type : InstType} {i : ℕ} (hd : t = table → j = i → d.specPrefix ≠ some p) :
    ((addAt table d type st i).insts t j).spec p = 0 := by
  unfold addAt
  cases hq : d.specPrefix with
  | none =>
    simp only [addPlain, Tables.insts_set]
    split_ifs with htj
    · obtain ⟨rfl, rfl⟩ := htj
      exact h
    · exact h
  | some q =>
    simp only [addSpec, Tables.insts_set]
    split_ifs with htj
    · obtain ⟨rfl, rfl⟩ := htj
      have hne : p ≠ q := by
        rintro rfl
        exact hd rfl rfl hq
      simp only [specEntryAt, Function.update_of_ne hne, specEntry]
      split_ifs
      · rfl
      · exact h
    · exact h

/-- **Where no row takes a place, the entry leads to the first one.** -/
theorem spec_buildTables {file : List Section} {st : Tables} (hf : buildTables file = some st)
    (hfile : ∀ d ∈ rowsOf file t, ¬ d.takes j p) : (st.insts t j).spec p = 0 := by
  refine foldlM_addSection_induction (P := fun st => (st.insts t j).spec p = 0) rfl hf ?_
  rintro ⟨table, rows⟩ hs d hd i hc type st h
  refine spec_addAt h ?_
  rintro rfl rfl hq
  exact hfile d (mem_rowsOf hs hd) ⟨hc, hq⟩

end SpecZero

/-! ### What is selected -/

section Selected

variable {tables : Tables} {st : PrefixState} {t : TableName} {i : ℕ} {row : InstRow}

/-- What is selected is what is found under the prefix, or the entry itself where `mod` decides. -/
theorem Selects.cases (h : Selects tables st t i row) : i < t.size ∧
    (row = (tables.resolve t i).select st.specPrefix ∨
      (∃ g, t = .group g ∧ g.bySplit = true) ∧ row = (tables.resolve t i).own) := by
  cases h with
  | map ht opc =>
    have hsize : t.size = 256 := by cases t <;> first | rfl | cases ht
    exact ⟨hsize ▸ opc.isLt, .inl rfl⟩
  | group g modrm => exact ⟨regField_lt modrm, .inl rfl⟩
  | group7 modrm =>
    refine ⟨regField_lt modrm, .inr ⟨⟨_, rfl, ?_⟩, rfl⟩⟩
    split_ifs <;> rfl
  | group15 modrm =>
    refine ⟨regField_lt modrm, .inr ⟨⟨_, rfl, ?_⟩, rfl⟩⟩
    split_ifs <;> rfl

/-- Each prefix is selected by some bytes. -/
theorem exists_specPrefix (p : SpecPrefix) : ∃ st : PrefixState, st.specPrefix = p := by
  cases p with
  | none => exact ⟨{}, rfl⟩
  | p66 => exact ⟨{ prefix3 := 0x66 }, rfl⟩
  | pf2 => exact ⟨{ prefix1 := 0xf2 }, rfl⟩
  | pf3 => exact ⟨{ prefix1 := 0xf3 }, rfl⟩

/-- Each entry of a group is selected by some ModRM byte, with a register or without. -/
theorem exists_modrm {i : ℕ} (hi : i < 8) (reg : Bool) :
    ∃ modrm : Byte, regField modrm = i ∧ (modField modrm = 3 ↔ reg = true) := by
  refine ⟨(if reg then 0xc0 else 0) ||| BitVec.ofNat 8 (8 * i), ?_⟩
  revert i reg
  decide

/-- Every opcode of a table is looked up there. -/
theorem exists_selects (tables : Tables) {t : TableName} {i : ℕ} (hi : i < t.size) (st : PrefixState) :
    Selects tables st t i ((tables.resolve t i).select st.specPrefix) := by
  cases ht : t.isMap with
  | true =>
    have hsize : t.size = 256 := by cases t <;> first | rfl | cases ht
    have hopc : (BitVec.ofNat 8 i).toNat = i := by
      rw [BitVec.toNat_ofNat]
      omega
    have h : Selects tables st t (BitVec.ofNat 8 i).toNat (mapEntry tables st t (BitVec.ofNat 8 i)) := .map ht _
    rw [hopc] at h
    have hentry : mapEntry tables st t (BitVec.ofNat 8 i) = (tables.resolve t i).select st.specPrefix := by
      unfold mapEntry
      rw [hopc]
      rfl
    rwa [hentry] at h
  | false =>
    cases t with
    | group g =>
      obtain ⟨modrm, rfl, -⟩ := exists_modrm hi true
      exact .group g modrm
    | _ => cases ht

/-- In a table that is selected by `mod`, the entry itself is. -/
theorem exists_selects_own (tables : Tables) {g : GroupName} (hg : g.bySplit = true) {i : ℕ} (hi : i < 8)
    (st : PrefixState) : Selects tables st (.group g) i (tables.resolve (.group g) i).own := by
  have h₇ : ∀ modrm, Selects tables st
      (.group (if modField modrm = 3 then .grp7_0x0f01_11b else .grp7_0x0f01_mem)) (regField modrm)
      (tables.resolve (.group (if modField modrm = 3 then .grp7_0x0f01_11b else .grp7_0x0f01_mem))
        (regField modrm)).own := fun modrm => .group7 modrm
  have h₁₅ : ∀ modrm, Selects tables st
      (.group (if modField modrm = 3 then .grp15_0x0fae_11b else .grp15_0x0fae_mem)) (regField modrm)
      (tables.resolve (.group (if modField modrm = 3 then .grp15_0x0fae_11b else .grp15_0x0fae_mem))
        (regField modrm)).own := fun modrm => .group15 modrm
  obtain ⟨mem, rfl, hmem⟩ := exists_modrm hi false
  obtain ⟨reg, hreg, hmod⟩ := exists_modrm hi true
  have hmem' : modField mem ≠ 3 := fun h => absurd (hmem.mp h) (by decide)
  have hreg' : modField reg = 3 := hmod.mpr rfl
  cases g with
  | grp7_0x0f01_mem =>
    have h := h₇ mem
    rwa [if_neg hmem'] at h
  | grp7_0x0f01_11b =>
    have h := h₇ reg
    rwa [if_pos hreg', hreg] at h
  | grp15_0x0fae_mem =>
    have h := h₁₅ mem
    rwa [if_neg hmem'] at h
  | grp15_0x0fae_11b =>
    have h := h₁₅ reg
    rwa [if_pos hreg', hreg] at h
  | _ => cases hg

end Selected

/-! ### The way of a row -/

theorem exists_addDescriptor (st : Tables) (table : TableName) {d : Descriptor}
    (h : d.omitted = false → d.operator.type ≠ none) : ∃ st', addDescriptor st table d = some st' := by
  unfold addDescriptor
  split_ifs with hom
  · exact ⟨st, rfl⟩
  · obtain ⟨type, htype⟩ := Option.ne_none_iff_exists'.mp (h (by simpa using hom))
    rw [htype]
    exact ⟨_, rfl⟩

theorem exists_addSection (st : Tables) {s : Section}
    (h : ∀ d ∈ s.2, d.omitted = false → d.operator.type ≠ none) : ∃ st', addSection st s = some st' := by
  obtain ⟨table, rows⟩ := s
  induction rows generalizing st with
  | nil => exact ⟨st, rfl⟩
  | cons d rows ih =>
    obtain ⟨st₁, hd⟩ := exists_addDescriptor st table (h d List.mem_cons_self)
    obtain ⟨st', hst'⟩ := ih st₁ fun d' hd' => h d' (List.mem_cons_of_mem _ hd')
    exact ⟨st', Option.bind_eq_some_iff.mpr ⟨st₁, hd, hst'⟩⟩

theorem exists_foldlM_addSection (st : Tables) {file : List Section}
    (h : ∀ s ∈ file, ∀ d ∈ s.2, d.omitted = false → d.operator.type ≠ none) :
    ∃ st', file.foldlM addSection st = some st' := by
  induction file generalizing st with
  | nil => exact ⟨st, rfl⟩
  | cons s file ih =>
    obtain ⟨st₁, hs⟩ := exists_addSection st (h s List.mem_cons_self)
    obtain ⟨st', hst'⟩ := ih st₁ fun s' hs' => h s' (List.mem_cons_of_mem _ hs')
    exact ⟨st', Option.bind_eq_some_iff.mpr ⟨st₁, hs, hst'⟩⟩

theorem Descriptor.type_row_ne (d : Descriptor) : d.row.type ≠ .needSpecPrefix := by
  unfold Descriptor.row
  cases htype : d.operator.type with
  | none => simp
  | some type => exact Operator.type_ne_needSpecPrefix htype

section Way

variable (r : RowFile)

/-- The builder comes to its end. -/
theorem RowFile.exists_build : ∃ st, buildTables r.file = some st :=
  exists_foldlM_addSection .empty fun s hs d hd => r.known s.1 d (mem_rowsOf hs hd)

/-- A row that covers an opcode covers one of its table. -/
theorem RowFile.lt_size {t : TableName} {d : Descriptor} (hd : d ∈ rowsOf r.file t) {i : ℕ}
    (hc : d.covers i = true) : i < t.size := by
  simp only [Descriptor.covers, Bool.and_eq_true, Nat.ble_eq, Bool.not_eq_true'] at hc
  exact Nat.lt_of_le_of_lt hc.2 (r.inside t d hd hc.1.1)

variable {r} {st : Tables} (hf : buildTables r.file = some st)
include hf

theorem RowFile.found (t : TableName) (i : ℕ) : Found (rowsOf r.file t) i (st.resolve t i) := by
  rw [resolve_build hf]
  exact found_rows (r.distinct t) (r.known t) i

/-- What `buildtable` does, by the number of places. -/
theorem RowFile.buildtable_eq : buildtable r.file =
    if specPrefixTableLength ≤ places r.file then .error .overrun else .ok st.print := by
  unfold buildtable
  rw [hf]
  simp only [next_buildTables hf]
  exact if_congr Nat.lt_succ_iff rfl rfl

theorem RowFile.compile_eq : compile st.print = if places r.file + 1 = 256 then none else some st.compiled := by
  rw [compile_print, next_buildTables hf]

/-- **The rows of a printable file are found.** -/
theorem RowFile.foundIn (h : Printable r.file) : FoundIn r.file st.compiled := by
  have hvalid := valid_buildTables hf
  have hbare : ∀ {t d i}, d ∈ rowsOf r.file t → d.covers i = true → d.row.printed = d.row := by
    intro t d i hd hc
    unfold InstRow.printed
    split_ifs with hinv
    · exact (h.bare t d hd i hc hinv).symm
    · rfl
  constructor
  · intro ps t i row hsel d hd hdesc
    have hc : d.covers i = true := (Bool.and_eq_true_iff.mp hdesc).1
    obtain ⟨hi, rfl | ⟨⟨g, rfl, hg⟩, rfl⟩⟩ := hsel.cases
    · rw [select_compiled hvalid hi, (RowFile.found hf t i).listed d hd _ hdesc, hbare hd hc]
    · rw [own_compiled hvalid hi, (RowFile.found hf _ i).plain d hd hc (h.plain g hg d hd i hc), hbare hd hc]
  · rintro ps t i row hsel ⟨d, hd, hc, hp⟩ hno
    have hzero : (st.insts t i).spec ps.specPrefix = 0 := by
      refine spec_buildTables hf fun d' hd' ht => ?_
      have := hno d' hd'
      rw [(Descriptor.describes_iff_of_spec ht.1 ht.2 _).mpr rfl] at this
      cases this
    have hfirst : (st.compiled.specPrefixTable 0).row = {} := by
      have : st.compiled.specPrefixTable 0 = (st.specPrefixTable 0).printed := if_pos hvalid.next_pos
      rw [this, hvalid.fresh 0 (.inl rfl)]
      rfl
    obtain ⟨hi, rfl | ⟨⟨g, rfl, hg⟩, rfl⟩⟩ := hsel.cases
    · have hrow : (st.compiled.resolve t i).select ps.specPrefix = {} := by
        rw [select_compiled hvalid hi, (RowFile.found hf t i).unlisted _ hno]
        rfl
      refine ⟨?_, hrow.trans hfirst.symm, hrow⟩
      have hinst : st.compiled.insts t i = (st.insts t i).printed := if_pos hi
      rw [hinst, OpcodeTableEntry.printed]
      split_ifs
      · rfl
      · exact hzero
    · exact absurd (h.plain g hg d hd i hc) hp

/-- In a table that is selected by `mod`, a row with a mandatory prefix is not found. -/
theorem RowFile.plain_of_foundIn (h : FoundIn r.file st.compiled) {g : GroupName} (hg : g.bySplit = true)
    {d : Descriptor} (hd : d ∈ rowsOf r.file (.group g)) {i : ℕ} (hc : d.covers i = true) :
    d.specPrefix = none := by
  have hvalid := valid_buildTables hf
  by_contra hp
  obtain ⟨q, hq⟩ := Option.ne_none_iff_exists'.mp hp
  obtain ⟨ps, hps⟩ := exists_specPrefix q
  have hi : i < 8 := r.lt_size hd hc
  have hrow := h.described ps _ i _ (exists_selects_own st.compiled hg hi ps) d hd
    ((Descriptor.describes_iff_of_spec hc hq _).mpr hps.symm)
  have hown := (RowFile.found hf _ i).dependent d hd hc hp
  rw [own_compiled hvalid hi, InstRow.printed, if_neg (by rw [hown]; decide)] at hrow
  exact d.type_row_ne (hrow ▸ hown)

/-- An invalid row is printed as nothing. -/
theorem RowFile.bare_of_foundIn (h : FoundIn r.file st.compiled) {t : TableName} {d : Descriptor}
    (hd : d ∈ rowsOf r.file t) {i : ℕ} (hc : d.covers i = true) (hinv : d.row.type = .invalid) :
    d.row = {} := by
  have hvalid := valid_buildTables hf
  obtain ⟨p, hp⟩ := Descriptor.exists_describes hc
  obtain ⟨ps, rfl⟩ := exists_specPrefix p
  have hi := r.lt_size hd hc
  have hrow := h.described ps t i _ (exists_selects st.compiled hi ps) d hd hp
  rw [select_compiled hvalid hi, (RowFile.found hf t i).listed d hd _ hp, InstRow.printed, if_pos hinv] at hrow
  exact hrow.symm

end Way

/-- **`next_inst` finds each row where it was described if and only if** there are places for all rows,
they are not 255, no row of a table that is selected by `mod` has a mandatory prefix, and no invalid row
has operands or a mark. -/
theorem tables_faithful_iff (r : RowFile) : Faithful r.file ↔ Printable r.file := by
  obtain ⟨st, hf⟩ := r.exists_build
  have hbuild := RowFile.buildtable_eq hf
  have hcompile := RowFile.compile_eq hf
  constructor
  · rintro ⟨pieces, tables, hpieces, htables, hfound⟩
    rw [hbuild] at hpieces
    split_ifs at hpieces with hroom
    cases hpieces
    rw [hcompile] at htables
    split_ifs at htables with hmap
    cases htables
    exact ⟨Nat.lt_of_not_le hroom, hmap, fun g hg d hd i hc => RowFile.plain_of_foundIn hf hfound hg hd hc,
      fun t d hd i hc hinv => RowFile.bare_of_foundIn hf hfound hd hc hinv⟩
  · intro h
    refine ⟨st.print, st.compiled, ?_, ?_, RowFile.foundIn hf h⟩
    · rw [hbuild, if_neg (Nat.not_le.mpr h.room)]
    · rw [hcompile, if_neg h.not_map]

/-- 255 rows with the mandatory prefix `66`, one for each of the first opcodes. -/
def specRows : List Descriptor := (List.range 255).map fun i => .spec .p66 i "nop" []

theorem mem_specRows {t : TableName} {d : Descriptor} (h : d ∈ rowsOf [(.twobytes, specRows)] t) :
    ∃ i < 255, t = .twobytes ∧ d = .spec .p66 i "nop" [] := by
  obtain ⟨s, hs, hd⟩ := List.mem_flatMap.mp h
  obtain rfl := List.mem_singleton.mp hs
  split_ifs at hd with ht
  · obtain ⟨i, hi, rfl⟩ := List.mem_map.mp hd
    exact ⟨i, List.mem_range.mp hi, ht, rfl⟩
  · cases hd

theorem Descriptor.eq_of_describes_spec {q p : SpecPrefix} {a i : ℕ} {name : String} {ops : List Operade}
    (h : (Descriptor.spec q a name ops).describes i p = true) : i = a := by
  have hc := (Bool.and_eq_true_iff.mp h).1
  simp only [Descriptor.covers, Descriptor.spec, Bool.and_eq_true, Nat.ble_eq] at hc
  omega

theorem distinct_specRows (t : TableName) : Distinct (rowsOf [(.twobytes, specRows)] t) := by
  unfold rowsOf
  rw [List.flatMap_cons, List.flatMap_nil, List.append_nil]
  split_ifs
  · refine List.pairwise_map.mpr (List.pairwise_lt_range.imp fun {a b} hab i p ha => ?_)
    by_contra hb
    have := Descriptor.eq_of_describes_spec ha
    have := Descriptor.eq_of_describes_spec (Bool.not_eq_false _ ▸ hb)
    omega
  · exact .nil

/-- A file of these rows. -/
def specFile : RowFile where
  file := [(.twobytes, specRows)]
  distinct := distinct_specRows
  known t d hd _ := by
    obtain ⟨i, -, -, rfl⟩ := mem_specRows hd
    exact Option.some_ne_none _
  inside t d hd _ := by
    obtain ⟨i, hi, rfl, rfl⟩ := mem_specRows hd
    exact Nat.lt_succ_of_lt hi
  operands t d hd := by
    obtain ⟨i, -, -, rfl⟩ := mem_specRows hd
    exact Nat.zero_le _

/-- Their print is not a source. -/
theorem specFile_not_compiled : places specFile.file = 255 ∧ ¬ Faithful specFile.file := by
  have hplaces : places specFile.file = 255 := by decide +kernel
  refine ⟨hplaces, ?_⟩
  rintro ⟨pieces, tables, hpieces, htables, -⟩
  obtain ⟨st, hf⟩ := specFile.exists_build
  rw [RowFile.buildtable_eq hf, hplaces, if_neg (by decide)] at hpieces
  cases hpieces
  rw [RowFile.compile_eq hf, hplaces, if_pos rfl] at htables
  cases htables

/-! ### The file of the repository -/

/-- What a row of the file has to be, whatever the others are. -/
def Descriptor.fine (t : TableName) (d : Descriptor) : Bool :=
  d.operades.length ≤ 4 && (d.omitted || decide (d.rngEnd < t.size)) &&
    (decide (d.row.type ≠ .invalid) || decide (d.row = {}))

theorem rows_fine (t : TableName) : ∀ d ∈ rowsIn t, d.fine t = true := by
  rcases t with _ | _ | _ | _ | g
  · decide +kernel
  · decide +kernel
  · decide +kernel
  · decide +kernel
  · cases g <;> decide +kernel

theorem rows_plain {g : GroupName} (hg : g.bySplit = true) : ∀ d ∈ rowsIn (.group g), d.specPrefix = none := by
  cases g with
  | grp7_0x0f01_mem => decide +kernel
  | grp7_0x0f01_11b => decide +kernel
  | grp15_0x0fae_mem => decide +kernel
  | grp15_0x0fae_11b => decide +kernel
  | _ => cases hg

theorem places_x86Instructions : places x86Instructions = 361 := by decide +kernel

/-- The file, with what is known of it. -/
def x86File : RowFile where
  file := x86Instructions
  distinct := distinct_rows
  known := rows_known
  inside t d hd hom := by
    have h := rows_fine t d hd
    simp only [Descriptor.fine, hom, Bool.and_eq_true, Bool.false_or, decide_eq_true_eq] at h
    exact h.1.2
  operands t d hd := by
    have h := rows_fine t d hd
    simp only [Descriptor.fine, Bool.and_eq_true, decide_eq_true_eq] at h
    exact h.1.1

theorem printable_x86File : Printable x86File.file where
  room := places_x86Instructions ▸ by decide
  not_map := places_x86Instructions ▸ by decide
  plain _ hg d hd _ _ := rows_plain hg d hd
  bare t d hd _ _ hinv := by
    have h := rows_fine t d hd
    simp only [Descriptor.fine, hinv, ne_eq, not_true_eq_false, decide_false, Bool.false_or, Bool.and_eq_true,
      decide_eq_true_eq] at h
    exact h.2

/-- **The tables of the repository are compiled, and `next_inst` finds its rows in them.** What it
finds under an opcode is what `x86Opcode` says. -/
theorem x86Opcode_compiled : ∃ pieces tables, buildtable x86Instructions = .ok pieces ∧
    compile pieces = some tables ∧ FoundIn x86Instructions tables ∧
    ∀ t i, i < t.size → tables.resolve t i = x86Opcode.resolve t i := by
  obtain ⟨st, hf⟩ := x86File.exists_build
  have hf' : buildTables x86Instructions = some st := hf
  refine ⟨st.print, st.compiled, ?_, ?_, RowFile.foundIn hf printable_x86File, fun t i hi => ?_⟩
  · exact (RowFile.buildtable_eq hf).trans (if_neg (Nat.not_le.mpr printable_x86File.room))
  · exact (RowFile.compile_eq hf).trans (if_neg printable_x86File.not_map)
  · rw [resolve_compiled (valid_buildTables hf) hi, x86Opcode_eq, hf', Option.getD_some]

end Snitchaser.Decoder
