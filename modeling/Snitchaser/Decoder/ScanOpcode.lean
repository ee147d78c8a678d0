import Snitchaser.Common.Defs
import Snitchaser.Decoder.Instructions

/-!
# The decoder

`scan_opcode.c`: `next_inst` finds where the next instruction starts, or answers
`NULL` at an instruction that ends a basic block; `scan_insts` walks on to the first
such instruction.

## The model

`lookup` is one pass through the `switch` of `next_inst`, from a byte taken as an
opcode of a table: either the pass ends in `goto restart` with more prefixes or
another table, or it ends the function. `nextInstLoop` is the function, given how many
passes it may make. In an address space of `2 ^ 32` bytes a run of prefixes either
ends within `2 ^ 32` of them or never does, so `nextInst` is given two passes more than
that, for the escape bytes, and a run that does not end is `Fault.diverges`.
`NULL` is `none`.

`Encoded` splits the bytes at an address into prefixes, escape bytes and opcode;
`nextInst_of_encoded` says that `next_inst` is then the one pass at the opcode.
-/

namespace Snitchaser.Decoder

/-- The memory the decoder reads. -/
abbrev Code := Word → Byte

/-- `MOD(x)`. -/
def modField (x : Byte) : ℕ := ((x &&& 0xc0) >>> 6).toNat

/-- `REG(x)`. -/
def regField (x : Byte) : ℕ := ((x &&& 0x38) >>> 3).toNat

theorem regField_lt (x : Byte) : regField x < 8 := by
  revert x
  decide +kernel

/-- `RM(x)`. -/
def rmField (x : Byte) : ℕ := (x &&& 0x7).toNat

/-- `scan_modrm`: how far the stream, already behind the ModRM byte, moves on. -/
def scanModrm (code : Code) (stream : Word) (modrm : Byte) (addressSize : ℕ) : ℕ :=
  let modRm := modrm &&& 0xc7
  if addressSize = 2 then
    if modRm = 0x06 then 2
    else if modField modrm = 1 then 1
    else if modField modrm = 2 then 2
    else 0
  else
    let haveSib := rmField modrm = 0x04 ∧ modField modrm ≠ 0x03
    let disp :=
      if modRm = 0x05 then 4
      else if modField modrm = 0x01 then 1
      else if modField modrm = 0x02 then 4
      else 0
    if haveSib then
      (if code stream &&& 0x7 = 5 ∧ modField modrm = 0 then 4 else disp) + 1
    else disp

/-- The prefixes met so far, with the sizes they ask for. -/
structure PrefixState where
  /-- `lock`, `repne` or `rep`. -/
  prefix1 : Byte := 0
  /-- A segment override. -/
  prefix2 : Byte := 0
  /-- `0x66`. -/
  prefix3 : Byte := 0
  /-- `0x67`. -/
  prefix4 : Byte := 0
  /-- `operade_size`. -/
  operadeSize : ℕ := 4
  /-- `address_size`. -/
  addressSize : ℕ := 4
  deriving DecidableEq

/-- How many bytes of immediate data an operand takes. -/
def operadeBytes (st : PrefixState) : Operade → ℕ
  | .normal .A _ => 2 + st.operadeSize
  | .normal .I size | .normal .J size =>
    if size.respects66 ∧ st.prefix3 ≠ 0 then 2 else size.base
  | .normal .O _ => st.addressSize
  | _ => 0

/-- The type lies between `INST_GROUP_start` and `INST_GROUP_end`. -/
def InstType.isGroup : InstType → Bool
  | .group _ => true
  | _ => false

/-- The part of `next_inst` behind the `switch`: how far the selected entry moves
the stream on, or `NULL` at a jump. -/
def skipOperades (code : Code) (st : PrefixState) (e : InstRow) (stream : Word) : Option ℕ :=
  if e.jmpnote then none
  else if e.operades.length = 0 then some 0
  else
    let modrmBytes :=
      if e.reqModrm || e.type.isGroup then
        1 + scanModrm code (stream + 1) (code stream) st.addressSize
      else 0
    some (modrmBytes + (e.operades.map (operadeBytes st)).sum)

/-- Which mandatory prefix the order of the tests in `next_inst` selects. -/
def PrefixState.specPrefix (st : PrefixState) : SpecPrefix :=
  if st.prefix3 = 0x66 then .p66
  else if st.prefix1 = 0xf2 then .pf2
  else if st.prefix1 = 0xf3 then .pf3
  else .none

/-- How one pass through the `switch` ends. -/
inductive Pass where
  /-- `goto restart`, with these prefixes and this table. -/
  | restart (st : PrefixState) (table : TableName)
  /-- The stream behind the instruction, `NULL`, or `FATAL`. -/
  | done (result : Except Fault (Option Word))

/-- The function ends with the entry `e` selected. -/
def Pass.select (code : Code) (st : PrefixState) (e : InstRow) (stream : Word) : Pass :=
  .done (.ok ((skipOperades code st e stream).map fun n => stream + BitVec.ofNat 32 n))

/-- The entry of a group that the `reg` field of ModRM selects, following the
mandatory prefix where it depends on one. -/
def groupEntry (tables : Tables) (st : PrefixState) (g : GroupName) (modrm : Byte) : InstRow :=
  let e := tables.insts (.group g) (regField modrm)
  if e.type = .needSpecPrefix then (tables.specPrefixTable (e.spec st.specPrefix)).row else e.row

/-- The entry of a group that has a table of its own for `mod = 3`. -/
def splitGroupEntry (tables : Tables) (mem reg : GroupName) (modrm : Byte) : InstRow :=
  (tables.insts (.group (if modField modrm = 3 then reg else mem)) (regField modrm)).row

/-- One pass through the `switch`, with `opc` taken from `table` and `stream` behind it. -/
def lookup (tables : Tables) (code : Code) (st : PrefixState) (table : TableName) (opc : Byte)
    (stream : Word) : Pass :=
  match (tables.insts table opc.toNat).type with
  | .prefix1 => .restart { st with prefix1 := opc } table
  | .prefix2 => .restart { st with prefix2 := opc } table
  | .prefix3 =>
    .restart { st with prefix3 := opc
                       operadeSize := if opc = 0x66 then 2 else st.operadeSize } table
  | .prefix4 =>
    .restart { st with prefix4 := opc
                       addressSize := if opc = 0x67 then 2 else st.addressSize } table
  | .invalid => .done (.error (.fatal "invalid instruction 0x%x\n"))
  | .normal => .select code st (tables.insts table opc.toNat).row stream
  | .group g => .select code st (groupEntry tables st g (code stream)) stream
  | .group7 =>
    .select code st (splitGroupEntry tables .grp7_0x0f01_mem .grp7_0x0f01_11b (code stream))
      (if modField (code stream) = 3 then stream + 1 else stream)
  | .group15 =>
    .select code st (splitGroupEntry tables .grp15_0x0fae_mem .grp15_0x0fae_11b (code stream))
      (if modField (code stream) = 3 then stream + 1 else stream)
  | .escape2B => .restart st .twobytes
  | .escape3B_0x38 => .restart st .threebytes_0f38
  | .escape3B_0x3a => .restart st .threebytes_0f3a
  | .escapeCop =>
    .done (.ok (some (stream + 1 + BitVec.ofNat 32
      (scanModrm code (stream + 1) (code stream) st.addressSize))))
  | .needSpecPrefix =>
    .select code st (tables.specPrefixTable ((tables.insts table opc.toNat).spec st.specPrefix)).row
      stream
  | .special => .done (.error (.fatal "type %d not implelented\n"))

/-- The loop of `next_inst` around `restart`, with `n` more passes. -/
def nextInstLoop (tables : Tables) (code : Code) :
    ℕ → PrefixState → TableName → Word → Except Fault (Option Word)
  | 0, _, _, _ => .error .diverges
  | n + 1, st, table, stream =>
    match lookup tables code st table (code stream) (stream + 1) with
    | .restart st table => nextInstLoop tables code n st table (stream + 1)
    | .done result => result

/-- `next_inst(stream)`. -/
def nextInst (code : Code) (stream : Word) : Except Fault (Option Word) :=
  nextInstLoop x86Opcode code (2 ^ 32 + 2) {} .onebyte stream

/-- The loop of `scan_insts`, with `n` more rounds. -/
def scanInstsLoop (code : Code) : ℕ → Word → Except Fault Word
  | 0, _ => .error .diverges
  | n + 1, stream => do
    match ← nextInst code stream with
    | none => .ok stream
    | some next => scanInstsLoop code n next

/-- `scan_insts(stream)`: the first instruction from `stream` on that ends a basic
block. The walk comes back to an address it has been at, and then goes on for ever,
or ends within `2 ^ 32` rounds. -/
def scanInsts (code : Code) (stream : Word) : Except Fault Word :=
  scanInstsLoop code (2 ^ 32) stream

end Snitchaser.Decoder
