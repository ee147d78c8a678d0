import Mathlib.Data.Nat.Notation

/-!
# Opcode tables: the vocabulary

The enumerations and records of `x86_opcode.h`, shared by the table builder
(`buildtable.c`), which runs when the recorder is built, and the decoder
(`scan_opcode.c`), which reads the tables it prints.

## The model

The source packs flags into the numbers of its enumerations. Here an addressing
form or an operand size is a constructor and each flag that the decoder tests is a
function on it. An entry that stands for several instructions told apart by a
mandatory prefix reuses, in the source, the `addressing` fields of its four operands
as indices into `spec_prefix_insts`; here the indices are a field of their own.
Names, register numbers and the flags of 64-bit mode, which the decoder does not
read, are left out.
-/

namespace Snitchaser.Decoder

/-- `enum group_table_name`. -/
inductive GroupName where
  | grp1_0x80 | grp1_0x81 | grp1_0x82 | grp1_0x83 | grp1A_0x8f
  | grp2_0xc0 | grp2_0xc1 | grp2_0xd0 | grp2_0xd1 | grp2_0xd2 | grp2_0xd3
  | grp3_0xf6 | grp3_0xf7 | grp4_0xfe | grp5_0xff | grp6_0x0f00
  | grp7_0x0f01_mem | grp7_0x0f01_11b | grp8_0x0fba | grp9_0x0fc7 | grp10_0x0fb9
  | grp11_0xc6 | grp11_0xc7 | grp12_0x0f71 | grp13_0x0f72 | grp14_0x0f73
  | grp15_0x0fae_mem | grp15_0x0fae_11b | grp16_0x0f18
  deriving DecidableEq, Repr

/-- `enum inst_type`. -/
inductive InstType where
  | invalid
  | normal
  | prefix1
  | prefix2
  | prefix3
  | prefix4
  /-- `INST_GROUP_start + 1 + g`. -/
  | group (g : GroupName)
  | group7
  | group15
  | escape2B
  | escape3B_0x38
  | escape3B_0x3a
  | escapeCop
  | needSpecPrefix
  | special
  deriving DecidableEq, Repr

/-- `enum operade_addressing`. -/
inductive Addressing where
  | A | C | D | E | F | G | I | J | M | N | O | P | Q | R | S | U | V | W | X | Y
  deriving DecidableEq, Repr

/-- The `REQ_MODRM` flag of an addressing form. -/
def Addressing.reqModrm : Addressing → Bool
  | .A | .F | .I | .J | .O | .X | .Y => false
  | _ => true

/-- `enum operade_size`; `xx` is `OP_SIZE_0`. -/
inductive OpSize where
  | a | b | c | d | dq | p | pd | pi | ps | q | s | ss | si | v | w | z | xx | sd
  deriving DecidableEq, Repr

/-- The low half of an operand size, `OPERADE_SIZE_BASE_MASK`. -/
def OpSize.base : OpSize → ℕ
  | .a | .s => 0xffff
  | .b | .c => 1
  | .d | .si | .v | .z => 4
  | .dq => 128
  | .p | .w => 2
  | .pd | .ps | .ss => 16
  | .pi | .q | .sd => 8
  | .xx => 0

/-- The `RESPECT_OPERADE_SIZE_66` flag of an operand size. -/
def OpSize.respects66 : OpSize → Bool
  | .a | .c | .p | .v | .z => true
  | _ => false

/-- `struct operade`. -/
inductive Operade where
  /-- An addressing form and a size. -/
  | normal (addressing : Addressing) (size : OpSize)
  /-- `OPERADE_ADDRESSING_CONSTANT`. -/
  | constant (value : ℕ)
  /-- `OPERADE_ADDRESSING_REGISTER`: a register, and the one `REX` turns it into. -/
  | register (r1 : String) (r2 : Option String)
  deriving DecidableEq, Repr

/-- The `REQ_MODRM` flag of an operand. -/
def Operade.reqModrm : Operade → Bool
  | .normal addressing _ => addressing.reqModrm
  | _ => false

/-- `enum spec_prefix_number`. -/
inductive SpecPrefix where
  | none | p66 | pf2 | pf3
  deriving DecidableEq, Repr

/-- `struct opcode_table_entry`. -/
structure OpcodeTableEntry where
  /-- What kind of entry it is. -/
  type : InstType := .invalid
  /-- The operands, `nr_operades` of them. -/
  operades : List Operade := []
  /-- For a prefix-dependent entry, where in `spec_prefix_insts` each prefix leads. -/
  spec : SpecPrefix → ℕ := fun _ => 0
  /-- The instruction ends a basic block. -/
  jmpnote : Bool := false

/-- The parts of an entry the decoder reads once the entry is selected. -/
@[ext]
structure InstRow where
  /-- What kind of entry it is. -/
  type : InstType := .invalid
  /-- The operands. -/
  operades : List Operade := []
  /-- The instruction ends a basic block. -/
  jmpnote : Bool := false
  deriving DecidableEq

/-- Forget where the entry leads. -/
def OpcodeTableEntry.row (e : OpcodeTableEntry) : InstRow := ⟨e.type, e.operades, e.jmpnote⟩

/-- `req_modrm`, as the printer computes it. -/
def InstRow.reqModrm (r : InstRow) : Bool := r.operades.any Operade.reqModrm

/-- `print_one_table` leaves an invalid entry out, so that it is all zero in print. -/
def OpcodeTableEntry.printed (e : OpcodeTableEntry) : OpcodeTableEntry :=
  if e.type = .invalid then {} else e

/-- The same for the parts that are read. -/
def InstRow.printed (r : InstRow) : InstRow := if r.type = .invalid then {} else r

/-- The tables rows are added to. -/
inductive TableName where
  | onebyte
  | twobytes
  | threebytes_0f38
  | threebytes_0f3a
  | group (g : GroupName)
  deriving DecidableEq, Repr

end Snitchaser.Decoder
