import Mathlib.Data.List.Pairwise
import Snitchaser.Decoder.Encoding

/-!
# Instruction lengths

What the processor manual says about the length of an instruction in 32-bit mode,
stated without the tables of the recorder, and when `next_inst` agrees with it.

## The specification

`Format` says what follows an opcode: whether a ModRM byte does, and which immediate
data. `format` gives it for the four opcode maps, by the regular pattern of the maps
rather than instruction by instruction. `intelLength` adds up prefixes, escape bytes,
opcode, the bytes ModRM asks for (`addressBytes`) and the immediate data, whose sizes
depend on the prefixes `66` and `67`. `archPrefix` is the mandatory prefix the
processor goes by: the last `f2` or `f3`, and `66` only if there is neither.

## What is proved

`nextInst_length_iff`: for an instruction that has a row in `x86_instructions.tbl`, and
is no jump, `next_inst` moves on by `intelLength` **exactly when** `LengthRight` holds.
It fails in three ways: the rows for opcodes `14`, `24` and `34` ask for a full-size
immediate where the instruction has one byte; moves to and from control and debug
registers are given address bytes by a `mod` field the processor ignores; and `66` is
tried before `f2` and `f3`, and a `lock` behind one of these hides it, so that the
instruction may be looked up under a prefix that has no row.
-/

namespace Snitchaser.Decoder

/-! ### The specification -/

/-- Immediate data behind the address bytes. -/
inductive Imm where
  /-- None. -/
  | none
  /-- One byte. -/
  | ib
  /-- Two bytes. -/
  | iw
  /-- As many as the operand size. -/
  | iz
  /-- Two bytes and one, for `enter`. -/
  | iwIb
  /-- A far pointer: a selector, and an offset of the operand size. -/
  | far
  /-- An address, of the address size. -/
  | moffs
  deriving DecidableEq

/-- How many bytes the immediate data takes, with `66` and with `67`. -/
def Imm.bytes (op16 addr16 : Bool) : Imm → ℕ
  | .none => 0
  | .ib => 1
  | .iw => 2
  | .iz => if op16 then 2 else 4
  | .iwIb => 3
  | .far => if op16 then 4 else 6
  | .moffs => if addr16 then 2 else 4

/-- What follows an opcode. -/
structure Format where
  /-- A ModRM byte does. -/
  modrm : Bool
  /-- The immediate data. -/
  imm : Imm
  /-- The `mod` field is ignored: ModRM names two registers. -/
  fixedMod : Bool := false

/-- The one-byte map; `reg` is the middle field of ModRM. -/
def onebyteFormat (opc reg : ℕ) : Format :=
  if opc < 0x40 then
    ⟨opc % 8 < 4, if opc % 8 = 4 then .ib else if opc % 8 = 5 then .iz else .none, false⟩
  else if opc ∈ [0x62, 0x63, 0xc4, 0xc5, 0xd0, 0xd1, 0xd2, 0xd3, 0xfe, 0xff] then ⟨true, .none, false⟩
  else if opc = 0x69 then ⟨true, .iz, false⟩
  else if opc = 0x6b then ⟨true, .ib, false⟩
  else if opc = 0x68 ∨ opc = 0xa9 then ⟨false, .iz, false⟩
  else if opc = 0x6a ∨ opc = 0xa8 ∨ opc = 0xcd ∨ opc = 0xd4 ∨ opc = 0xd5 ∨ opc = 0xeb then
    ⟨false, .ib, false⟩
  else if 0x70 ≤ opc ∧ opc < 0x80 ∨ 0xb0 ≤ opc ∧ opc < 0xb8 ∨ 0xe0 ≤ opc ∧ opc < 0xe8 then
    ⟨false, .ib, false⟩
  else if opc = 0x81 ∨ opc = 0xc7 then ⟨true, .iz, false⟩
  else if opc ∈ [0x80, 0x82, 0x83, 0xc0, 0xc1, 0xc6] then ⟨true, .ib, false⟩
  else if 0x84 ≤ opc ∧ opc < 0x90 ∨ 0xd8 ≤ opc ∧ opc < 0xe0 then ⟨true, .none, false⟩
  else if opc = 0x9a ∨ opc = 0xea then ⟨false, .far, false⟩
  else if 0xa0 ≤ opc ∧ opc < 0xa4 then ⟨false, .moffs, false⟩
  else if 0xb8 ≤ opc ∧ opc < 0xc0 ∨ opc = 0xe8 ∨ opc = 0xe9 then ⟨false, .iz, false⟩
  else if opc = 0xc2 ∨ opc = 0xca then ⟨false, .iw, false⟩
  else if opc = 0xc8 then ⟨false, .iwIb, false⟩
  else if opc = 0xf6 then ⟨true, if reg < 2 then .ib else .none, false⟩
  else if opc = 0xf7 then ⟨true, if reg < 2 then .iz else .none, false⟩
  else ⟨false, .none, false⟩

/-- The map behind `0f`. -/
def twobytesFormat (opc : ℕ) : Format :=
  if 0x20 ≤ opc ∧ opc < 0x24 then ⟨true, .none, true⟩
  else if 0x80 ≤ opc ∧ opc < 0x90 then ⟨false, .iz, false⟩
  else if 0x70 ≤ opc ∧ opc < 0x74 then ⟨true, .ib, false⟩
  else if opc ∈ [0x0f, 0xa4, 0xac, 0xba, 0xc2, 0xc4, 0xc5, 0xc6] then ⟨true, .ib, false⟩
  else if 0x04 ≤ opc ∧ opc < 0x0d ∨ opc = 0x0e ∨ 0x30 ≤ opc ∧ opc < 0x38 ∨ opc = 0x77 ∨
      0xa0 ≤ opc ∧ opc < 0xa3 ∨ 0xa8 ≤ opc ∧ opc < 0xab ∨ 0xc8 ≤ opc ∧ opc < 0xd0 then
    ⟨false, .none, false⟩
  else ⟨true, .none, false⟩

/-- What follows an opcode of a map. -/
def format (m : OpMap) (opc reg : ℕ) : Format :=
  match m with
  | .onebyte => onebyteFormat opc reg
  | .twobytes => twobytesFormat opc
  | .threebytes_0f38 => ⟨true, .none, false⟩
  | .threebytes_0f3a => ⟨true, .ib, false⟩

/-- The bytes of SIB and displacement that a ModRM byte asks for, `sib` being the byte
behind it. -/
def addressBytes (addr16 : Bool) (modrm sib : Byte) : ℕ :=
  let mod := modrm.toNat / 64
  let rm := modrm.toNat % 8
  if addr16 then
    if mod = 1 then 1 else if mod = 2 ∨ mod = 0 ∧ rm = 6 then 2 else 0
  else if mod = 3 then 0
  else
    (if rm = 4 then 1 else 0) +
    (if mod = 1 then 1
      else if mod = 2 ∨ rm = 5 ∨ rm = 4 ∧ sib.toNat % 8 = 5 then 4 else 0)

/-- The bytes a format takes, when ModRM asks for `address` more. -/
def Format.bytes (f : Format) (address : ℕ) (op16 addr16 : Bool) : ℕ :=
  (if f.modrm then 1 + address else 0) + f.imm.bytes op16 addr16

/-- The address bytes of the instruction whose opcode ends before `a`. -/
def addressBytesAt (code : Code) (ps : List Byte) (a : Word) : ℕ :=
  addressBytes (decide (0x67 ∈ ps)) (code a) (code (a + 1))

/-- The bytes behind the opcode. -/
def intelTail (code : Code) (stream : Word) (ps : List Byte) (m : OpMap) (opc : Byte) : ℕ :=
  (format m opc.toNat (regField (code (behindOpcode stream ps m)))).bytes
    (if (format m opc.toNat (regField (code (behindOpcode stream ps m)))).fixedMod then 0
      else addressBytesAt code ps (behindOpcode stream ps m))
    (decide (0x66 ∈ ps)) (decide (0x67 ∈ ps))

/-- **The length of the instruction at `stream`** by the manual. -/
def intelLength (code : Code) (stream : Word) (ps : List Byte) (m : OpMap) (opc : Byte) : ℕ :=
  ps.length + m.escapes.length + 1 + intelTail code stream ps m opc

/-- **The mandatory prefix the processor goes by**: the last `f2` or `f3`; `66` only if
there is neither. Before `0f 38 f0` and `0f 38 f1` a `66` is the operand size of `movbe`; here it
is a mandatory prefix there too, for which the file has no row, so these count as not listed. -/
def archPrefix (ps : List Byte) : SpecPrefix :=
  match ps.reverse.find? fun b => b = 0xf2 || b = 0xf3 with
  | some b => if b = 0xf2 then .pf2 else .pf3
  | none => if 0x66 ∈ ps then .p66 else .none

/-! ### The rows of the file -/

/-- The file's row for an opcode, or a slot of a group, under a prefix. -/
def rowFor (t : TableName) (i : ℕ) (p : SpecPrefix) : Option Descriptor :=
  (rowsIn t).find? fun d => d.describes i p

/-- The row is one for an instruction. -/
def Descriptor.isInst (d : Descriptor) : Bool :=
  match d.operator with
  | .inst _ => true
  | _ => false

/-- The table of a group that has one of its own for `mod = 3`. -/
def splitGroup (mem reg : GroupName) (modrm : Byte) : TableName :=
  .group (if modField modrm = 3 then reg else mem)

/-- `62`, `c4` and `c5` before a byte with `mod = 3` are no opcodes: `bound`, `les` and
`lds` need memory, and the processor takes the byte for the prefix of a vector
encoding, of which the file has none. -/
def isVex (m : OpMap) (opc modrm : Byte) : Bool :=
  m == .onebyte && (opc == 0x62 || opc == 0xc4 || opc == 0xc5) && modField modrm == 3

/-- **The file's row for an instruction**: that of its opcode, or that of its slot if
the opcode is a group; `modrm` is the byte behind the opcode. -/
def listedRow (m : OpMap) (opc modrm : Byte) (p : SpecPrefix) : Option Descriptor :=
  if isVex m opc modrm then none
  else (rowFor m.table opc.toNat p).bind fun d =>
    match d.operator with
    | .inst _ | .escapeCoprocessor => some d
    | .grp g => (rowFor (.group g) (regField modrm) p).filter Descriptor.isInst
    | .xxxGrp7 =>
      (rowFor (splitGroup .grp7_0x0f01_mem .grp7_0x0f01_11b modrm) (regField modrm) p).filter
        Descriptor.isInst
    | .xxxGrp15 =>
      (rowFor (splitGroup .grp15_0x0fae_mem .grp15_0x0fae_11b modrm) (regField modrm) p).filter
        Descriptor.isInst
    | _ => none

/-- The rows for `adc`, `and` and `xor` of `al` with a byte say `Iz`. -/
def wrongImmediate (m : OpMap) (opc : ℕ) : Prop :=
  m = .onebyte ∧ (opc = 0x14 ∨ opc = 0x24 ∨ opc = 0x34)

instance (m : OpMap) (opc : ℕ) : Decidable (wrongImmediate m opc) :=
  inferInstanceAs (Decidable (_ ∧ _))

/-- **When the decoder's length is the manual's.** -/
structure LengthRight (code : Code) (stream : Word) (ps : List Byte) (m : OpMap) (opc : Byte)
    (d : Descriptor) : Prop where
  /-- It is not `14`, `24` or `34`. -/
  immediate : ¬ wrongImmediate m opc.toNat
  /-- A move to or from a control or debug register has no address bytes even if its
  `mod` field were looked at. -/
  address : (format m opc.toNat 0).fixedMod = true →
    addressBytesAt code ps (behindOpcode stream ps m) = 0
  /-- If the row depends on a mandatory prefix, there is a row that is no jump for the
  prefix found by trying `66` first, and then the last of `f0`, `f2` and `f3`. -/
  selected : d.specPrefix ≠ none →
    ∃ d', listedRow m opc (code (behindOpcode stream ps m)) (prefixState ps).specPrefix = some d' ∧
      d'.jmpnote = false

/-! ### The rows against the formats -/

/-- What the file says of an opcode: the manual's format but for the wrong immediates. -/
def tableFormat (m : OpMap) (opc reg : ℕ) : Format :=
  if wrongImmediate m opc then ⟨false, .iz, false⟩ else format m opc reg

/-- Prefixes as far as immediate sizes depend on them. -/
def sizeState (op16 addr16 : Bool) : PrefixState :=
  { prefix3 := if op16 then 0x66 else 0
    operadeSize := if op16 then 2 else 4
    addressSize := if addr16 then 2 else 4 }

/-- The row takes the bytes of the format. -/
def Descriptor.fits (d : Descriptor) (f : Format) : Bool :=
  d.operades.any Operade.reqModrm == f.modrm &&
    [false, true].all fun op16 => [false, true].all fun addr16 =>
      (d.operades.map (operadeBytes (sizeState op16 addr16))).sum == f.imm.bytes op16 addr16

/-- The opcode that leads to a group. -/
def GroupName.home : GroupName → OpMap × ℕ
  | .grp1_0x80 => (.onebyte, 0x80)
  | .grp1_0x81 => (.onebyte, 0x81)
  | .grp1_0x82 => (.onebyte, 0x82)
  | .grp1_0x83 => (.onebyte, 0x83)
  | .grp1A_0x8f => (.onebyte, 0x8f)
  | .grp2_0xc0 => (.onebyte, 0xc0)
  | .grp2_0xc1 => (.onebyte, 0xc1)
  | .grp2_0xd0 => (.onebyte, 0xd0)
  | .grp2_0xd1 => (.onebyte, 0xd1)
  | .grp2_0xd2 => (.onebyte, 0xd2)
  | .grp2_0xd3 => (.onebyte, 0xd3)
  | .grp3_0xf6 => (.onebyte, 0xf6)
  | .grp3_0xf7 => (.onebyte, 0xf7)
  | .grp4_0xfe => (.onebyte, 0xfe)
  | .grp5_0xff => (.onebyte, 0xff)
  | .grp6_0x0f00 => (.twobytes, 0x00)
  | .grp7_0x0f01_mem | .grp7_0x0f01_11b => (.twobytes, 0x01)
  | .grp8_0x0fba => (.twobytes, 0xba)
  | .grp9_0x0fc7 => (.twobytes, 0xc7)
  | .grp10_0x0fb9 => (.twobytes, 0xb9)
  | .grp11_0xc6 => (.onebyte, 0xc6)
  | .grp11_0xc7 => (.onebyte, 0xc7)
  | .grp12_0x0f71 => (.twobytes, 0x71)
  | .grp13_0x0f72 => (.twobytes, 0x72)
  | .grp14_0x0f73 => (.twobytes, 0x73)
  | .grp15_0x0fae_mem | .grp15_0x0fae_11b => (.twobytes, 0xae)
  | .grp16_0x0f18 => (.twobytes, 0x18)

/-- The opcodes a row covers. -/
def Descriptor.opcodes (d : Descriptor) : List ℕ :=
  if d.omitted then [] else List.range' d.rngStart (d.rngEnd + 1 - d.rngStart)

theorem Descriptor.mem_opcodes {d : Descriptor} {i : ℕ} (h : d.covers i = true) : i ∈ d.opcodes := by
  unfold Descriptor.covers at h
  simp only [Bool.and_eq_true, Bool.not_eq_true', Nat.ble_eq] at h
  rw [Descriptor.opcodes, if_neg (by simp [h.1.1]), List.mem_range'_1]
  omega

/-- The row is an instruction's that moves the stream on. -/
def Descriptor.plainInst (d : Descriptor) : Bool := d.isInst && !d.jmpnote

/-- A row of a map says what the format says, and one with a mandatory prefix is an
instruction with a ModRM byte. -/
def mapRowOk (m : OpMap) (d : Descriptor) : Bool :=
  d.opcodes.all fun i =>
    (!d.plainInst || (List.range 8).all fun reg => d.fits (tableFormat m i reg)) &&
    (d.specPrefix.isNone || d.isInst && (format m i 0).modrm)

/-- The tables `next_inst` has for `mod = 3` only. -/
def GroupName.registers (g : GroupName) : Bool := g == .grp7_0x0f01_11b || g == .grp15_0x0fae_11b

/-- The tables of the opcodes that have one for `mod = 3`. -/
def GroupName.split (g : GroupName) : Bool :=
  g.registers || g == .grp7_0x0f01_mem || g == .grp15_0x0fae_mem

/-- The same for a row of a group, except that a row for `mod = 3` only has its ModRM
byte counted by the decoder itself. -/
def groupRowOk (g : GroupName) (d : Descriptor) : Bool :=
  d.opcodes.all fun reg =>
    (format g.home.1 g.home.2 reg).modrm && !(format g.home.1 g.home.2 reg).fixedMod &&
    (d.specPrefix.isNone || d.isInst && !g.split) &&
    (!d.plainInst ||
      if g.registers then d.operades.isEmpty && (format g.home.1 g.home.2 reg).imm == .none
      else d.fits (format g.home.1 g.home.2 reg))

/-- A row that leads elsewhere stands where it should. -/
def leadsOk (m : OpMap) (d : Descriptor) : Bool :=
  d.opcodes.all fun i =>
    match d.operator with
    | .inst _ => true
    | .grp g => d.specPrefix.isNone && (g.home == (m, i) && g.registers == false)
    | .xxxGrp7 => d.specPrefix.isNone && (m == .twobytes && i == 0x01)
    | .xxxGrp15 => d.specPrefix.isNone && (m == .twobytes && i == 0xae)
    | .escapeCoprocessor => d.specPrefix.isNone && (m == .onebyte && (0xd8 ≤ i && i < 0xe0))
    | _ => true

theorem mapRows_ok (m : OpMap) : ∀ d ∈ rowsIn m.table, mapRowOk m d = true := by
  cases m <;> decide +kernel

theorem groupRows_ok (g : GroupName) : ∀ d ∈ rowsIn (.group g), groupRowOk g d = true := by
  cases g <;> decide +kernel

theorem leads_ok (m : OpMap) : ∀ d ∈ rowsIn m.table, leadsOk m d = true := by
  cases m <;> decide +kernel

/-! ### Prefixes and address bytes -/

theorem PrefixState.note_sizes (st : PrefixState) (b : Byte) :
    (st.note b).prefix3 = (if b = 0x66 then 0x66 else st.prefix3) ∧
    (st.note b).operadeSize = (if b = 0x66 then 2 else st.operadeSize) ∧
    (st.note b).addressSize = (if b = 0x67 then 2 else st.addressSize) := by
  unfold PrefixState.note
  split_ifs <;> simp_all

/-- What a prefix asks for, asked of the first one or of the others. -/
theorem ite_mem_cons {α : Type} (a b : Byte) (ps : List Byte) (x y : α) :
    (if a ∈ ps then x else if b = a then x else y) = if a ∈ b :: ps then x else y := by
  by_cases hb : b = a
  · rw [if_pos hb, ite_self, hb, if_pos List.mem_cons_self]
  · simp [hb, Ne.symm hb]

theorem foldl_note_sizes (ps : List Byte) (st : PrefixState) :
    (ps.foldl PrefixState.note st).prefix3 = (if 0x66 ∈ ps then 0x66 else st.prefix3) ∧
    (ps.foldl PrefixState.note st).operadeSize = (if 0x66 ∈ ps then 2 else st.operadeSize) ∧
    (ps.foldl PrefixState.note st).addressSize = (if 0x67 ∈ ps then 2 else st.addressSize) := by
  induction ps generalizing st with
  | nil => simp
  | cons b ps ih =>
    obtain ⟨h₁, h₂, h₃⟩ := ih (st.note b)
    obtain ⟨g₁, g₂, g₃⟩ := st.note_sizes b
    rw [List.foldl_cons, h₁, h₂, h₃, g₁, g₂, g₃]
    exact ⟨ite_mem_cons .., ite_mem_cons .., ite_mem_cons ..⟩

theorem operadeBytes_prefixState (ps : List Byte) (o : Operade) :
    operadeBytes (prefixState ps) o =
      operadeBytes (sizeState (decide (0x66 ∈ ps)) (decide (0x67 ∈ ps))) o := by
  obtain ⟨h₁, h₂, h₃⟩ := foldl_note_sizes ps {}
  unfold prefixState operadeBytes sizeState
  rw [h₁, h₂, h₃]
  by_cases h66 : (0x66 : Byte) ∈ ps <;> by_cases h67 : (0x67 : Byte) ∈ ps <;>
    simp only [h66, h67, if_true, if_false, decide_true, decide_false, Bool.false_eq_true]

/-- `scan_modrm` counts the address bytes of the manual. -/
theorem scanModrm_eq (code : Code) (a : Word) (modrm : Byte) (addr16 : Bool) :
    scanModrm code a modrm (if addr16 then 2 else 4) = addressBytes addr16 modrm (code a) := by
  have hbase : (code a &&& 0x7 = 5) ↔ (code a).toNat % 8 = 5 := by
    generalize code a = b
    revert b
    decide +kernel
  unfold scanModrm addressBytes
  simp only [hbase]
  generalize decide ((code a).toNat % 8 = 5) = base at *
  by_cases hb : (code a).toNat % 8 = 5
  · simp only [hb, true_and, and_true]
    revert modrm addr16
    decide +kernel
  · simp only [hb, false_and, and_false]
    revert modrm addr16
    decide +kernel

theorem scanModrm_prefixState (code : Code) (ps : List Byte) (a : Word) :
    scanModrm code (a + 1) (code a) (prefixState ps).addressSize = addressBytesAt code ps a := by
  obtain ⟨_, _, h₃⟩ := foldl_note_sizes ps {}
  rw [addressBytesAt, ← scanModrm_eq]
  congr 1
  unfold prefixState
  rw [h₃]
  simp only [decide_eq_true_eq]

/-- **A row that fits a format** moves the stream on by the bytes of the format. -/
theorem skipOperades_of_fits {d : Descriptor} {f : Format} (hd : d.plainInst = true)
    (hf : d.fits f = true) (code : Code) (ps : List Byte) (a : Word) :
    skipOperades code (prefixState ps) d.row a =
      some (f.bytes (addressBytesAt code ps a) (decide (0x66 ∈ ps)) (decide (0x67 ∈ ps))) := by
  obtain ⟨hinst, hjmp⟩ : d.isInst = true ∧ d.jmpnote = false := by
    simpa [Descriptor.plainInst] using hd
  have hrow : d.row = ⟨.normal, d.operades, false⟩ := by
    unfold Descriptor.isInst at hinst
    unfold Descriptor.row
    split at hinst
    · rename_i hop
      simp [hop, Operator.type, hjmp]
    · cases hinst
  simp only [Descriptor.fits, Bool.and_eq_true, beq_iff_eq, List.all_cons, List.all_nil,
    Bool.and_true] at hf
  obtain ⟨hmodrm, ⟨h00, h01⟩, h10, h11⟩ := hf
  have himm : (d.operades.map (operadeBytes (prefixState ps))).sum =
      f.imm.bytes (decide (0x66 ∈ ps)) (decide (0x67 ∈ ps)) := by
    rw [show operadeBytes (prefixState ps) = _ from funext (operadeBytes_prefixState ps)]
    cases decide ((0x66 : Byte) ∈ ps) <;> cases decide ((0x67 : Byte) ∈ ps) <;> assumption
  have hreq : (d.row).reqModrm = f.modrm := by rw [hrow]; exact hmodrm
  rw [hrow] at hreq ⊢
  unfold skipOperades Format.bytes
  rw [if_neg (by simp), scanModrm_prefixState, hreq]
  by_cases hnil : d.operades.length = 0
  · have hempty : d.operades = [] := List.length_eq_zero_iff.mp hnil
    rw [hempty] at hmodrm himm
    simp only [List.any_nil, List.map_nil, List.sum_nil] at hmodrm himm
    rw [if_pos hnil, ← himm, ← hmodrm]
    simp
  · rw [if_neg hnil]
    simp only [InstType.isGroup, Bool.or_false, himm]

/-! ### The row and the entry -/

theorem describes_of_rowFor {t : TableName} {i : ℕ} {p : SpecPrefix} {d : Descriptor}
    (h : rowFor t i p = some d) : d.describes i p = true := by
  have := List.find?_some h
  simpa using this

theorem rowFor_eq_some {t : TableName} {i : ℕ} {p : SpecPrefix} {d : Descriptor} :
    rowFor t i p = some d ↔ d ∈ rowsIn t ∧ d.describes i p = true := by
  refine ⟨fun h => ⟨List.mem_of_find?_eq_some h, describes_of_rowFor h⟩, fun ⟨hmem, hdes⟩ => ?_⟩
  obtain ⟨d', hd'⟩ : ∃ d', rowFor t i p = some d' := by
    rw [← Option.isSome_iff_exists, rowFor, List.find?_isSome]
    exact ⟨d, hmem, hdes⟩
  rw [hd']
  by_contra hne
  have hpair : (rowsIn t).Pairwise fun d d' =>
      ¬ (d.describes i p = true ∧ d'.describes i p = true) :=
    (distinct_rows t).imp fun hdis hboth => by simp [hdis i p hboth.1] at hboth
  have : Std.Symm fun d d' : Descriptor => ¬ (d.describes i p = true ∧ d'.describes i p = true) :=
    ⟨fun _ _ h hboth => h hboth.symm⟩
  exact hpair.forall (List.mem_of_find?_eq_some hd') hmem (fun heq => hne (by rw [heq]))
    ⟨describes_of_rowFor hd', hdes⟩

theorem Descriptor.covers_of_describes {d : Descriptor} {i : ℕ} {p : SpecPrefix}
    (h : d.describes i p = true) : d.covers i = true := by
  rw [Descriptor.describes, Bool.and_eq_true] at h
  exact h.1

/-- A row without a mandatory prefix is the one under every prefix. -/
theorem rowFor_of_plain {t : TableName} {i : ℕ} {p q : SpecPrefix} {d : Descriptor}
    (h : rowFor t i p = some d) (hspec : d.specPrefix = none) : rowFor t i q = some d := by
  obtain ⟨hmem, hdes⟩ := rowFor_eq_some.mp h
  exact rowFor_eq_some.mpr
    ⟨hmem, Descriptor.describes_of_plain (Descriptor.covers_of_describes hdes) hspec q⟩

/-- Where one row has a mandatory prefix, every one has. -/
theorem spec_of_spec {t : TableName} {i : ℕ} {p q : SpecPrefix} {d d' : Descriptor}
    (h : rowFor t i p = some d) (hspec : d.specPrefix ≠ none) (h' : rowFor t i q = some d') :
    d'.specPrefix ≠ none := by
  intro hnone
  have heq : some d' = some d := (rowFor_of_plain h' hnone).symm.trans h
  cases heq
  exact hspec hnone

theorem Descriptor.type_of_isInst (d : Descriptor) (h : d.isInst = true) :
    d.operator.type = some .normal := by
  unfold Descriptor.isInst at h
  split at h
  · rename_i hop
    rw [hop]
    rfl
  · cases h

theorem Descriptor.isInst_of_plainInst (d : Descriptor) (h : d.plainInst = true) :
    d.isInst = true := by
  rw [Descriptor.plainInst, Bool.and_eq_true] at h
  exact h.1

theorem Descriptor.jmpnote_of_plainInst (d : Descriptor) (h : d.plainInst = true) :
    d.jmpnote = false := by
  rw [Descriptor.plainInst, Bool.and_eq_true, Bool.not_eq_true'] at h
  exact h.2

theorem Descriptor.printed_of_isInst (d : Descriptor) (h : d.isInst = true) :
    d.row.printed = ⟨.normal, d.operades, d.jmpnote⟩ := by
  rw [Descriptor.row, d.type_of_isInst h]
  rfl

theorem Descriptor.printed_of_plainInst (d : Descriptor) (h : d.plainInst = true) :
    d.row.printed = d.row := by
  rw [Descriptor.row, d.type_of_isInst (d.isInst_of_plainInst h)]
  rfl

/-- What the row of a table must say for the decoder to take the bytes of `f`. -/
structure RowsFit (t : TableName) (i : ℕ) (f : Format) : Prop where
  /-- Rows that move the stream on fit. -/
  fits : ∀ d ∈ rowsIn t, d.covers i = true → d.plainInst = true → d.fits f = true
  /-- Rows with a mandatory prefix are instructions. -/
  inst : ∀ d ∈ rowsIn t, d.covers i = true → d.specPrefix ≠ none → d.isInst = true

theorem addressBytes_le (addr16 : Bool) (modrm sib : Byte) : addressBytes addr16 modrm sib ≤ 5 := by
  unfold addressBytes
  simp only
  split_ifs <;> decide

theorem addressBytesAt_le (code : Code) (ps : List Byte) (a : Word) : addressBytesAt code ps a ≤ 5 :=
  addressBytes_le _ _ _

theorem Format.bytes_lt (f : Format) {address : ℕ} (h : address ≤ 5) (op16 addr16 : Bool) :
    f.bytes address op16 addr16 < 2 ^ 32 := by
  have himm : f.imm.bytes op16 addr16 ≤ 6 := by
    cases f.imm <;> cases op16 <;> cases addr16 <;> decide
  unfold Format.bytes
  split_ifs <;> omega

/-- **The entry selected takes the bytes of the format** unless it is a jump or there is
no row for it. -/
theorem skip_select_iff {t : TableName} {i : ℕ} {f : Format} (hfit : RowsFit t i f)
    {q : SpecPrefix} {d : Descriptor} (hd : rowFor t i q = some d) (hplain : d.plainInst = true)
    (code : Code) (ps : List Byte) (a : Word) {n : ℕ} (hlt : n < 2 ^ 32)
    (hn : d.specPrefix ≠ none → n ≠ 0) (p : SpecPrefix) :
    (skipOperades code (prefixState ps) ((x86Opcode.resolve t i).select p) a).map
        (fun k => a + BitVec.ofNat 32 k) = some (a + BitVec.ofNat 32 n) ↔
      f.bytes (addressBytesAt code ps a) (decide (0x66 ∈ ps)) (decide (0x67 ∈ ps)) = n ∧
      (d.specPrefix ≠ none → ∃ d', rowFor t i p = some d' ∧ d'.jmpnote = false) := by
  cases hp : rowFor t i p with
  | none =>
    -- the prefix tried first has no row: the slot is empty
    have hspec : d.specPrefix ≠ none := fun hnone => by
      rw [rowFor_of_plain hd hnone] at hp
      cases hp
    have hempty : (x86Opcode.resolve t i).select p = {} :=
      select_unlisted fun e he => by
        by_contra hdes
        rw [rowFor_eq_some.mpr ⟨he, by simpa using hdes⟩] at hp
        cases hp
    have hzero : skipOperades code (prefixState ps) {} a = some 0 := by simp [skipOperades]
    rw [hempty, hzero, Option.map_some, Option.some_inj, add_ofNat_inj (Nat.two_pow_pos 32) hlt]
    refine ⟨fun h => absurd h.symm (hn hspec), fun h => ?_⟩
    obtain ⟨d', hd', _⟩ := h.2 hspec
    cases hd'
  | some d' =>
    obtain ⟨hmem, hdes⟩ := rowFor_eq_some.mp hp
    have hcov := Descriptor.covers_of_describes hdes
    have hsame : d.specPrefix = none → d' = d := fun hspec =>
      Option.some.inj (hp.symm.trans (rowFor_of_plain hd hspec))
    have hinst : d'.isInst = true := by
      by_cases hspec : d.specPrefix = none
      · rw [hsame hspec]
        exact d.isInst_of_plainInst hplain
      · exact hfit.inst d' hmem hcov (spec_of_spec hd hspec hp)
    rw [select_listed hmem hdes]
    by_cases hjmp : d'.jmpnote = false
    · have hplain' : d'.plainInst = true := by simp [Descriptor.plainInst, hinst, hjmp]
      rw [d'.printed_of_plainInst hplain',
        skipOperades_of_fits hplain' (hfit.fits d' hmem hcov hplain'), Option.map_some,
        Option.some_inj, add_ofNat_inj (f.bytes_lt (addressBytesAt_le code ps a) _ _) hlt]
      exact ⟨fun h => ⟨h, fun _ => ⟨d', rfl, hjmp⟩⟩, fun h => h.1⟩
    · -- the prefix tried first makes it a jump
      have hspec : d.specPrefix ≠ none := fun hnone =>
        hjmp (hsame hnone ▸ d.jmpnote_of_plainInst hplain)
      have hnull : skipOperades code (prefixState ps) d'.row.printed a = none := by
        rw [d'.printed_of_isInst hinst, skipOperades, if_pos (by simpa using hjmp)]
      rw [hnull]
      refine ⟨fun h => (by cases h), fun h => ?_⟩
      obtain ⟨e, he, hfalse⟩ := h.2 hspec
      cases he
      exact absurd hfalse hjmp

/-! ### The pass at the opcode -/

section Cases

variable {m : OpMap} {opc modrm : Byte} {q : SpecPrefix} {d : Descriptor}

theorem mapRow_ok {i : ℕ} (hd : d ∈ rowsIn m.table) (hc : d.covers i = true) :
    (d.plainInst = true → ∀ reg < 8, d.fits (tableFormat m i reg) = true) ∧
    (d.specPrefix ≠ none → d.isInst = true ∧ (format m i 0).modrm = true) := by
  have h := List.all_eq_true.mp (mapRows_ok m d hd) i (Descriptor.mem_opcodes hc)
  simp only [Bool.and_eq_true, Bool.or_eq_true, Bool.not_eq_true', Option.isNone_iff_eq_none,
    List.all_eq_true, List.mem_range] at h
  refine ⟨fun hp reg hr => ?_, fun hs => h.2.resolve_left hs⟩
  exact h.1.resolve_left (by simp [hp]) reg hr

theorem groupRow_ok {g : GroupName} {reg : ℕ} (hd : d ∈ rowsIn (.group g))
    (hc : d.covers reg = true) :
    ((format g.home.1 g.home.2 reg).modrm = true ∧
      (format g.home.1 g.home.2 reg).fixedMod = false) ∧
    (d.specPrefix ≠ none → d.isInst = true ∧ g.split = false) ∧
    (d.plainInst = true →
      if g.registers then d.operades = [] ∧ (format g.home.1 g.home.2 reg).imm = .none
      else d.fits (format g.home.1 g.home.2 reg) = true) := by
  have h := List.all_eq_true.mp (groupRows_ok g d hd) reg (Descriptor.mem_opcodes hc)
  simp only [Bool.and_eq_true, Bool.or_eq_true, Bool.not_eq_true', Option.isNone_iff_eq_none] at h
  refine ⟨h.1.1, fun hs => h.1.2.resolve_left hs, fun hp => ?_⟩
  have hfit := h.2.resolve_left (by simp [hp])
  cases hr : g.registers
  · simpa [hr] using hfit
  · simpa [hr] using hfit

theorem rowsFit_map (m : OpMap) (i : ℕ) {reg : ℕ} (hr : reg < 8) :
    RowsFit m.table i (tableFormat m i reg) :=
  ⟨fun _ hd hc hp => (mapRow_ok hd hc).1 hp reg hr, fun _ hd hc hs => ((mapRow_ok hd hc).2 hs).1⟩

theorem rowsFit_group {g : GroupName} (hg : g.registers = false) (reg : ℕ) :
    RowsFit (.group g) reg (format g.home.1 g.home.2 reg) := by
  refine ⟨fun d hd hc hp => ?_, fun _ hd hc hs => ((groupRow_ok hd hc).2.1 hs).1⟩
  have := (groupRow_ok hd hc).2.2 hp
  rwa [if_neg (by simp [hg])] at this

/-- An opcode with a ModRM byte is not one whose immediate is wrong. -/
theorem tableFormat_of_modrm {i reg : ℕ} (h : (format m i reg).modrm = true) :
    tableFormat m i reg = format m i reg := by
  refine if_neg fun hwrong => ?_
  obtain ⟨rfl, hi⟩ := hwrong
  rcases hi with rfl | rfl | rfl <;> exact absurd h (by simp [format, onebyteFormat])

theorem format_modrm_eq (m : OpMap) (i reg reg' : ℕ) :
    (format m i reg).modrm = (format m i reg').modrm := by
  cases m
  · unfold format onebyteFormat
    simp only [apply_ite Format.modrm]
  · rfl
  · rfl
  · rfl

theorem lead_ok {i : ℕ} (hd : d ∈ rowsIn m.table) (hc : d.covers i = true) :
    (∀ g, d.operator = .grp g → d.specPrefix = none ∧ g.home = (m, i) ∧ g.registers = false) ∧
    (d.operator = .xxxGrp7 → d.specPrefix = none ∧ m = .twobytes ∧ i = 0x01) ∧
    (d.operator = .xxxGrp15 → d.specPrefix = none ∧ m = .twobytes ∧ i = 0xae) ∧
    (d.operator = .escapeCoprocessor →
      d.specPrefix = none ∧ m = .onebyte ∧ 0xd8 ≤ i ∧ i < 0xe0) := by
  have h := List.all_eq_true.mp (leads_ok m d hd) i (Descriptor.mem_opcodes hc)
  refine ⟨fun g hop => ?_, fun hop => ?_, fun hop => ?_, fun hop => ?_⟩ <;>
    rw [hop] at h <;>
    simpa only [Bool.and_eq_true, Option.isNone_iff_eq_none, beq_iff_eq, decide_eq_true_eq] using h

/-- The opcode's own entry, where a row without a mandatory prefix leads elsewhere. -/
theorem insts_type_of_lead {i : ℕ} (hd : rowFor m.table i q = some d) (hs : d.specPrefix = none)
    {type : InstType} (ht : d.operator.type = some type) (hne : type ≠ .invalid) :
    (x86Opcode.insts m.table i).type = type := by
  obtain ⟨hmem, hdes⟩ := rowFor_eq_some.mp hd
  have hown := congrArg InstRow.type (own_of_plain hmem (Descriptor.covers_of_describes hdes) hs)
  rw [Descriptor.row, ht, InstRow.printed, if_neg hne] at hown
  exact hown

/-- The pass at the opcode of an instruction selects under the prefix. -/
theorem lookup_inst (hd : rowFor m.table opc.toNat q = some d) (hi : d.isInst = true) (code : Code)
    (st : PrefixState) (a : Word) :
    lookup x86Opcode code st m.table opc a =
      .select code st ((x86Opcode.resolve m.table opc.toNat).select st.specPrefix) a := by
  by_cases hs : d.specPrefix = none
  · have ht := insts_type_of_lead hd hs (d.type_of_isInst hi) (by decide)
    have hown : (x86Opcode.resolve m.table opc.toNat).own.type ≠ .needSpecPrefix := by
      rw [show (x86Opcode.resolve m.table opc.toNat).own.type = _ from ht]
      decide
    rw [lookup, ht, Resolved.select, if_neg hown]
    rfl
  · obtain ⟨hmem, hdes⟩ := rowFor_eq_some.mp hd
    have hown := own_of_dependent hmem (Descriptor.covers_of_describes hdes) hs
    rw [lookup, show (x86Opcode.insts m.table opc.toNat).type = _ from hown, Resolved.select,
      if_pos hown]
    rfl

/-- A group is looked up under the prefix. -/
theorem groupEntry_eq (st : PrefixState) (g : GroupName) (modrm : Byte) :
    groupEntry x86Opcode st g modrm =
      (x86Opcode.resolve (.group g) (regField modrm)).select st.specPrefix := rfl

/-- The ways an instruction comes to have a row. -/
theorem listedRow_cases (h : listedRow m opc modrm q = some d) :
    isVex m opc modrm = false ∧ ∃ d₀, rowFor m.table opc.toNat q = some d₀ ∧
      ((d₀ = d ∧ d.isInst = true) ∨
        (d₀ = d ∧ d.operator = .escapeCoprocessor) ∨
        (∃ g, d₀.operator = .grp g ∧
          rowFor (.group g) (regField modrm) q = some d ∧ d.isInst = true) ∨
        (d₀.operator = .xxxGrp7 ∧ rowFor (splitGroup .grp7_0x0f01_mem .grp7_0x0f01_11b modrm)
          (regField modrm) q = some d ∧ d.isInst = true) ∨
        (d₀.operator = .xxxGrp15 ∧ rowFor (splitGroup .grp15_0x0fae_mem .grp15_0x0fae_11b modrm)
          (regField modrm) q = some d ∧ d.isInst = true)) := by
  unfold listedRow at h
  split_ifs at h with hv
  obtain ⟨d₀, hd₀, h⟩ := Option.bind_eq_some_iff.mp h
  refine ⟨by simpa using hv, d₀, hd₀, ?_⟩
  split at h
  case h_1 hop =>
    cases h
    exact .inl ⟨rfl, by simp [Descriptor.isInst, hop]⟩
  case h_2 hop =>
    cases h
    exact .inr (.inl ⟨rfl, hop⟩)
  case h_3 g hop => exact .inr (.inr (.inl ⟨g, hop, Option.filter_eq_some_iff.mp h⟩))
  case h_4 hop => exact .inr (.inr (.inr (.inl ⟨hop, Option.filter_eq_some_iff.mp h⟩)))
  case h_5 hop => exact .inr (.inr (.inr (.inr ⟨hop, Option.filter_eq_some_iff.mp h⟩)))
  case h_6 => cases h

/-- Where the opcode's rows depend on the prefix, the instruction's row is the opcode's. -/
theorem listedRow_of_dependent (hv : isVex m opc modrm = false)
    (hd : rowFor m.table opc.toNat q = some d) (hs : d.specPrefix ≠ none) (p : SpecPrefix) :
    listedRow m opc modrm p = rowFor m.table opc.toNat p := by
  rw [listedRow, if_neg (by simp [hv])]
  cases hp : rowFor m.table opc.toNat p with
  | none => rfl
  | some d' =>
    obtain ⟨hmem, hdes⟩ := rowFor_eq_some.mp hp
    have hi := ((mapRow_ok hmem (Descriptor.covers_of_describes hdes)).2 (spec_of_spec hd hs hp)).1
    unfold Descriptor.isInst at hi
    rw [Option.bind_some]
    split at hi
    · rename_i hop
      simp only [hop]
    · cases hi

/-- Where the rows of a slot of a group depend on it, the instruction's row is the slot's. -/
theorem listedRow_of_group (hv : isVex m opc modrm = false) {d₀ : Descriptor} {g : GroupName}
    (hd₀ : rowFor m.table opc.toNat q = some d₀) (hop : d₀.operator = .grp g)
    (hs₀ : d₀.specPrefix = none) (hd : rowFor (.group g) (regField modrm) q = some d)
    (hs : d.specPrefix ≠ none) (p : SpecPrefix) :
    listedRow m opc modrm p = rowFor (.group g) (regField modrm) p := by
  rw [listedRow, if_neg (by simp [hv]), rowFor_of_plain hd₀ hs₀, Option.bind_some]
  simp only [hop]
  cases hp : rowFor (.group g) (regField modrm) p with
  | none => rfl
  | some d' =>
    obtain ⟨hmem, hdes⟩ := rowFor_eq_some.mp hp
    have hi := ((groupRow_ok hmem (Descriptor.covers_of_describes hdes)).2.1
      (spec_of_spec hd hs hp)).1
    simp [Option.filter, hi]

theorem addressBytesAt_of_mod3 {code : Code} {ps : List Byte} {a : Word}
    (h : modField (code a) = 3) : addressBytesAt code ps a = 0 := by
  have hmod : ∀ x : Byte, modField x = 3 → x.toNat / 64 = 3 := by decide +kernel
  have h3 := hmod _ h
  unfold addressBytesAt addressBytes
  simp [h3]

/-- The entry of a group with a table for `mod = 3` depends on no prefix and takes the
bytes of the format. -/
theorem select_split (mem reg : GroupName) (hmem : mem.registers = false) (hms : mem.split = true)
    (hreg : reg.registers = true) (hhome : reg.home = mem.home) {code : Code} {a : Word}
    (hd : rowFor (splitGroup mem reg (code a)) (regField (code a)) q = some d)
    (hplain : d.plainInst = true) (ps : List Byte) :
    d.specPrefix = none ∧
    Pass.select code (prefixState ps) (splitGroupEntry x86Opcode mem reg (code a))
        (if modField (code a) = 3 then a + 1 else a) =
      .done (.ok (some (a + BitVec.ofNat 32
        ((tableFormat mem.home.1 mem.home.2 (regField (code a))).bytes (addressBytesAt code ps a)
          (decide (0x66 ∈ ps)) (decide (0x67 ∈ ps)))))) := by
  obtain ⟨hrow, hdes⟩ := rowFor_eq_some.mp hd
  have hc := Descriptor.covers_of_describes hdes
  have hns : (if modField (code a) = 3 then reg else mem).split = true := by
    split_ifs
    · rw [GroupName.split, hreg]; rfl
    · exact hms
  obtain ⟨⟨hmodrm, -⟩, hspec, hfit⟩ := groupRow_ok hrow hc
  have hs : d.specPrefix = none := by
    by_contra hs
    rw [(hspec hs).2] at hns
    cases hns
  have hown : splitGroupEntry x86Opcode mem reg (code a) = d.row :=
    (own_of_plain hrow hc hs).trans (d.printed_of_plainInst hplain)
  have hfit := hfit hplain
  refine ⟨hs, ?_⟩
  rw [hown, Pass.select]
  by_cases h3 : modField (code a) = 3
  · rw [if_pos h3] at hmodrm hfit ⊢
    rw [if_pos hreg, hhome] at hfit
    rw [hhome] at hmodrm
    rw [tableFormat_of_modrm hmodrm]
    have hskip : skipOperades code (prefixState ps) d.row (a + 1) = some 0 := by
      have hj := d.jmpnote_of_plainInst hplain
      simp [skipOperades, Descriptor.row, d.type_of_isInst (d.isInst_of_plainInst hplain), hj,
        hfit.1]
    rw [hskip, addressBytesAt_of_mod3 h3, Format.bytes, if_pos hmodrm, hfit.2]
    simp [Imm.bytes]
  · rw [if_neg h3] at hmodrm hfit ⊢
    rw [if_neg (by simp [hmem])] at hfit
    rw [tableFormat_of_modrm hmodrm, skipOperades_of_fits hplain hfit]
    rfl

theorem tableFormat_coprocessor {i : ℕ} (h₁ : 0xd8 ≤ i) (h₂ : i < 0xe0) (reg : ℕ) :
    tableFormat .onebyte i reg = ⟨true, .none, false⟩ := by
  obtain rfl | rfl | rfl | rfl | rfl | rfl | rfl | rfl : i = 0xd8 ∨ i = 0xd9 ∨ i = 0xda ∨
    i = 0xdb ∨ i = 0xdc ∨ i = 0xdd ∨ i = 0xde ∨ i = 0xdf := by omega
  all_goals rfl

/-- **The pass at the opcode of an instruction that has a row and is no jump**: it moves
on by the bytes of the file's format, unless the prefix tried first has no row or one
for a jump. -/
theorem lookup_listed {code : Code} {a : Word} (hrow : listedRow m opc (code a) q = some d)
    (hjmp : d.jmpnote = false) (ps : List Byte) {n : ℕ} (hlt : n < 2 ^ 32)
    (hn : d.specPrefix ≠ none → n ≠ 0) :
    ∃ next, lookup x86Opcode code (prefixState ps) m.table opc a = .done (.ok next) ∧
      (next = some (a + BitVec.ofNat 32 n) ↔
        (tableFormat m opc.toNat (regField (code a))).bytes (addressBytesAt code ps a)
            (decide (0x66 ∈ ps)) (decide (0x67 ∈ ps)) = n ∧
        (d.specPrefix ≠ none →
          ∃ d', listedRow m opc (code a) (prefixState ps).specPrefix = some d' ∧
            d'.jmpnote = false)) := by
  obtain ⟨hv, d₀, hd₀, hcases⟩ := listedRow_cases hrow
  have hplain : d.isInst = true → d.plainInst = true := fun hi => by
    simp [Descriptor.plainInst, hi, hjmp]
  obtain ⟨hmem₀, hdes₀⟩ := rowFor_eq_some.mp hd₀
  obtain ⟨hgrp, h7, h15, hcop⟩ := lead_ok hmem₀ (Descriptor.covers_of_describes hdes₀)
  rcases hcases with ⟨rfl, hi⟩ | ⟨rfl, hop⟩ | ⟨g, hop, hd, hi⟩ | ⟨hop, hd, hi⟩ | ⟨hop, hd, hi⟩
  · refine ⟨_, lookup_inst hd₀ hi code (prefixState ps) a, ?_⟩
    rw [skip_select_iff (rowsFit_map m opc.toNat (regField_lt (code a))) hd₀ (hplain hi) code ps a
      hlt hn]
    refine and_congr_right fun _ => forall_congr' fun hs => ?_
    rw [listedRow_of_dependent hv hd₀ hs]
  · obtain ⟨hs, rfl, h₁, h₂⟩ := hcop hop
    have ht : (x86Opcode.insts OpMap.onebyte.table opc.toNat).type = .escapeCop :=
      insts_type_of_lead hd₀ hs (by rw [hop]; rfl) (by decide)
    refine ⟨_, by rw [lookup, ht], ?_⟩
    rw [scanModrm_prefixState, tableFormat_coprocessor h₁ h₂, Option.some_inj, add_one_add_ofNat,
      add_ofNat_inj (by have := addressBytesAt_le code ps a; omega) hlt]
    simp [Format.bytes, Imm.bytes, hs, Nat.add_comm]
  · obtain ⟨hs, hhome, hreg⟩ := hgrp g hop
    have ht : (x86Opcode.insts m.table opc.toNat).type = .group g :=
      insts_type_of_lead hd₀ hs (by rw [hop]; rfl) (by simp)
    obtain ⟨hmem, hdes⟩ := rowFor_eq_some.mp hd
    have hfmt := tableFormat_of_modrm (groupRow_ok hmem (Descriptor.covers_of_describes hdes)).1.1
    have hfit := rowsFit_group hreg (regField (code a))
    rw [hhome] at hfmt hfit
    refine ⟨_, by rw [lookup, ht]; rfl, ?_⟩
    rw [groupEntry_eq, skip_select_iff hfit hd (hplain hi) code ps a hlt hn, hfmt]
    refine and_congr_right fun _ => forall_congr' fun hs' => ?_
    rw [listedRow_of_group hv hd₀ hop hs hd hs']
  · obtain ⟨hs₀, rfl, hopc⟩ := h7 hop
    have ht : (x86Opcode.insts OpMap.twobytes.table opc.toNat).type = .group7 :=
      insts_type_of_lead hd₀ hs₀ (by rw [hop]; rfl) (by decide)
    obtain ⟨hs, hsel⟩ := select_split .grp7_0x0f01_mem .grp7_0x0f01_11b (by decide) (by decide)
      (by decide) rfl hd (hplain hi) ps
    refine ⟨_, by rw [lookup, ht]; exact hsel, ?_⟩
    rw [Option.some_inj, add_ofNat_inj (Format.bytes_lt _ (addressBytesAt_le code ps a) _ _) hlt,
      hopc]
    simp [hs, GroupName.home]
  · obtain ⟨hs₀, rfl, hopc⟩ := h15 hop
    have ht : (x86Opcode.insts OpMap.twobytes.table opc.toNat).type = .group15 :=
      insts_type_of_lead hd₀ hs₀ (by rw [hop]; rfl) (by decide)
    obtain ⟨hs, hsel⟩ := select_split .grp15_0x0fae_mem .grp15_0x0fae_11b (by decide) (by decide)
      (by decide) rfl hd (hplain hi) ps
    refine ⟨_, by rw [lookup, ht]; exact hsel, ?_⟩
    rw [Option.some_inj, add_ofNat_inj (Format.bytes_lt _ (addressBytesAt_le code ps a) _ _) hlt,
      hopc]
    simp [hs, GroupName.home]

/-- A row that depends on the prefix is that of an instruction with a ModRM byte. -/
theorem modrm_of_dependent (h : listedRow m opc modrm q = some d) (hs : d.specPrefix ≠ none)
    (reg : ℕ) : (format m opc.toNat reg).modrm = true := by
  obtain ⟨-, d₀, hd₀, hcases⟩ := listedRow_cases h
  obtain ⟨hmem₀, hdes₀⟩ := rowFor_eq_some.mp hd₀
  have hc₀ := Descriptor.covers_of_describes hdes₀
  obtain ⟨hgrp, h7, h15, hcop⟩ := lead_ok hmem₀ hc₀
  rw [format_modrm_eq m _ reg 0]
  rcases hcases with ⟨rfl, hi⟩ | ⟨rfl, hop⟩ | ⟨g, hop, hd, -⟩ | ⟨hop, -⟩ | ⟨hop, -⟩
  · exact ((mapRow_ok hmem₀ hc₀).2 hs).2
  · exact absurd (hcop hop).1 hs
  · obtain ⟨hmem, hdes⟩ := rowFor_eq_some.mp hd
    have := (groupRow_ok hmem (Descriptor.covers_of_describes hdes)).1.1
    rw [(hgrp g hop).2.1] at this
    rw [← this]
    exact format_modrm_eq m _ _ _
  · obtain ⟨-, rfl, hopc⟩ := h7 hop
    rw [hopc]
    rfl
  · obtain ⟨-, rfl, hopc⟩ := h15 hop
    rw [hopc]
    rfl

end Cases

/-! ### When the length is right -/

theorem format_fixedMod_iff (m : OpMap) (i reg : ℕ) :
    (format m i reg).fixedMod = true ↔ m = .twobytes ∧ 0x20 ≤ i ∧ i < 0x24 := by
  cases m
  · unfold format onebyteFormat
    simp only [apply_ite Format.fixedMod, ite_self]
    simp
  · unfold format twobytesFormat
    simp only [apply_ite Format.fixedMod, ite_self]
    simp
  · simp [format]
  · simp [format]

theorem format_modrm_of_fixedMod {m : OpMap} {i reg : ℕ} (h : (format m i reg).fixedMod = true) :
    (format m i reg).modrm = true := by
  obtain ⟨rfl, hi⟩ := (format_fixedMod_iff m i reg).mp h
  rw [format, twobytesFormat, if_pos hi]

/-- The file's bytes are the manual's, except for the wrong immediates and where a `mod`
field is looked at that should be ignored. -/
theorem tableFormat_bytes_iff (m : OpMap) (i reg address : ℕ) (op16 addr16 : Bool) :
    (tableFormat m i reg).bytes address op16 addr16 =
        (format m i reg).bytes (if (format m i reg).fixedMod then 0 else address) op16 addr16 ↔
      ¬ wrongImmediate m i ∧ ((format m i 0).fixedMod = true → address = 0) := by
  by_cases hwrong : wrongImmediate m i
  · have hbytes : (format m i reg).bytes
        (if (format m i reg).fixedMod then 0 else address) op16 addr16 = 1 := by
      obtain ⟨rfl, rfl | rfl | rfl⟩ := hwrong <;> rfl
    rw [hbytes, tableFormat, if_pos hwrong]
    cases op16 <;> simp [hwrong, Format.bytes, Imm.bytes]
  · rw [tableFormat, if_neg hwrong, show (format m i 0).fixedMod = true ↔ _ from
      (format_fixedMod_iff m i 0).trans (format_fixedMod_iff m i reg).symm]
    by_cases hfixed : (format m i reg).fixedMod = true
    · simp [hwrong, hfixed, Format.bytes, format_modrm_of_fixedMod hfixed]
    · simp [hwrong, hfixed]

/-- **`next_inst` moves on by the manual's length exactly when `LengthRight` holds**, for
an instruction that has a row and is no jump. -/
theorem nextInst_length_iff {code : Code} {stream : Word} {ps : List Byte} {m : OpMap} {opc : Byte}
    {d : Descriptor} (h : Encoded code stream ps m opc)
    (hrow : listedRow m opc (code (behindOpcode stream ps m)) (archPrefix ps) = some d)
    (hjmp : d.jmpnote = false) :
    nextInst code stream =
        .ok (some (stream + BitVec.ofNat 32 (intelLength code stream ps m opc))) ↔
      LengthRight code stream ps m opc d := by
  have hlength : stream + BitVec.ofNat 32 (intelLength code stream ps m opc) =
      behindOpcode stream ps m + BitVec.ofNat 32 (intelTail code stream ps m opc) := by
    rw [behindOpcode, add_ofNat_add_ofNat]
    rfl
  have hlt : intelTail code stream ps m opc < 2 ^ 32 := by
    refine Format.bytes_lt _ ?_ _ _
    split_ifs
    · exact Nat.zero_le 5
    · exact addressBytesAt_le _ _ _
  have hpos : d.specPrefix ≠ none → intelTail code stream ps m opc ≠ 0 := fun hs => by
    rw [intelTail, Format.bytes, if_pos (modrm_of_dependent hrow hs _)]
    omega
  obtain ⟨next, hlookup, hnext⟩ := lookup_listed hrow hjmp ps hlt hpos
  rw [nextInst_of_encoded h hlookup, hlength, Except.ok.injEq, hnext, intelTail,
    tableFormat_bytes_iff]
  exact ⟨fun ⟨⟨himm, haddr⟩, hsel⟩ => ⟨himm, haddr, hsel⟩,
    fun ⟨himm, haddr, hsel⟩ => ⟨⟨himm, haddr⟩, hsel⟩⟩

/-- **`66 81 c3 34 12`**, `add $0x1234, %bx`: five bytes. -/
theorem nextInst_length_add_bx :
    intelLength (codeOf [0x66, 0x81, 0xc3, 0x34, 0x12]) 0 [0x66] .onebyte 0x81 = 5 ∧
      nextInst (codeOf [0x66, 0x81, 0xc3, 0x34, 0x12]) 0 =
        .ok (some (0 + BitVec.ofNat 32
          (intelLength (codeOf [0x66, 0x81, 0xc3, 0x34, 0x12]) 0 [0x66] .onebyte 0x81))) := by
  have h : Encoded (codeOf [0x66, 0x81, 0xc3, 0x34, 0x12]) 0 [0x66] .onebyte 0x81 :=
    ⟨by decide, by decide, by decide⟩
  have hrow : (listedRow .onebyte 0x81 0xc3 (archPrefix [0x66])).map
      (fun d => (d.jmpnote, d.specPrefix)) = some (false, none) := by decide +kernel
  obtain ⟨d, hd, hfields⟩ := Option.map_eq_some_iff.mp hrow
  obtain ⟨hjmp, hspec⟩ := Prod.mk.inj hfields
  exact ⟨by decide +kernel, (nextInst_length_iff h hd hjmp).mpr
    ⟨by decide, by decide, fun hne => absurd hspec hne⟩⟩

/-- **`14 01`**, `adc $1, %al`: two bytes by the manual, and `next_inst` skips five. -/
theorem adc_al_overrun :
    Encoded (codeOf [0x14, 0x01]) 0 [] .onebyte 0x14 ∧
      (∃ d, listedRow .onebyte 0x14 0x01 (archPrefix []) = some d ∧ d.jmpnote = false) ∧
      intelLength (codeOf [0x14, 0x01]) 0 [] .onebyte 0x14 = 2 ∧
      nextInst (codeOf [0x14, 0x01]) 0 = .ok (some 5) := by
  have hrow : (listedRow .onebyte 0x14 0x01 (archPrefix [])).map Descriptor.jmpnote = some false := by
    decide +kernel
  exact ⟨⟨by decide, by decide, by decide⟩, Option.map_eq_some_iff.mp hrow, by decide +kernel,
    by decide +kernel⟩

end Snitchaser.Decoder
