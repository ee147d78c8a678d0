import Snitchaser.Compiler.Patch
import Snitchaser.Foundation.LittleEndian

/-!
# The bytes of a patch

The instructions of `Compiler.Patch` as they stand in memory, and
`compile_modrm_target`, which writes the only ones that are not copied from a template.

## The model

* `Layout` is where the fields of `struct thread_private_data` are, from `%fs`. The
  offsets come from `asm_offsets.h`, which the build generates.
* `Insn.encode` are the bytes of an instruction, with the opcodes the assembler takes
  (`a1` and `a3` for `eax`, a displacement of one byte where it fits).
* `compileModrmTarget` is the function of the source, byte by byte; `MODRM_REG` is the
  caller's business.

## What is proved

An instruction has as many bytes as `Insn.size` says (`Insn.length_encode`), and
`compileModrmTarget_encodes`: what `compile_modrm_target` writes are the bytes of
`Operand.setTarget`, up to the log phase. `indirect_reencoded`: the load has the
**address bytes of the branch**, and as many of them are counted as the decoder passes over.
-/

namespace Snitchaser.Compiler

open Foundation Foundation.X86 Decoder

/-- The number of a register. -/
def regNum : Reg → ℕ
  | .eax => 0
  | .ecx => 1
  | .edx => 2
  | .ebx => 3
  | .esp => 4
  | .ebp => 5
  | .esi => 6
  | .edi => 7

/-- The number of a condition; `jecxz` has an opcode of its own. -/
def condNum : Cond → ℕ
  | .o => 0
  | .no => 1
  | .b => 2
  | .nb => 3
  | .z => 4
  | .nz => 5
  | .na => 6
  | .a => 7
  | .s => 8
  | .ns => 9
  | .p => 10
  | .np => 11
  | .l => 12
  | .ge => 13
  | .le => 14
  | .g => 15
  | .ecxz => 0

/-- `BUILD_MODRM(mod, reg, rm)`. -/
def buildModrm (mod reg rm : ℕ) : Byte :=
  (BitVec.ofNat 8 mod <<< 6) + (BitVec.ofNat 8 reg <<< 3) + BitVec.ofNat 8 rm

/-- The offsets of `asm_offsets.h`. -/
abbrev Layout := TlsField → Word

/-- The bytes of a displacement. -/
def Disp.bytes : Disp → List Byte
  | .none => []
  | .disp8 d => [d]
  | .disp32 d => leBytes d

/-- The bytes of a memory operand, with another register in `reg`. -/
def MemOperand.bytes (op : MemOperand) (reg : ℕ) : List Byte :=
  buildModrm op.mod reg op.rm :: (op.sib.toList ++ op.disp.bytes)

/-- The prefix `fs`, and an absolute address. -/
def tlsOperand (off : Layout) (opcode : Byte) (reg : ℕ) (field : TlsField) : List Byte :=
  [0x64, opcode, buildModrm 0 reg 5] ++ leBytes (off field)

/-- The bytes of `disp(%ebx)`. -/
def ebxOperand (reg disp : ℕ) : List Byte :=
  if disp = 0 then [buildModrm 0 reg 3] else [buildModrm 1 reg 3, BitVec.ofNat 8 disp]

/-- **The bytes of an instruction.** -/
def Insn.encode (off : Layout) : Insn → List Byte
  | .movImmTls imm field => tlsOperand off 0xc7 0 field ++ leBytes imm
  | .movRegTls r field =>
    if r = .eax then [0x64, 0xa3] ++ leBytes (off field) else tlsOperand off 0x89 (regNum r) field
  | .movTlsReg field r =>
    if r = .eax then [0x64, 0xa1] ++ leBytes (off field) else tlsOperand off 0x8b (regNum r) field
  | .storeEbx r disp => 0x89 :: ebxOperand (regNum r) disp
  | .loadEbx disp => 0x8b :: ebxOperand 0 disp
  | .loadEsp => [0x8b, 0x04, 0x24]
  | .loadOperand op => (if op.gs then [0x65] else []) ++ 0x8b :: op.bytes 0
  | .movImmEax imm => 0xb8 :: leBytes imm
  | .lahf => [0x9f]
  | .sahf => [0x9e]
  | .addTls imm field => tlsOperand off 0x83 0 field ++ [imm.setWidth 8]
  | .addEsp imm => [0x81, 0xc4] ++ leBytes imm
  | .push imm => 0x68 :: leBytes imm
  | .popTls field => tlsOperand off 0x8f 0 field
  | .jcc c skip =>
    [if c = .ecxz then 0xe3 else 0x70 + BitVec.ofNat 8 (condNum c), BitVec.ofNat 8 skip]
  | .jmpShort skip => [0xeb, BitVec.ofNat 8 skip]
  | .rdtsc => [0x0f, 0x31]
  | .jmpTls field => tlsOperand off 0xff 4 field
  | .ret => [0xc3]
  | .jmpRel rel => 0xe9 :: leBytes rel

/-- The bytes of a piece of code. -/
def encode (off : Layout) (code : List Insn) : List Byte := code.flatMap (Insn.encode off)

@[simp] theorem encode_nil (off : Layout) : encode off [] = [] := rfl

@[simp] theorem encode_cons (off : Layout) (i : Insn) (code : List Insn) :
    encode off (i :: code) = i.encode off ++ encode off code := List.flatMap_cons

@[simp] theorem encode_append (off : Layout) (code code' : List Insn) :
    encode off (code ++ code') = encode off code ++ encode off code' := List.flatMap_append

@[simp] theorem length_tlsOperand (off : Layout) (opcode : Byte) (reg : ℕ) (field : TlsField) :
    (tlsOperand off opcode reg field).length = 7 := rfl

theorem Disp.length_bytes (d : Disp) : d.bytes.length = d.size := by
  cases d <;> rfl

theorem MemOperand.length_bytes (op : MemOperand) (reg : ℕ) :
    (op.bytes reg).length = (Operand.mem op).size := by
  obtain ⟨gs, mod, rm, sib, disp⟩ := op
  cases sib <;> simp [MemOperand.bytes, Operand.size, Disp.length_bytes] <;> omega

theorem length_ebxOperand (reg disp : ℕ) :
    (ebxOperand reg disp).length = if disp = 0 then 1 else 2 := by
  unfold ebxOperand
  split <;> rfl

/-- **An instruction is as long as its bytes.** -/
theorem Insn.length_encode (off : Layout) (i : Insn) : (i.encode off).length = i.size := by
  cases i with
  | movRegTls r field =>
    simp only [Insn.encode, Insn.size]
    split <;> rfl
  | movTlsReg field r =>
    simp only [Insn.encode, Insn.size]
    split <;> rfl
  | storeEbx r disp =>
    simp only [Insn.encode, Insn.size, List.length_cons, length_ebxOperand]
    split <;> rfl
  | loadEbx disp =>
    simp only [Insn.encode, Insn.size, List.length_cons, length_ebxOperand]
    split <;> rfl
  | loadOperand op =>
    simp only [Insn.encode, Insn.size, List.length_append, List.length_cons, op.length_bytes]
    cases op.gs <;> simp <;> omega
  | _ => rfl

/-- A piece of code is as long as its bytes. -/
theorem length_encode (off : Layout) (code : List Insn) :
    (encode off code).length = encodedSize code := by
  induction code with
  | nil => rfl
  | cons i code ih => rw [encode_cons, List.length_append, i.length_encode, ih, encodedSize_cons]

/-! ### `compile_modrm_target` -/

/-- `__save_eax_to_saver1`. -/
def saveEaxToSaver1 : List Insn := [.movRegTls .eax .regSaver1]

/-- `__set_target_restore_eax`. -/
def setTargetRestoreEax : List Insn := [.movRegTls .eax .target, .movTlsReg .regSaver1 .eax]

/-- `n` bytes of the program. -/
def bytesFrom (code : Code) (a : Word) (n : ℕ) : List Byte :=
  (List.range n).map fun i => code (a + BitVec.ofNat 32 i)

/-- `compile_modrm_target`, up to the log phase: the bytes it writes, and what it adds to
`*pinst_sz`. No prefix is a zero byte. -/
def compileModrmTarget (off : Layout) (code : Code) (pmodrm : Word) (pre : Byte) : List Byte × ℕ :=
  let modrm := code pmodrm
  if modField modrm = 3 then
    if rmField modrm = 0 then ([0x64, 0xa3] ++ leBytes (off .target), 1)
    else ([0x64, 0x89, buildModrm 0 (rmField modrm) 5] ++ leBytes (off .target), 1)
  else
    let newModrm := buildModrm (modField modrm) 0 (rmField modrm)
    let haveSib := rmField newModrm = 4 ∧ modField newModrm ≠ 3
    -- `pmodrm` behind ModRM and SIB
    let rest := if haveSib then pmodrm + 2 else pmodrm + 1
    let sib := if haveSib then [code (pmodrm + 1)] else []
    let disp :=
      if modField newModrm = 1 then [code rest]
      else if modField newModrm = 2 then leBytes (load32 code rest)
      else if modField newModrm = 0 ∧ rmField newModrm = 5 then leBytes (load32 code rest)
      else []
    let sibDisp :=
      if haveSib ∧ code (pmodrm + 1) &&& 0x7 = 5 ∧ modField newModrm = 0 then leBytes (load32 code rest)
      else []
    (encode off saveEaxToSaver1 ++ (if pre ≠ 0 then [pre] else []) ++
        0x8b :: newModrm :: (sib ++ disp ++ sibDisp) ++ encode off setTargetRestoreEax,
      1 + sib.length + disp.length + sibDisp.length)

/-! ### Fields of ModRM -/

theorem modField_lt (x : Byte) : modField x < 4 := by
  revert x
  decide +kernel

theorem rmField_lt (x : Byte) : rmField x < 8 := by
  revert x
  decide +kernel

/-- The fields of a ModRM byte that was built. -/
theorem fields_buildModrm : ∀ mod < 4, ∀ reg < 8, ∀ rm < 8,
    modField (buildModrm mod reg rm) = mod ∧ regField (buildModrm mod reg rm) = reg ∧
      rmField (buildModrm mod reg rm) = rm := by
  decide +kernel

/-- `mod_rm == 0x05` of `scan_modrm`, by fields. -/
theorem modRm_eq_five_iff (x : Byte) : x &&& 0xc7 = 0x05 ↔ modField x = 0 ∧ rmField x = 5 := by
  revert x
  decide +kernel

@[simp] theorem length_bytesFrom (code : Code) (a : Word) (n : ℕ) : (bytesFrom code a n).length = n := by
  simp [bytesFrom]

theorem bytesFrom_succ (code : Code) (a : Word) (n : ℕ) :
    bytesFrom code a (n + 1) = code a :: bytesFrom code (a + 1) n := by
  unfold bytesFrom
  rw [List.range_succ_eq_map, List.map_cons, List.map_map]
  refine List.cons_eq_cons.mpr ⟨congrArg code (BitVec.add_zero a), List.map_congr_left fun i _ => ?_⟩
  rw [add_one_add_ofNat]
  rfl

@[simp] theorem bytesFrom_zero (code : Code) (a : Word) : bytesFrom code a 0 = [] := rfl

@[simp] theorem bytesFrom_one (code : Code) (a : Word) : bytesFrom code a 1 = [code a] :=
  bytesFrom_succ code a 0

/-- The bytes of a word of the program. -/
theorem leBytes_load32 (code : Code) (a : Word) : leBytes (load32 code a) = bytesFrom code a 4 := by
  have hbytes : bytesFrom code a 4 = [code (a + 0), code (a + 1), code (a + 2), code (a + 3)] := rfl
  rw [hbytes, add_zero]
  exact leBytes_append _ _ _ _

/-- The bytes behind ModRM that the decoder passes over. -/
def addressBytesOf (code : Code) (pmodrm : Word) : List Byte :=
  bytesFrom code (pmodrm + 1) (scanModrm code (pmodrm + 1) (code pmodrm) 4)

/-- SIB and displacement as `compile_modrm_target` copies them. -/
theorem copied_eq_addressBytesOf (code : Code) (pmodrm : Word) (h : modField (code pmodrm) ≠ 3) :
    let haveSib := rmField (code pmodrm) = 4
    let rest := if haveSib then pmodrm + 2 else pmodrm + 1
    (if haveSib then [code (pmodrm + 1)] else []) ++
        (if modField (code pmodrm) = 1 then [code rest]
          else if modField (code pmodrm) = 2 then leBytes (load32 code rest)
          else if modField (code pmodrm) = 0 ∧ rmField (code pmodrm) = 5 then leBytes (load32 code rest)
          else []) ++
        (if haveSib ∧ code (pmodrm + 1) &&& 0x7 = 5 ∧ modField (code pmodrm) = 0 then
          leBytes (load32 code rest) else []) =
      addressBytesOf code pmodrm := by
  have hmod := modField_lt (code pmodrm)
  have htwo : pmodrm + 2 = pmodrm + 1 + 1 := by rw [BitVec.add_assoc]; rfl
  unfold addressBytesOf scanModrm
  simp only [modRm_eq_five_iff, leBytes_load32, ← bytesFrom_one]
  generalize modField (code pmodrm) = mod at h hmod ⊢
  by_cases hsib : rmField (code pmodrm) = 4
  · -- SIB, and behind it the displacement
    rw [hsib, htwo]
    generalize pmodrm + 1 = a
    have hfive := bytesFrom_succ code a 4
    obtain rfl | rfl | rfl : mod = 0 ∨ mod = 1 ∨ mod = 2 := by omega
    · by_cases hbase : code a &&& 0x7#8 = 5#8
      · simpa [hbase] using hfive.symm
      · simp [hbase]
    · simpa using (bytesFrom_succ code a 1).symm
    · simpa using hfive.symm
  · obtain rfl | rfl | rfl : mod = 0 ∨ mod = 1 ∨ mod = 2 := by omega
    · by_cases hfive : rmField (code pmodrm) = 5
      · simp [hfive]
      · simp [hsib, hfive]
    · simp [hsib]
    · simp [hsib]

theorem regNum_ofNum : ∀ n < 8, regNum (.ofNum n) = n := by decide

theorem ofNum_eq_eax_iff : ∀ n < 8, Reg.ofNum n = .eax ↔ n = 0 := by decide

/-- A register operand is moved to `tpd->target`. -/
theorem compileModrmTarget_reg (off : Layout) {code : Code} {pmodrm : Word} (pre : Byte)
    (h : modField (code pmodrm) = 3) :
    compileModrmTarget off code pmodrm pre =
      (encode off [.movRegTls (.ofNum (rmField (code pmodrm))) .target], 1) := by
  have hrm := rmField_lt (code pmodrm)
  unfold compileModrmTarget
  simp only [h, if_true, encode_cons, encode_nil, List.append_nil, Insn.encode,
    ofNum_eq_eax_iff _ hrm, regNum_ofNum _ hrm]
  split <;> rfl

/-- **A memory operand is loaded** with its own address bytes. -/
theorem compileModrmTarget_mem (off : Layout) {code : Code} {pmodrm : Word} (pre : Byte)
    (h : modField (code pmodrm) ≠ 3) :
    compileModrmTarget off code pmodrm pre =
      (encode off saveEaxToSaver1 ++ (if pre ≠ 0 then [pre] else []) ++
          0x8b :: buildModrm (modField (code pmodrm)) 0 (rmField (code pmodrm)) ::
            addressBytesOf code pmodrm ++ encode off setTargetRestoreEax,
        1 + (addressBytesOf code pmodrm).length) := by
  obtain ⟨hmod, -, hrm⟩ := fields_buildModrm _ (modField_lt (code pmodrm)) 0 (by decide) _
    (rmField_lt (code pmodrm))
  unfold compileModrmTarget
  simp only [h, if_false, hmod, hrm, ne_eq, not_false_eq_true, and_true]
  rw [← copied_eq_addressBytesOf code pmodrm h]
  simp only [List.length_append, Nat.add_assoc]

/-- The operand that is read is the one that is written. -/
theorem operandAt_mem {code : Code} {pmodrm : Word} (gs : Bool) (h : modField (code pmodrm) ≠ 3) :
    ∃ op : MemOperand, operandAt code pmodrm gs = .mem op ∧ op.gs = gs ∧
      op.bytes 0 = buildModrm (modField (code pmodrm)) 0 (rmField (code pmodrm)) ::
        addressBytesOf code pmodrm := by
  unfold operandAt
  simp only [h, if_false]
  refine ⟨_, rfl, rfl, ?_⟩
  rw [← copied_eq_addressBytesOf code pmodrm h]
  unfold MemOperand.bytes
  simp only [List.cons.injEq, true_and, List.append_assoc]
  congr 1
  · split <;> rfl
  · have hmod := modField_lt (code pmodrm)
    generalize modField (code pmodrm) = mod at h hmod ⊢
    obtain rfl | rfl | rfl : mod = 0 ∨ mod = 1 ∨ mod = 2 := by omega
    · by_cases hfive : rmField (code pmodrm) = 5
      · simp [hfive, Disp.bytes]
      · by_cases hbase : rmField (code pmodrm) = 4 ∧ code (pmodrm + 1#32) &&& 7#8 = 5#8
        · simp [hbase, Disp.bytes]
        · simp [hfive, hbase, Disp.bytes]
    · simp [Disp.bytes]
    · simp [Disp.bytes]

/-- **`compile_modrm_target` writes the set-target phase**, and counts the operand's bytes. -/
theorem compileModrmTarget_encodes (off : Layout) (code : Code) (pmodrm : Word) (gs : Bool) :
    compileModrmTarget off code pmodrm (if gs then 0x65 else 0) =
      (encode off (operandAt code pmodrm gs).setTarget, (operandAt code pmodrm gs).size) := by
  by_cases h : modField (code pmodrm) = 3
  · have hop : operandAt code pmodrm gs = .reg (.ofNum (rmField (code pmodrm))) := by
      unfold operandAt
      simp only [h, if_true]
    rw [compileModrmTarget_reg off _ h, hop]
    rfl
  · obtain ⟨op, hop, hgs, hbytes⟩ := operandAt_mem gs h
    have hsize : (Operand.mem op).size = 1 + (addressBytesOf code pmodrm).length := by
      rw [← op.length_bytes 0, hbytes, List.length_cons, Nat.add_comm]
    have hload : (Insn.loadOperand op).encode off = (if gs then [0x65] else []) ++
        0x8b :: buildModrm (modField (code pmodrm)) 0 (rmField (code pmodrm)) ::
          addressBytesOf code pmodrm := by
      rw [← hbytes, ← hgs]
      rfl
    have hpre : (if (if gs then (0x65 : Byte) else 0) ≠ 0 then [if gs then (0x65 : Byte) else 0] else []) =
        if gs then [0x65] else [] := by cases gs <;> rfl
    rw [compileModrmTarget_mem off _ h, hop, hsize, hpre]
    simp only [Operand.setTarget, encode_cons, hload, saveEaxToSaver1, setTargetRestoreEax, encode_nil,
      List.append_nil, List.append_assoc, List.cons_append]

theorem scanModrm_of_mod3 (code : Code) (stream : Word) {modrm : Byte} (h : modField modrm = 3) :
    scanModrm code stream modrm 4 = 0 := by
  unfold scanModrm
  simp only [modRm_eq_five_iff, h]
  simp

/-- **The two parsers agree**: the operand has as many bytes as the decoder passes over. -/
theorem size_operandAt (code : Code) (pmodrm : Word) (gs : Bool) :
    (operandAt code pmodrm gs).size = 1 + scanModrm code (pmodrm + 1) (code pmodrm) 4 := by
  have hsize := congrArg Prod.snd (compileModrmTarget_encodes (fun _ => 0) code pmodrm gs)
  refine hsize.symm.trans ?_
  by_cases h : modField (code pmodrm) = 3
  · rw [compileModrmTarget_reg _ _ h, scanModrm_of_mod3 _ _ h]
  · rw [compileModrmTarget_mem _ _ h]
    exact congrArg (1 + ·) (length_bytesFrom _ _ _)

/-- The decoder's entry for an indirect branch, if it were no jump. -/
def indirectEntry (modrm : Byte) : InstRow :=
  { groupEntry x86Opcode {} .grp5_0xff modrm with jmpnote := false }

/-- The decoder passes over ModRM and the address bytes. -/
theorem skipOperades_indirect (code : Code) {stream : Word}
    (hreg : regField (code stream) = 2 ∨ regField (code stream) = 4) :
    skipOperades code {} (indirectEntry (code stream)) stream =
      some (1 + scanModrm code (stream + 1) (code stream) 4) := by
  have hrow : ∀ reg, reg = 2 ∨ reg = 4 →
      (x86Opcode.insts (.group .grp5_0xff) reg).type = .normal ∧
        (x86Opcode.insts (.group .grp5_0xff) reg).operades = [.normal .E .v] := by
    rintro reg (rfl | rfl) <;> decide +kernel
  obtain ⟨htype, hoperades⟩ := hrow _ hreg
  have hentry : indirectEntry (code stream) = ⟨.normal, [.normal .E .v], false⟩ := by
    unfold indirectEntry groupEntry
    simp [htype, hoperades, OpcodeTableEntry.row]
  rw [hentry]
  rfl

/-- The branch `compile_branch` finds in `ff /2` and `ff /4`. -/
theorem branchAt_indirect {code : Code} {branch : Word} (hop : code branch = 0xff)
    (hreg : regField (code (branch + 1)) = 2 ∨ regField (code (branch + 1)) = 4) :
    branchAt code branch = .ok
      (if regField (code (branch + 1)) = 2 then
        .callIndirect (operandAt code (branch + 1) false)
          (branch + BitVec.ofNat 32 (1 + (operandAt code (branch + 1) false).size))
      else .jmpIndirect (operandAt code (branch + 1) false)) := by
  change regField (code (branch + 1#32)) = 2 ∨ regField (code (branch + 1#32)) = 4 at hreg
  unfold branchAt
  rcases hreg with hreg | hreg <;> simp [hop, hreg]

/-- **Indirect operands are re-encoded faithfully.** Of `ff /2` and `ff /4`, the emitted load
has `mod`, `rm`, SIB and displacement of the operand, byte for byte; what is added to
`inst_sz` is what `scan_modrm` passes over, with ModRM; and a call pushes the address where
the decoder goes on. -/
theorem indirect_reencoded (off : Layout) {code : Code} {branch : Word} (hop : code branch = 0xff)
    (hreg : regField (code (branch + 1)) = 2 ∨ regField (code (branch + 1)) = 4) :
    let modrm := code (branch + 1)
    let n := scanModrm code (branch + 1 + 1) modrm 4
    let emitted := compileModrmTarget off code (branch + 1) 0
    emitted.2 = 1 + n ∧
    (modField modrm = 3 → emitted.1 = encode off [.movRegTls (.ofNum (rmField modrm)) .target]) ∧
    (modField modrm ≠ 3 → ∃ load, modField load = modField modrm ∧ rmField load = rmField modrm ∧
      regField load = 0 ∧ emitted.1 = encode off saveEaxToSaver1 ++
        0x8b :: load :: bytesFrom code (branch + 1 + 1) n ++ encode off setTargetRestoreEax) ∧
    ∃ b skipped, branchAt code branch = .ok b ∧ encode off b.setTarget = emitted.1 ∧
      skipOperades code {} (indirectEntry modrm) (branch + 1) = some skipped ∧
      b.takeEffect = if regField modrm = 2 then [.push (branch + 1 + BitVec.ofNat 32 skipped)] else [] := by
  intro modrm n emitted
  have hencodes := compileModrmTarget_encodes off code (branch + 1) false
  have hsize : (operandAt code (branch + 1) false).size = 1 + n := size_operandAt _ _ _
  refine ⟨(congrArg Prod.snd hencodes).trans hsize, fun h => ?_, fun h => ?_, _, _, branchAt_indirect hop hreg, ?_,
    skipOperades_indirect code hreg, ?_⟩
  · exact congrArg Prod.fst (compileModrmTarget_reg off 0 h)
  · obtain ⟨hmod, hreg₀, hrm⟩ := fields_buildModrm _ (modField_lt modrm) 0 (by decide) _ (rmField_lt modrm)
    exact ⟨_, hmod, hrm, hreg₀, congrArg Prod.fst (compileModrmTarget_mem off 0 h)⟩
  · refine Eq.trans ?_ (congrArg Prod.fst hencodes).symm
    split <;> rfl
  · rw [hsize, add_one_add_ofNat, Nat.add_comm 1 (1 + n)]
    split <;> rfl

/-- `call *0x12345678(%eax,%ebx,4)` at `0x8048000`. -/
def sibCall : Code := fun a => [0xff, 0x94, 0x98, 0x78, 0x56, 0x34, 0x12].getD (a - 0x8048000).toNat 0

/-- SIB and a displacement of four bytes. -/
theorem indirect_reencoded_sibCall :
    (compileModrmTarget (fun _ => 0) sibCall 0x8048001 0).2 = 6 ∧
      ∃ b, branchAt sibCall 0x8048000 = .ok b ∧ b.takeEffect = [.push 0x8048007] := by
  have hreg : regField (sibCall (0x8048000 + 1)) = 2 := by decide
  have hskipped : scanModrm sibCall (0x8048000 + 1 + 1) (sibCall (0x8048000 + 1)) 4 = 5 := by decide
  obtain ⟨hcount, -, -, b, skipped, hb, -, hskip, heffect⟩ :=
    indirect_reencoded (fun _ => 0) (show sibCall 0x8048000 = 0xff by decide) (.inl hreg)
  rw [hskipped] at hcount
  rw [skipOperades_indirect sibCall (.inl hreg), hskipped] at hskip
  cases hskip
  rw [if_pos hreg] at heffect
  exact ⟨hcount, b, hb, heffect⟩

end Snitchaser.Compiler
