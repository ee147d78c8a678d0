import Snitchaser.Common.Marks
import Snitchaser.Compiler.Branch

/-!
# What a branch is compiled to

The code `compile_branch` puts at the end of a block: the templates of
`branch_template.S` with the constants filled in, and the few instructions the
compiler writes byte by byte.

## The model

* `Insn` — the instructions that occur, by what they are; `Insn.size` is the length of
  their encoding.
* `Branch.patch` — the patch for a branch, as written into a buffer at `buf`. Logged
  branches have the four phases of `branch_template.S`: set target, log, take effect,
  real branch.
* `retaddrFix` — the log phase holds its own end address, which `compile_code_block`
  moves from the buffer to the block.

## What is proved

A patch fits the buffer and is long enough for the jump `recompile_ud` may write over
it (`Branch.size_patch`), and fixing the return address gives the patch as if it had
been written in its place (`patch_fixed`).
-/

namespace Snitchaser.Compiler

open Foundation.X86

/-- The fields of `struct thread_private_data` that compiled code uses through `%fs`. -/
inductive TlsField where
  | target
  | regSaver1
  | regSaver2
  | logBufferCurrent
  | checkBufferReturn
  | checkLoggerBuffer
  | realBranch
  | int80SyscallEntry
  | vdsoSyscallEntry
  | currentBlock
  | stackTop
  | oldStackTop
  deriving DecidableEq, Repr

/-- The instructions of patches. -/
inductive Insn where
  /-- `movl $imm, %fs:field`. -/
  | movImmTls (imm : Word) (field : TlsField)
  /-- `movl %r, %fs:field`. -/
  | movRegTls (r : Reg) (field : TlsField)
  /-- `movl %fs:field, %r`. -/
  | movTlsReg (field : TlsField) (r : Reg)
  /-- `movl %r, disp(%ebx)`. -/
  | storeEbx (r : Reg) (disp : ℕ)
  /-- `movl disp(%ebx), %eax`. -/
  | loadEbx (disp : ℕ)
  /-- `movl (%esp), %eax`. -/
  | loadEsp
  /-- `movl op, %eax`. -/
  | loadOperand (op : MemOperand)
  /-- `movl $imm, %eax`. -/
  | movImmEax (imm : Word)
  /-- `lahf`. -/
  | lahf
  /-- `sahf`. -/
  | sahf
  /-- `addl $imm, %fs:field`, `imm` being one byte. -/
  | addTls (imm : Word) (field : TlsField)
  /-- `addl $imm, %esp`, `imm` being four bytes. -/
  | addEsp (imm : Word)
  /-- `pushl $imm`, `imm` being four bytes. -/
  | push (imm : Word)
  /-- `popl %fs:field`. -/
  | popTls (field : TlsField)
  /-- A short conditional jump over `skip` bytes. -/
  | jcc (c : Cond) (skip : ℕ)
  /-- A short jump over `skip` bytes. -/
  | jmpShort (skip : ℕ)
  /-- `rdtsc`. -/
  | rdtsc
  /-- `jmpl *%fs:field`. -/
  | jmpTls (field : TlsField)
  /-- `ret`. -/
  | ret
  /-- `jmp rel`, `rel` being four bytes. -/
  | jmpRel (rel : Word)
  deriving DecidableEq, Repr

/-- The length of the instruction in bytes. -/
def Insn.size : Insn → ℕ
  | .movImmTls .. => 11
  | .movRegTls r _ => if r = .eax then 6 else 7
  | .movTlsReg _ r => if r = .eax then 6 else 7
  | .storeEbx _ disp => if disp = 0 then 2 else 3
  | .loadEbx disp => if disp = 0 then 2 else 3
  | .loadEsp => 3
  | .loadOperand op => (if op.gs then 1 else 0) + 1 + (Operand.mem op).size
  | .movImmEax _ => 5
  | .lahf => 1
  | .sahf => 1
  | .addTls .. => 8
  | .addEsp _ => 6
  | .push _ => 5
  | .popTls _ => 7
  | .jcc .. => 2
  | .jmpShort _ => 2
  | .rdtsc => 2
  | .jmpTls _ => 7
  | .ret => 1
  | .jmpRel _ => 5

/-- The length of a piece of code. -/
def encodedSize (code : List Insn) : ℕ := (code.map Insn.size).sum

@[simp] theorem encodedSize_nil : encodedSize [] = 0 := rfl

@[simp] theorem encodedSize_cons (i : Insn) (code : List Insn) :
    encodedSize (i :: code) = i.size + encodedSize code := by
  simp [encodedSize]

@[simp] theorem encodedSize_append (code code' : List Insn) :
    encodedSize (code ++ code') = encodedSize code + encodedSize code' := by
  simp [encodedSize]

/-! ### Templates -/

/-- `__set_current_block_template`, at the head of the block at `block`. -/
def setCurrentBlockTemplate (block : Word) : List Insn := [.movImmTls block .currentBlock]

/-- `__log_phase_template`, `ret` being where its check of the buffer returns to. -/
def logPhaseTemplate (ret : Word) : List Insn :=
  [.movRegTls .eax .regSaver1,
   .movRegTls .ebx .regSaver2,
   .movTlsReg .logBufferCurrent .ebx,
   .movTlsReg .target .eax,
   .storeEbx .eax 0,
   .movTlsReg .regSaver2 .ebx,
   .lahf,
   .addTls 4 .logBufferCurrent,
   .sahf,
   .movTlsReg .regSaver1 .eax,
   .movImmTls ret .checkBufferReturn,
   .jmpTls .checkLoggerBuffer]

/-- `__real_branch_phase_template`. -/
def realBranchPhaseTemplate : List Insn := [.jmpTls .realBranch]

/-- `__rdtsc_template`. -/
def rdtscTemplate (next ret : Word) : List Insn :=
  [.movImmTls next .target,
   .rdtsc,
   .movRegTls .ebx .regSaver1,
   .movTlsReg .logBufferCurrent .ebx,
   .storeEbx .eax 4,
   .storeEbx .edx 8,
   .movImmEax rdtscMark,
   .storeEbx .eax 0,
   .lahf,
   .addTls 12 .logBufferCurrent,
   .sahf,
   .loadEbx 4,
   .movTlsReg .regSaver1 .ebx,
   .movImmTls ret .checkBufferReturn,
   .jmpTls .checkLoggerBuffer]

/-- The first half of `compile_modrm_target`: the operand goes to `tpd->target`. -/
def Operand.setTarget : Operand → List Insn
  | .reg r => [.movRegTls r .target]
  | .mem op =>
    [.movRegTls .eax .regSaver1, .loadOperand op, .movRegTls .eax .target,
     .movTlsReg .regSaver1 .eax]

/-- The set-target phase. -/
def Branch.setTarget : Branch → List Insn
  | .jcc c untaken taken =>
    [.jcc c 13, .movImmTls untaken .target, .jmpShort 11, .movImmTls taken .target]
  | .jmp target => [.movImmTls target .target]
  | .call target next => [.push next, .movImmTls target .target]
  | .ret => [.popTls .target]
  | .retn _ =>
    [.movRegTls .eax .regSaver1, .loadEsp, .movRegTls .eax .target, .movTlsReg .regSaver1 .eax]
  | .callIndirect op _ => op.setTarget
  | .jmpIndirect op => op.setTarget
  | .int80 next => [.movImmTls next .target]
  | .vdso next => [.movImmTls next .target]
  | .rdtsc _ | .int3 _ => []

/-- The log phase behind code that ends `before` bytes into the buffer. -/
def logPhase (buf : Word) (before : ℕ) : List Insn :=
  logPhaseTemplate (buf + BitVec.ofNat 32 (before + encodedSize (logPhaseTemplate 0)))

/-- The take-effect phase. -/
def Branch.takeEffect : Branch → List Insn
  | .retn imm => [.addEsp (imm.signExtend 32 + 4)]
  | .callIndirect _ next => [.push next]
  | _ => []

/-- The four phases of a logged branch. -/
def Branch.phases (buf : Word) (b : Branch) : List Insn :=
  b.setTarget ++ logPhase buf (encodedSize b.setTarget) ++ b.takeEffect ++ realBranchPhaseTemplate

/-- **The patch** `compile_branch` writes to the buffer at `buf`. -/
def Branch.patch (buf : Word) (b : Branch) : List Insn :=
  match b with
  | .jcc .. | .ret | .retn _ | .callIndirect .. | .jmpIndirect _ => b.phases buf
  | .jmp _ | .call .. => b.setTarget ++ realBranchPhaseTemplate
  | .rdtsc next =>
    rdtscTemplate next (buf + BitVec.ofNat 32 (encodedSize (rdtscTemplate 0 0))) ++
      realBranchPhaseTemplate
  | .int3 branch => [.push branch, .ret]
  | .int80 _ => b.setTarget ++ [.jmpTls .int80SyscallEntry]
  | .vdso _ => b.setTarget ++ [.jmpTls .vdsoSyscallEntry]

/-- `*recompile_branch_offset`. -/
def Branch.recompileOffset : Branch → ℕ
  | .call _ next => Insn.size (.push next)
  | _ => 0

/-- `MAX_PATCH_SIZE`. -/
def maxPatchSize : ℕ := 256

/-- `SMALLEST_PATCH_SIZE`. -/
def smallestPatchSize : ℕ := 6

theorem size_memOperand_le (op : MemOperand) : (Operand.mem op).size ≤ 6 := by
  obtain ⟨gs, mod, rm, sib, disp⟩ := op
  cases disp <;> cases sib <;> simp [Operand.size, Disp.size]

/-- **A patch fits the buffer**, and is not too short to be written over. -/
theorem Branch.size_patch (buf : Word) (b : Branch) :
    smallestPatchSize ≤ encodedSize (b.patch buf) ∧ encodedSize (b.patch buf) ≤ maxPatchSize := by
  have hop : ∀ op : Operand, encodedSize op.setTarget ≤ 26 := fun op => by
    cases op with
    | reg r => cases r <;> decide
    | mem op =>
      have := size_memOperand_le op
      obtain ⟨gs, mod, rm, sib, disp⟩ := op
      cases gs <;> simp [Operand.setTarget, Insn.size] <;> omega
  cases b with
  | callIndirect op next =>
    have := hop op
    simp [Branch.patch, Branch.phases, Branch.setTarget, Branch.takeEffect, logPhase,
      logPhaseTemplate, realBranchPhaseTemplate, Insn.size, smallestPatchSize, maxPatchSize]
    omega
  | jmpIndirect op =>
    have := hop op
    simp [Branch.patch, Branch.phases, Branch.setTarget, Branch.takeEffect, logPhase,
      logPhaseTemplate, realBranchPhaseTemplate, Insn.size, smallestPatchSize, maxPatchSize]
    omega
  | _ =>
    simp [Branch.patch, Branch.phases, Branch.setTarget, Branch.takeEffect, logPhase,
      logPhaseTemplate, rdtscTemplate, realBranchPhaseTemplate, Insn.size, smallestPatchSize,
      maxPatchSize]

/-! ### The return address of the log phase -/

/-- The fix of `compile_code_block`: the return address in the one `movl` to
`check_buffer_return` moves from the buffer to the block. -/
def retaddrFix (oriCodeEnd buf : Word) : Insn → Insn
  | .movImmTls imm .checkBufferReturn =>
    .movImmTls (oriCodeEnd + (imm - buf)) .checkBufferReturn
  | i => i

theorem Operand.setTarget_fixed (op : Operand) (oriCodeEnd buf : Word) :
    op.setTarget.map (retaddrFix oriCodeEnd buf) = op.setTarget := by
  cases op <;> rfl

theorem Branch.setTarget_fixed (b : Branch) (oriCodeEnd buf : Word) :
    b.setTarget.map (retaddrFix oriCodeEnd buf) = b.setTarget := by
  cases b <;> first | rfl | exact Operand.setTarget_fixed _ _ _

theorem Branch.takeEffect_fixed (b : Branch) (oriCodeEnd buf : Word) :
    b.takeEffect.map (retaddrFix oriCodeEnd buf) = b.takeEffect := by
  cases b <;> rfl

theorem logPhase_fixed (oriCodeEnd buf : Word) (before : ℕ) :
    (logPhase buf before).map (retaddrFix oriCodeEnd buf) = logPhase oriCodeEnd before := by
  simp [logPhase, logPhaseTemplate, retaddrFix]

theorem Branch.phases_fixed (b : Branch) (oriCodeEnd buf : Word) :
    (b.phases buf).map (retaddrFix oriCodeEnd buf) = b.phases oriCodeEnd := by
  unfold Branch.phases
  rw [List.map_append, List.map_append, List.map_append, b.setTarget_fixed, logPhase_fixed,
    b.takeEffect_fixed]
  rfl

/-- **The fixed patch** is the one that would have been written in its place. -/
theorem Branch.patch_fixed (b : Branch) (oriCodeEnd buf : Word) :
    (b.patch buf).map (retaddrFix oriCodeEnd buf) = b.patch oriCodeEnd := by
  cases b with
  | jcc | ret | retn | callIndirect | jmpIndirect => exact Branch.phases_fixed _ _ _
  | rdtsc => simp [Branch.patch, rdtscTemplate, realBranchPhaseTemplate, retaddrFix]
  | jmp | call | int3 | int80 | vdso => rfl

end Snitchaser.Compiler
