import Snitchaser.Foundation.X86
import Snitchaser.Decoder.ScanOpcode

/-!
# The branch at the end of a basic block

The `switch` of `compile_branch`: which branch instruction stands at an address, with
the addresses and operands the compiler takes from its bytes. One `f2` or `f3` before
the opcode is passed over; any other prefix but the `gs` of a system call or a call
through `gs` is refused.

`int3` is told apart from the others only by what is left out: it does not set
`exit_type`, so the block keeps the default, that of a direct jump
(`Branch.exitType`).
-/

namespace Snitchaser.Compiler

open Foundation.X86 Decoder

/-- `enum exit_type`. -/
inductive ExitType where
  | condDirect
  | condIndirect
  | uncondDirect
  | uncondIndirect
  | syscall
  deriving DecidableEq, Repr

/-- The displacement of a memory operand. -/
inductive Disp where
  | none
  | disp8 (d : Byte)
  | disp32 (d : Word)
  deriving DecidableEq, Repr

/-- How many bytes it takes. -/
def Disp.size : Disp → ℕ
  | .none => 0
  | .disp8 _ => 1
  | .disp32 _ => 4

/-- A memory operand as ModRM, SIB and displacement give it. -/
structure MemOperand where
  /-- The segment prefix is `gs`. -/
  gs : Bool
  /-- `MODRM_MOD`, other than 3. -/
  mod : ℕ
  /-- `MODRM_RM`. -/
  rm : ℕ
  /-- The SIB byte. -/
  sib : Option Byte
  /-- The displacement. -/
  disp : Disp
  deriving DecidableEq, Repr

/-- The operand of an indirect branch. -/
inductive Operand where
  | reg (r : Reg)
  | mem (op : MemOperand)
  deriving DecidableEq, Repr

/-- The bytes of ModRM, SIB and displacement. -/
def Operand.size : Operand → ℕ
  | .reg _ => 1
  | .mem op => 1 + (if op.sib.isSome then 1 else 0) + op.disp.size

/-- The branch instructions `compile_branch` knows. -/
inductive Branch where
  /-- `70` to `7f`, `0f 80` to `0f 8f`, `e3`. -/
  | jcc (c : Cond) (untaken taken : Word)
  /-- `e9`, `eb`. -/
  | jmp (target : Word)
  /-- `e8`. -/
  | call (target next : Word)
  /-- `c3`. -/
  | ret
  /-- `c2`. -/
  | retn (imm : BitVec 16)
  /-- `ff /2`, and `65 ff 15`. -/
  | callIndirect (op : Operand) (next : Word)
  /-- `ff /4`. -/
  | jmpIndirect (op : Operand)
  /-- `0f 31`. -/
  | rdtsc (next : Word)
  /-- `cc`. -/
  | int3 (branch : Word)
  /-- `cd 80`. -/
  | int80 (next : Word)
  /-- `65 ff 15 10 00 00 00`, the call of the kernel's entry. -/
  | vdso (next : Word)
  deriving DecidableEq, Repr

/-- What `compile_modrm_target` reads: the operand of the ModRM byte at `pmodrm`. -/
def operandAt (code : Code) (pmodrm : Word) (gs : Bool) : Operand :=
  let mod := modField (code pmodrm)
  let rm := rmField (code pmodrm)
  if mod = 3 then .reg (.ofNum rm)
  else
    let sib := if rm = 4 then some (code (pmodrm + 1)) else none
    let rest := if rm = 4 then pmodrm + 2 else pmodrm + 1
    let disp :=
      if mod = 1 then .disp8 (code rest)
      else if mod = 2 then .disp32 (load32 code rest)
      else if mod = 0 ∧ rm = 5 then .disp32 (load32 code rest)
      else if rm = 4 ∧ code (pmodrm + 1) &&& 0x7 = 5 ∧ mod = 0 then .disp32 (load32 code rest)
      else .none
    .mem ⟨gs, mod, rm, sib, disp⟩

/-- `call *%gs:0x10`. -/
def vdsoSyscallInst : List Byte := [0x65, 0xff, 0x15, 0x10, 0, 0, 0]

/-- The `switch` of `compile_branch`, with the prefix passed over. -/
def branchAt (code : Code) (branch : Word) : Except Fault Branch :=
  let rel8 := (code (branch + 1)).signExtend 32
  match (code branch).toNat with
  | 0x70 | 0x71 | 0x72 | 0x73 | 0x74 | 0x75 | 0x76 | 0x77
  | 0x78 | 0x79 | 0x7a | 0x7b | 0x7c | 0x7d | 0x7e | 0x7f =>
    .ok (.jcc (.ofNum ((code branch).toNat % 16)) (branch + 2) (branch + 2 + rel8))
  | 0xe3 => .ok (.jcc .ecxz (branch + 2) (branch + 2 + rel8))
  | 0xeb => .ok (.jmp (branch + 2 + rel8))
  | 0xe9 => .ok (.jmp (branch + 5 + load32 code (branch + 1)))
  | 0xe8 => .ok (.call (branch + 5 + load32 code (branch + 1)) (branch + 5))
  | 0xc3 => .ok .ret
  | 0xc2 => .ok (.retn (load16 code (branch + 1)))
  | 0xff =>
    let op := operandAt code (branch + 1) false
    match regField (code (branch + 1)) with
    | 2 => .ok (.callIndirect op (branch + BitVec.ofNat 32 (1 + op.size)))
    | 4 => .ok (.jmpIndirect op)
    | _ => .error (.fatal "doesn't support 0xff 0x%x\n")
  | 0x0f =>
    match (code (branch + 1)).toNat with
    | 0x80 | 0x81 | 0x82 | 0x83 | 0x84 | 0x85 | 0x86 | 0x87
    | 0x88 | 0x89 | 0x8a | 0x8b | 0x8c | 0x8d | 0x8e | 0x8f =>
      .ok (.jcc (.ofNum ((code (branch + 1)).toNat % 16)) (branch + 6)
        (branch + 6 + load32 code (branch + 2)))
    | 0x31 => .ok (.rdtsc (branch + 2))
    | _ => .error (.fatal "unknown branch instruction with 0x0f perfix at %p: 0x%x 0x%x 0x%x\n")
  | 0xcc => .ok (.int3 branch)
  | 0xcd =>
    if code (branch + 1) ≠ 0x80 then .error (.fatal "doesn't support int 0x%x\n")
    else .ok (.int80 (branch + 2))
  | 0x65 =>
    if (List.range vdsoSyscallInst.length).map (fun i => code (branch + BitVec.ofNat 32 i)) =
        vdsoSyscallInst then
      .ok (.vdso (branch + BitVec.ofNat 32 vdsoSyscallInst.length))
    else if code (branch + 1) = 0xff ∧ code (branch + 2) = 0x15 then
      let op := operandAt code (branch + 2) true
      .ok (.callIndirect op (branch + BitVec.ofNat 32 (2 + op.size)))
    else .error (.fatal "unknown gs branch instruction at %p: 0x%x 0x%x 0x%x\n")
  | _ => .error (.fatal "unknown branch instruction at %p: 0x%x 0x%x 0x%x\n")

/-- The address `compile_branch` looks at, one `f2` or `f3` eaten up. -/
def eatPrefix (code : Code) (branch : Word) : Word :=
  if code branch = 0xf2 ∨ code branch = 0xf3 then branch + 1 else branch

/-- **The branch at an address**, as `compile_branch` reads it. -/
def readBranch (code : Code) (branch : Word) : Except Fault Branch :=
  branchAt code (eatPrefix code branch)

/-- What `compile_branch` writes to `*pexit_type`; for `int3` it writes nothing. -/
def Branch.exitType : Branch → Option ExitType
  | .jcc .. => some .condDirect
  | .jmp _ => some .uncondDirect
  | .call .. => some .uncondDirect
  | .ret => some .uncondIndirect
  | .retn _ => some .uncondIndirect
  | .callIndirect .. => some .uncondIndirect
  | .jmpIndirect _ => some .uncondIndirect
  | .rdtsc _ => some .condDirect
  | .int3 _ => none
  | .int80 _ => some .syscall
  | .vdso _ => some .syscall

/-- **The static target** of a direct jump or call. -/
def Branch.staticTarget : Branch → Option Word
  | .jmp target => some target
  | .call target _ => some target
  | _ => none

end Snitchaser.Compiler
