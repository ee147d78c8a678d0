import Snitchaser.Compiler.Patch
import Snitchaser.Foundation.X86State

/-!
# Running a patch

What the processor does with the code of `Compiler.Patch`, and with the routines of
`compiler.S` and `logger.S` that it goes through.

## The model

* `Machine` is the processor and the fields of `struct thread_private_data` that are
  reached through `%fs`. The structure lies in memory of the interpreter, apart from
  what `Machine.mem` is asked for.
* `Insn.effect` is what an instruction does that does not jump, `run` the code from its
  first byte to where it is left (`Exit`). Jumps within a patch go forward, so they are
  a number of bytes to pass over. With the exit come the machines that asked for a check
  of the log buffer: whatever a patch writes to the log, it then asks for a check.
* `trampoline` is the frame that `check_logger_buffer` and `real_branch` share; the C
  function they call is a parameter (`Callee`), of which is known what holds of any C
  function called there: it keeps the stack pointer and the frame of its caller, the
  memory of the program, and the fields that are not its business.

## What is proved

The trampolines are not seen by the program (`trampoline_agree`), and code without jumps
is the sequence of its effects (`run_plain`).
-/

namespace Snitchaser.Compiler

open Foundation Foundation.X86

/-- The processor, and the thread's data. -/
@[ext]
structure Machine extends Cpu where
  tls : TlsField → Word

/-- The processor makes a step. -/
def Machine.on (m : Machine) (f : Cpu → Cpu) : Machine := { m with toCpu := f m.toCpu }

/-- A field is set. -/
def Machine.setTls (m : Machine) (field : TlsField) (v : Word) : Machine :=
  { m with tls := Function.update m.tls field v }

/-- The address of a memory operand, with the base of the segment `gs`. -/
def MemOperand.address (op : MemOperand) (gsBase : Word) (regs : Reg → Word) : Word :=
  let disp : Word :=
    match op.disp with
    | .none => 0
    | .disp8 d => d.signExtend 32
    | .disp32 d => d
  let base : Word :=
    match op.sib with
    | none => if op.mod = 0 ∧ op.rm = 5 then 0 else regs (.ofNum op.rm)
    | some sib =>
      let index := Decoder.regField sib
      let base := Decoder.rmField sib
      (if base = 5 ∧ op.mod = 0 then 0 else regs (.ofNum base)) +
        (if index = 4 then 0 else regs (.ofNum index) <<< Decoder.modField sib)
  (if op.gs then gsBase else 0) + (base + disp)

/-! ### Trampolines -/

/-- A C function called by a trampoline: it leaves memory outside `hidden` alone, and
fields outside `owned`. -/
structure Callee (hidden : Set Word) (owned : Set TlsField) where
  call : Machine → Machine
  esp_call (m : Machine) : (call m).esp = m.esp
  mem_call (m : Machine) : Set.EqOn (call m).mem m.mem hiddenᶜ
  /-- The flags and registers its caller has pushed. -/
  frame_call (m : Machine) : ∀ i < 36,
    (call m).mem (m.esp + BitVec.ofNat 32 i) = m.mem (m.esp + BitVec.ofNat 32 i)
  tls_call (m : Machine) : ∀ field ∉ owned, (call m).tls field = m.tls field

/-- `pushl $0x0202` pushes these flags. -/
def defaultEflags : Word := 0x202

/-- `check_logger_buffer` and `real_branch`, up to their last jump. -/
def trampoline (call : Machine → Machine) (m : Machine) : Machine :=
  let m := m.setTls .oldStackTop m.esp
  let m := m.on fun c => c.setReg .esp (m.tls .stackTop)
  let m := m.on fun c => ((c.pusha.pushf).push [defaultEflags]).popf
  let m := call m
  let m := m.on fun c => c.popf.popa
  m.on fun c => c.setReg .esp (m.tls .oldStackTop)

/-- What a patch runs with. -/
structure RunEnv where
  /-- The memory of the interpreter. -/
  hidden : Set Word
  /-- `do_check_logger_buffer`. -/
  doCheckLoggerBuffer : Callee hidden {.logBufferCurrent}
  /-- `do_real_branch`. -/
  doRealBranch : Callee hidden {.target, .currentBlock}
  /-- Where `%gs` is based. -/
  gsBase : Word
  /-- What `rdtsc` puts in `eax` and `edx`. -/
  tsc : Word × Word

/-! ### Instructions -/

/-- The instruction does not jump. -/
def Insn.isPlain : Insn → Bool
  | .jcc .. | .jmpShort _ | .jmpTls _ | .ret | .jmpRel _ => false
  | _ => true

/-- What an instruction does that does not jump. -/
def Insn.effect (env : RunEnv) (m : Machine) : Insn → Machine
  | .movImmTls imm field => m.setTls field imm
  | .movRegTls r field => m.setTls field (m.regs r)
  | .movTlsReg field r => m.on fun c => c.setReg r (m.tls field)
  | .storeEbx r disp =>
    m.on fun c => { c with mem := store32 c.mem (c.regs .ebx + BitVec.ofNat 32 disp) (c.regs r) }
  | .loadEbx disp =>
    m.on fun c => c.setReg .eax (load32 c.mem (c.regs .ebx + BitVec.ofNat 32 disp))
  | .loadEsp => m.on fun c => c.setReg .eax (load32 c.mem c.esp)
  | .loadOperand op => m.on fun c => c.setReg .eax (load32 c.mem (op.address env.gsBase c.regs))
  | .movImmEax imm => m.on fun c => c.setReg .eax imm
  | .lahf => m.on Cpu.lahf
  | .sahf => m.on Cpu.sahf
  | .addTls imm field =>
    { m.setTls field (m.tls field + imm) with flags := addFlags (m.tls field) imm }
  | .addEsp imm => m.on fun c => { c.setReg .esp (c.esp + imm) with flags := addFlags c.esp imm }
  | .push imm => m.on fun c => c.push [imm]
  | .popTls field => (m.setTls field (load32 m.mem m.esp)).on fun c => c.drop 1
  | .rdtsc => m.on fun c => (c.setReg .eax env.tsc.1).setReg .edx env.tsc.2
  | .jcc .. | .jmpShort _ | .jmpTls _ | .ret | .jmpRel _ => m

/-- How a patch is left. -/
inductive Exit where
  /-- Through `real_branch`, which is entered with this in `tpd->target`. -/
  | realBranch (target : Word) (m : Machine)
  /-- To `int80_syscall_entry` and `vdso_syscall_entry`, which are the same. -/
  | syscallEntry (m : Machine)
  /-- To an address. -/
  | jump (addr : Word) (m : Machine)

/-- How a patch is left, with the machines that asked for a check of the buffer on the
way. -/
abbrev Run := Except Fault (List Machine × Exit)

/-- A check was asked for before the rest. -/
def Run.asked (m : Machine) (rest : Run) : Run := rest.map fun p => (m :: p.1, p.2)

/-- The code at `base + off`, of which the first `skip` bytes are passed over. -/
def run (env : RunEnv) (base : Word) : List Insn → (skip off : ℕ) → Machine → Run
  | [], _, _, _ => .error .segfault
  | i :: code, skip + 1, off, m =>
    if i.size ≤ skip + 1 then run env base code (skip + 1 - i.size) (off + i.size) m
    else .error .segfault
  | i :: code, 0, off, m =>
    match i with
    | .jcc c skip =>
      run env base code (if c.holds m.flags (m.regs .ecx) then skip else 0) (off + i.size) m
    | .jmpShort skip => run env base code skip (off + i.size) m
    | .jmpTls .checkLoggerBuffer =>
      let m' := trampoline env.doCheckLoggerBuffer.call m
      Run.asked m <|
        if m'.tls .checkBufferReturn = base + BitVec.ofNat 32 (off + i.size) then
          run env base code 0 (off + i.size) m'
        else .ok ([], .jump (m'.tls .checkBufferReturn) m')
    | .jmpTls .realBranch =>
      .ok ([], .realBranch (m.tls .target) (trampoline env.doRealBranch.call m))
    | .jmpTls .int80SyscallEntry | .jmpTls .vdsoSyscallEntry => .ok ([], .syscallEntry m)
    | .jmpTls field => .ok ([], .jump (m.tls field) m)
    | .ret => .ok ([], .jump (load32 m.mem m.esp) (m.on fun c => c.drop 1))
    | .jmpRel rel => .ok ([], .jump (base + BitVec.ofNat 32 (off + i.size) + rel) m)
    | i => run env base code 0 (off + i.size) (i.effect env m)

/-- The effects of instructions, one after the other. -/
def effects (env : RunEnv) (m : Machine) (code : List Insn) : Machine := code.foldl (Insn.effect env) m

theorem run_cons_plain (env : RunEnv) (base : Word) {i : Insn} (h : i.isPlain = true)
    (code : List Insn) (off : ℕ) (m : Machine) :
    run env base (i :: code) 0 off m = run env base code 0 (off + i.size) (i.effect env m) := by
  cases i <;> first | rfl | cases h

/-- **Code without jumps** is the sequence of its effects. -/
theorem run_plain (env : RunEnv) (base : Word) {front : List Insn} (h : front.all Insn.isPlain = true)
    (code : List Insn) (off : ℕ) (m : Machine) :
    run env base (front ++ code) 0 off m =
      run env base code 0 (off + encodedSize front) (effects env m front) := by
  induction front generalizing off m with
  | nil => rfl
  | cons i front ih =>
    rw [List.all_cons, Bool.and_eq_true] at h
    rw [List.cons_append, run_cons_plain env base h.1, ih h.2, encodedSize_cons, Nat.add_assoc]
    rfl

theorem run_plain_start (env : RunEnv) (base : Word) {front : List Insn}
    (h : front.all Insn.isPlain = true) (code : List Insn) (m : Machine) :
    run env base (front ++ code) 0 0 m =
      run env base code 0 (encodedSize front) (effects env m front) := by
  rw [run_plain env base h, Nat.zero_add]

/-! ### What the program sees of a trampoline -/

/-- The interpreter's stack below `tpd->stack_top` and the log buffer from
`log_buffer_current` on are memory of the interpreter. -/
structure Machine.Laid (hidden : Set Word) (m : Machine) : Prop where
  log : ∀ i < 12, m.tls .logBufferCurrent + BitVec.ofNat 32 i ∈ hidden
  stack : ∀ i < 40, m.tls .stackTop - 40 + BitVec.ofNat 32 i ∈ hidden

section Trampoline

variable {hidden : Set Word} {owned : Set TlsField} (f : Callee hidden owned) (m : Machine)

/-- The processor on the interpreter's stack. -/
def Machine.switched : Cpu := m.toCpu.setReg .esp (m.tls .stackTop)

/-- Where the called function starts. -/
def Machine.entered : Machine :=
  { m.setTls .oldStackTop m.esp with
    toCpu := ((m.switched.pusha.pushf).push [defaultEflags]).popf }

/-- The function is called with the saved registers on top of the stack. -/
theorem Machine.esp_entered : m.entered.esp = m.switched.pusha.pushf.esp := by
  show (((m.switched.pusha.pushf).push [defaultEflags]).popf).esp = _
  rw [Cpu.esp_popf, Cpu.esp_push]
  exact BitVec.sub_add_cancel _ _

/-- Ten words are pushed. -/
theorem Machine.mem_entered : m.entered.mem = store m.mem (m.tls .stackTop - 40)
    (leBytesList (defaultEflags :: m.flags.toWord :: pushaOrder.map m.switched.regs)) := by
  show ((m.switched.pusha.pushf).push [defaultEflags]).mem = _
  have hpush : (m.switched.pusha.pushf).push [defaultEflags] =
      m.switched.push (defaultEflags :: m.flags.toWord :: pushaOrder.map m.switched.regs) := by
    unfold Cpu.pushf Cpu.pusha
    rw [Cpu.push_push, Cpu.push_push]
    rfl
  rw [hpush, Cpu.push_mem]
  rfl

/-- The fields that the function does not own. -/
theorem trampoline_tls {field : TlsField} (hfield : field ∉ owned) (hne : field ≠ .oldStackTop) :
    (trampoline f.call m).tls field = m.tls field := by
  refine (f.tls_call m.entered field hfield).trans ?_
  exact Function.update_of_ne hne _ _

/-- **The check of the buffer** returns behind the code that asked for it. -/
theorem run_checked (env : RunEnv) (base : Word) {front : List Insn} (off : ℕ) {size : ℕ}
    {m m' : Machine} (hplain : front.all Insn.isPlain = true) (hsize : encodedSize front + 7 = size)
    (heffects : effects env m front = m')
    (hret : m'.tls .checkBufferReturn = base + BitVec.ofNat 32 (off + size)) (code : List Insn) :
    run env base (front ++ .jmpTls .checkLoggerBuffer :: code) 0 off m =
      .asked m' (run env base code 0 (off + size) (trampoline env.doCheckLoggerBuffer.call m')) := by
  have htls := trampoline_tls env.doCheckLoggerBuffer m'
    (show TlsField.checkBufferReturn ∉ _ by simp) (by simp)
  rw [run_plain env base hplain, heffects]
  subst hsize
  exact congrArg (Run.asked m') (if_pos (htls.trans hret))

/-- **The program does not see a trampoline.** -/
theorem trampoline_agree (hold : TlsField.oldStackTop ∉ owned)
    (hstack : ∀ i < 40, m.tls .stackTop - 40 + BitVec.ofNat 32 i ∈ hidden) :
    (trampoline f.call m).Agree hiddenᶜ m.toCpu := by
  -- the called function comes back with the frame as it was pushed
  have hesp : (f.call m.entered).esp = m.switched.pusha.pushf.esp :=
    (f.esp_call _).trans m.esp_entered
  have hframe : ∀ i < 36, (f.call m.entered).mem ((f.call m.entered).esp + BitVec.ofNat 32 i) =
      m.switched.pusha.pushf.mem ((f.call m.entered).esp + BitVec.ofNat 32 i) := by
    intro i hi
    rw [f.esp_call, f.frame_call _ i hi, m.esp_entered]
    apply Cpu.push_mem_above
    simp only [List.length_singleton]
    omega
  have hpop := Cpu.popa_popf _ _ hesp hframe
  have hesp' : (f.call m.entered).tls .oldStackTop = m.esp := f.tls_call _ _ hold
  have hrun : (trampoline f.call m).toCpu = (f.call m.entered).toCpu.popf.popa.setReg .esp
      ((f.call m.entered).tls .oldStackTop) := rfl
  rw [hrun, hpop, hesp']
  refine ⟨?_, rfl, ?_⟩
  · show Function.update (Function.update m.regs .esp _) .esp (m.regs .esp) = m.regs
    rw [Function.update_idem, Function.update_eq_self]
  · refine (f.mem_call _).trans ?_
    rw [m.mem_entered]
    exact store_eqOn _ hstack

end Trampoline

end Snitchaser.Compiler
