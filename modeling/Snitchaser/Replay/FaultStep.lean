import Snitchaser.Compiler.Architectural
import Snitchaser.Replay.Classify

/-!
# Calls and returns that fault under the debugger

When a single step of the target ends in a signal that is not the trap, `ptrace_single_step`
makes up for what the instruction has not done: for a call it moves the stack pointer and
pushes the return address, for a return it moves the stack pointer back. What it needs to
know of the instruction comes from `do_replay_is_branch_inst`.

## What is proved

`emulated_iff`: this is what the processor would have done for `ret` and for `ret $0`, and
for nothing else. `e8` is a direct branch, and takes the way of the instructions that are not
logged; the length of the other calls is counted without their opcode; `ret $imm16` is
taken for `ret`.
-/

namespace Snitchaser.Replay

open Foundation Foundation.X86 Decoder Compiler

/-- What `do_replay_is_branch_inst` sends of calls and returns. -/
structure CallReport where
  isCall : Bool
  callSz : ℕ
  isRet : Bool
  deriving DecidableEq, Repr

/-- `ff /2`, and `65 ff /2`, as it tells them. -/
def isIndirectCall (code : Code) (eip : Word) : Prop :=
  (code eip = 0xff ∧ regField (code (eip + 1)) = 2) ∨
    (code eip = 0x65 ∧ code (eip + 1) = 0xff ∧ regField (code (eip + 2)) = 2)

instance (code : Code) (eip : Word) : Decidable (isIndirectCall code eip) :=
  inferInstanceAs (Decidable (_ ∨ _))

/-- The last part of `do_replay_is_branch_inst`. -/
def callReport (off : Layout) (code : Code) (eip : Word) : CallReport :=
  let isRet := code eip == 0xc3 || code eip == 0xc2
  if code eip = 0xe8 then ⟨true, 5, isRet⟩
  else if isIndirectCall code eip then
    ⟨true, (compileModrmTarget off code (eip + 1) (if code eip = 0x65 then 0x65 else 0)).2, isRet⟩
  else ⟨false, 0, isRet⟩

/-- The target as `ptrace_single_step` leaves it. -/
structure Stopped where
  eip : Word
  esp : Word
  /-- The word written to its memory, by the address. -/
  written : Option (Word × Word)
  deriving DecidableEq

/-- **`ptrace_single_step`** when the step has ended in a signal other than the trap and
`SIGINT`: the registers are those from before the step, `saved`; `realEip` is what is read from
the log. -/
def faultStep (inst : Inst) (report : CallReport) (pnextInst : Word) (saved : Cpu) (realEip : Word) :
    Stopped :=
  if !inst.isBranch || inst.isInt3 || inst.isUd then ⟨pnextInst, saved.esp, none⟩
  else
    let called : Stopped :=
      if report.isCall then
        ⟨realEip, saved.esp - 4, some (saved.esp - 4, inst.eip + BitVec.ofNat 32 report.callSz)⟩
      else ⟨realEip, saved.esp, none⟩
    if report.isRet then { called with esp := saved.esp + 4 } else called

/-- The target is as the branch leaves it: the stack pointer, and the word pushed there. -/
def Stopped.Emulates (s : Stopped) (e : BranchEffect) : Prop :=
  s.esp = e.esp ∧ s.written = e.pushed.map fun ret => (e.esp, ret)

/-- Calls and returns. -/
def isCallOrRet (code : Code) (eip : Word) : Prop :=
  code eip = 0xe8 ∨ isIndirectCall code eip ∨ code eip = 0xc3 ∨ code eip = 0xc2

/-! ### They end a block -/

/-- `e8`, `c3` and `c2` are noted for a jump. -/
theorem lookup_direct (code : Code) (st : PrefixState) {opc : Byte} (h : opc = 0xe8 ∨ opc = 0xc3 ∨ opc = 0xc2)
    (stream : Word) : lookup x86Opcode code st .onebyte opc stream = .done (.ok none) := by
  have hrow : (x86Opcode.insts .onebyte opc.toNat).type = .normal ∧
      (x86Opcode.insts .onebyte opc.toNat).row.jmpnote = true := by
    rcases h with rfl | rfl | rfl <;> decide +kernel
  unfold lookup
  rw [hrow.1]
  simp only [Pass.select, skipOperades, hrow.2, if_true, Option.map_none]

/-- So is `ff /2`. -/
theorem lookup_indirect {code : Code} (st : PrefixState) {stream : Word}
    (hreg : regField (code stream) = 2) :
    lookup x86Opcode code st .onebyte 0xff stream = .done (.ok none) := by
  have htype : (x86Opcode.insts .onebyte 0xff).type = .group .grp5_0xff := by decide +kernel
  have hrow : (x86Opcode.insts (.group .grp5_0xff) 2).type = .normal ∧
      (x86Opcode.insts (.group .grp5_0xff) 2).row.jmpnote = true := by decide +kernel
  unfold lookup
  rw [show (0xff : Byte).toNat = 0xff from rfl, htype]
  simp only [Pass.select, skipOperades, groupEntry, hreg, hrow.1, hrow.2, if_true, if_false,
    Option.map_none, reduceCtorEq]

/-- **Calls and returns end a block.** -/
theorem nextInst_callOrRet {code : Code} {eip : Word} (h : isCallOrRet code eip) :
    nextInst code eip = .ok none := by
  have hpass : ∀ n st stream, lookup x86Opcode code st .onebyte (code stream) (stream + 1) = .done (.ok none) →
      nextInstLoop x86Opcode code (n + 1) st .onebyte stream = .ok none := by
    intro n st stream hlookup
    rw [nextInstLoop, hlookup]
  rcases h with h | (⟨h, hreg⟩ | ⟨h, hff, hreg⟩) | h | h
  · exact hpass _ _ _ (lookup_direct code _ (.inl h) _)
  · refine hpass _ _ _ ?_
    rw [h]
    exact lookup_indirect _ hreg
  · -- the segment prefix takes a pass of its own
    have hprefix : lookup x86Opcode code {} .onebyte (code eip) (eip + 1) =
        .restart { prefix2 := 0x65 } .onebyte := by
      have htype : (x86Opcode.insts .onebyte 0x65).type = .prefix2 := by decide +kernel
      rw [h]
      unfold lookup
      rw [show (0x65 : Byte).toNat = 0x65 from rfl, htype]
    unfold nextInst
    rw [nextInstLoop, hprefix]
    refine hpass _ _ _ ?_
    rw [hff]
    refine lookup_indirect _ ?_
    rw [add_assoc]
    exact hreg
  · exact hpass _ _ _ (lookup_direct code _ (.inr (.inl h)) _)
  · exact hpass _ _ _ (lookup_direct code _ (.inr (.inr h)) _)

/-- So they are reported as branches. -/
theorem report_callOrRet {code : Code} {eip : Word} (h : isCallOrRet code eip) (inbox : List Word) :
    doReplayIsBranchInst code eip inbox = .ok (branchReport code eip inbox) := by
  unfold doReplayIsBranchInst
  rw [nextInst_callOrRet h]
  rfl

/-! ### What is made up for -/

section Emulated

variable {code : Code} {eip : Word} (gsBase : Word) (c : Cpu)

/-- The effect of an indirect call, with the length of its operand. -/
theorem indirectEffect_call (gs : Bool) (hreg : regField (code (eip + 1)) = 2) :
    ∃ target, indirectEffect code eip (if gs then gsBase else 0) c =
      some (c.callTo target (eip + BitVec.ofNat 32 (1 + (operandAt code (eip + 1) gs).size))) := by
  rw [(fields_eq (code (eip + 1))).2.1] at hreg
  refine ⟨(operandAt code (eip + 1) gs).value gsBase c, ?_⟩
  unfold indirectEffect
  rw [← value_operandAt code (eip + 1) gsBase gs c]
  exact if_pos hreg

/-- A nonzero number of bytes moves an address. -/
theorem ne_add_ofNat (a : Word) {n : ℕ} (hpos : 0 < n) (hlt : n < 2 ^ 32) : a ≠ a + BitVec.ofNat 32 n := by
  intro h
  have hzero : BitVec.ofNat 32 n = 0 := left_eq_add.mp h
  have := congrArg BitVec.toNat hzero
  rw [toNat_ofNat_of_lt hlt] at this
  exact hpos.ne' this

/-- An indirect call, counted with `n` bytes of the `n + k` it has. -/
theorem not_emulates_indirect {off : Layout} (hcall : isIndirectCall code eip) {n k : ℕ}
    (hn : (callReport off code eip).callSz = n) (hpos : 0 < k) (hlt : k < 2 ^ 32) (realEip target : Word)
    (inbox : List Word) :
    ¬ (faultStep (branchReport code eip inbox) (callReport off code eip) 0 c realEip).Emulates
      (c.callTo target (eip + BitVec.ofNat 32 (n + k))) := by
  have hop : code eip = 0xff ∨ code eip = 0x65 := hcall.imp And.left And.left
  have hreport : callReport off code eip = ⟨true, n, false⟩ := by
    have hn' := hn
    unfold callReport at hn' ⊢
    rcases hop with h | h <;> simp_all
  have hwritten : (faultStep (branchReport code eip inbox) (callReport off code eip) 0 c realEip).written =
      some (c.esp - 4, eip + BitVec.ofNat 32 n) := by
    rw [hreport]
    rcases hop with h | h <;> simp [faultStep, branchReport, h]
  rintro ⟨-, h⟩
  rw [hwritten] at h
  have hret : eip + BitVec.ofNat 32 n = eip + BitVec.ofNat 32 (n + k) :=
    (Prod.mk.inj (Option.some.inj h)).2
  rw [BitVec.ofNat_add, ← BitVec.add_assoc] at hret
  exact ne_add_ofNat _ hpos hlt hret

theorem size_operandAt_le (code : Code) (a : Word) (gs : Bool) : (operandAt code a gs).size ≤ 6 := by
  cases operandAt code a gs with
  | reg r => exact (show 1 ≤ 6 by decide)
  | mem op => exact size_memOperand_le op

/-- **Calls and returns that fault are made up for** just when they are `ret`, or `ret $0`. -/
theorem emulated_iff (off : Layout) (h : isCallOrRet code eip) (realEip : Word) (inbox : List Word) :
    ∃ inst e, doReplayIsBranchInst code eip inbox = .ok inst ∧ nearBranch code gsBase eip c = some e ∧
      ((faultStep inst (callReport off code eip) 0 c realEip).Emulates e ↔
        code eip = 0xc3 ∨ (code eip = 0xc2 ∧ load16 code (eip + 1) = 0)) := by
  have hinst := report_callOrRet h inbox
  refine ⟨branchReport code eip inbox, ?_⟩
  rcases h with h | (⟨h, hreg⟩ | ⟨h, hff, hreg⟩) | h | h
  · -- `e8` takes the way of what is not logged
    refine ⟨c.callTo (eip + 5 + load32 code (eip + 1)) (eip + 5), hinst, ?_, iff_of_false ?_ ?_⟩
    · simp [nearBranch, h]
    · rintro ⟨-, hwritten⟩
      simp [faultStep, branchReport, h, Cpu.callTo] at hwritten
    · simp [h]
  · -- the opcode is not counted
    obtain ⟨target, htarget⟩ := indirectEffect_call gsBase c false hreg
    rw [Nat.add_comm] at htarget
    have hcall : isIndirectCall code eip := .inl ⟨h, hreg⟩
    have hsz : (callReport off code eip).callSz = (operandAt code (eip + 1) false).size := by
      have hcount := congrArg Prod.snd (compileModrmTarget_encodes off code (eip + 1) false)
      simpa [callReport, h, hcall] using hcount
    refine ⟨_, hinst, ?_, iff_of_false (not_emulates_indirect c hcall hsz one_pos (by decide) _ target _) ?_⟩
    · rw [← htarget]
      simp [nearBranch, h]
    · simp [h]
  · -- the opcode is taken for ModRM
    have hreg' : regField (code (eip + 1 + 1)) = 2 := by rwa [add_assoc]
    obtain ⟨target, htarget⟩ := indirectEffect_call gsBase c true hreg'
    have hcall : isIndirectCall code eip := .inr ⟨h, hff, hreg⟩
    have hsz : (callReport off code eip).callSz = 1 := by
      have hmod : modField (code (eip + 1)) = 3 := by
        rw [hff]
        decide
      have hcount := congrArg Prod.snd (compileModrmTarget_reg off 0x65 hmod)
      simpa [callReport, h, hcall] using hcount
    have hle := size_operandAt_le code (eip + 1 + 1) true
    refine ⟨_, hinst, ?_, iff_of_false (not_emulates_indirect c hcall hsz
      (Nat.add_pos_left one_pos (operandAt code (eip + 1 + 1) true).size) (by omega) _ target _) ?_⟩
    · rw [BitVec.ofNat_add, ← BitVec.add_assoc]
      refine Eq.trans ?_ htarget
      unfold nearBranch
      rw [h]
      exact if_pos hff
    · simp [h]
  · refine ⟨c.returnFrom 0, hinst, ?_, iff_of_true ⟨?_, ?_⟩ (.inl h)⟩
    · simp [nearBranch, h]
    · simp [faultStep, branchReport, callReport, isIndirectCall, h, Cpu.returnFrom]
    · simp [faultStep, branchReport, callReport, isIndirectCall, h, Cpu.returnFrom]
  · refine ⟨c.returnFrom ((load16 code (eip + 1)).setWidth 32), hinst, ?_, ?_⟩
    · simp [nearBranch, h]
    · have hesp : (faultStep (branchReport code eip inbox) (callReport off code eip) 0 c realEip).Emulates
          (c.returnFrom ((load16 code (eip + 1)).setWidth 32)) ↔
          c.esp + 4 = c.esp + 4 + (load16 code (eip + 1)).setWidth 32 := by
        simp [Stopped.Emulates, faultStep, branchReport, callReport, isIndirectCall, h, Cpu.returnFrom]
      have hzero : (load16 code (eip + 1)).setWidth 32 = (0 : Word) ↔ load16 code (eip + 1) = 0 := by
        generalize load16 code (eip + 1) = imm
        refine ⟨fun h => ?_, fun h => by rw [h]; rfl⟩
        have himm := congrArg (BitVec.setWidth 16) h
        rwa [BitVec.setWidth_setWidth_of_le _ (by decide), BitVec.setWidth_eq] at himm
      rw [hesp, left_eq_add, hzero]
      simp [h]

end Emulated

/-- `ret`. -/
theorem emulated_iff_ret : ∃ inst e,
    doReplayIsBranchInst (codeOf [0xc3]) 0 [] = .ok inst ∧
      nearBranch (codeOf [0xc3]) 0 0 (someMachine false).toCpu = some e ∧
      (faultStep inst (callReport (fun _ => 0) (codeOf [0xc3]) 0) 0 (someMachine false).toCpu
        0x8048010).Emulates e := by
  have hret : isCallOrRet (codeOf [0xc3]) 0 := .inr (.inr (.inl (by decide)))
  obtain ⟨inst, e, hinst, he, hiff⟩ :=
    emulated_iff 0 (someMachine false).toCpu (fun _ => 0) hret 0x8048010 []
  exact ⟨inst, e, hinst, he, hiff.mpr (.inl (by decide))⟩

/-- **`call *%eax`** at 0 is two bytes long, and the return address that is pushed for it is 1. -/
theorem call_eax_short :
    nearBranch (codeOf [0xff, 0xd0]) 0 0 (someMachine false).toCpu = some ⟨7, 0xbfffeffc, some 2⟩ ∧
      doReplayIsBranchInst (codeOf [0xff, 0xd0]) 0 [] = .ok (branchReport (codeOf [0xff, 0xd0]) 0 []) ∧
      faultStep (branchReport (codeOf [0xff, 0xd0]) 0 []) (callReport (fun _ => 0) (codeOf [0xff, 0xd0]) 0)
        0 (someMachine false).toCpu 7 = ⟨7, 0xbfffeffc, some (0xbfffeffc, 1)⟩ := by
  have hcall : isCallOrRet (codeOf [0xff, 0xd0]) 0 := .inr (.inl (by decide))
  exact ⟨by decide +kernel, report_callOrRet hcall [], by decide +kernel⟩

end Snitchaser.Replay
