import Snitchaser.Compiler.Encode
import Snitchaser.Compiler.Transparent
import Snitchaser.Foundation.X86Branch

/-!
# Where a compiled branch goes

A branch as the processor reads it from its bytes (`branchEffect`), against the code that
`compile_branch` emits for the same bytes: the target it leaves in `tpd->target`, the
stack pointer, and the return address it has pushed, when `real_branch` is entered.

They are the same for every encoding but one: `compile_branch` reads the operand of
`ret $imm16` as a signed number (`architectural_iff`).
-/

namespace Snitchaser.Compiler

open Foundation Foundation.X86 Decoder

/-- A jump, a call or a return: what is no trap to the kernel and no `rdtsc`. -/
def Branch.isTransfer (b : Branch) : Bool := b.hasPhases || b.staticTarget.isSome

/-- The return address of a call. -/
def Branch.returnAddress : Branch → Option Word
  | .call _ next | .callIndirect _ next => some next
  | _ => none

/-! ### Reading the bytes -/

theorem fields_eq (x : Byte) : modField x = high2 x ∧ regField x = mid3 x ∧ rmField x = low3 x := by
  revert x
  decide +kernel

theorem base_eq_five_iff (x : Byte) : x &&& 0x7 = 5 ↔ low3 x = 5 := by
  revert x
  decide +kernel

/-- The address of a memory operand that is read from the bytes. -/
theorem address_operandAt {code : Code} {a : Word} (gs : Bool) (h : high2 (code a) ≠ 3) :
    ∃ op : MemOperand, operandAt code a gs = .mem op ∧ ∀ (gsBase : Word) (regs : Reg → Word),
      (op.address gsBase regs, (Operand.mem op).size) =
        ((if gs then gsBase else 0) + (effectiveAddress code a regs).1, (effectiveAddress code a regs).2) := by
  obtain ⟨hmod, -, hrm⟩ := fields_eq (code a)
  have hlt := modField_lt (code a)
  rw [hmod] at hlt
  unfold operandAt
  simp only [hmod, hrm, base_eq_five_iff, h, if_false]
  refine ⟨_, rfl, fun gsBase regs => ?_⟩
  unfold effectiveAddress dispAt
  generalize high2 (code a) = mod at h hlt ⊢
  by_cases hsib : low3 (code a) = 4
  · -- with SIB
    simp only [hsib, if_true]
    generalize code (a + 1) = sib
    obtain ⟨hscale, hindex, hbase⟩ := fields_eq sib
    obtain rfl | rfl | rfl : mod = 0 ∨ mod = 1 ∨ mod = 2 := by omega
    · by_cases hfive : low3 sib = 5
      · simp [MemOperand.address, Operand.size, Disp.size, scaledIndex, hscale, hindex, hbase, hfive]
      · simp [MemOperand.address, Operand.size, Disp.size, scaledIndex, hscale, hindex, hbase, hfive]
    · simp [MemOperand.address, Operand.size, Disp.size, scaledIndex, hscale, hindex, hbase]
    · simp [MemOperand.address, Operand.size, Disp.size, scaledIndex, hscale, hindex, hbase]
  · simp only [hsib, if_false]
    obtain rfl | rfl | rfl : mod = 0 ∨ mod = 1 ∨ mod = 2 := by omega
    · by_cases hfive : low3 (code a) = 5
      · simp [MemOperand.address, Operand.size, Disp.size, hfive]
      · simp [MemOperand.address, Operand.size, Disp.size, hfive]
    · simp [MemOperand.address, Operand.size, Disp.size]
    · simp [MemOperand.address, Operand.size, Disp.size]

/-- **The operand** that is read from the bytes is that of the processor. -/
theorem value_operandAt (code : Code) (a gsBase : Word) (gs : Bool) (c : Cpu) :
    ((operandAt code a gs).value gsBase c, (operandAt code a gs).size) =
      operand32 code a (if gs then gsBase else 0) c := by
  obtain ⟨hmod, -, hrm⟩ := fields_eq (code a)
  unfold operand32
  by_cases h : high2 (code a) = 3
  · have hop : operandAt code a gs = .reg (.ofNum (low3 (code a))) := by
      unfold operandAt
      simp only [hmod, hrm, h, if_true]
    rw [if_pos h, hop]
    rfl
  · obtain ⟨op, hop, haddress⟩ := address_operandAt gs h
    obtain ⟨haddress, hsize⟩ := Prod.mk.inj (haddress gsBase c.regs)
    rw [if_neg h, hop, hsize]
    show (load32 c.mem (op.address gsBase c.regs), _) = _
    rw [haddress]

/-- What the branch does, of what is compared. -/
def Branch.effect (env : RunEnv) (c : Cpu) (b : Branch) : Option BranchEffect :=
  (b.original env c).map fun p => ⟨p.2, p.1.esp, b.returnAddress⟩

/-- `ff /2` and `ff /4`, behind `gs` or not. -/
theorem indirectEffect_eq (code : Code) (a : Word) (gs : Bool) (env : RunEnv) (c : Cpu) :
    indirectEffect code a (if gs then env.gsBase else 0) c =
      let op := operandAt code (a + 1) gs
      if regField (code (a + 1)) = 2 then
        (Branch.callIndirect op (a + BitVec.ofNat 32 (1 + op.size))).effect env c
      else if regField (code (a + 1)) = 4 then (Branch.jmpIndirect op).effect env c
      else none := by
  obtain ⟨-, hreg, -⟩ := fields_eq (code (a + 1))
  unfold indirectEffect
  rw [← value_operandAt, ← hreg]
  rfl

theorem effect_ret (env : RunEnv) (c : Cpu) : Branch.ret.effect env c = some (c.returnFrom 0) := by
  show some (BranchEffect.mk _ (c.esp + 4 * 1) none) = some (BranchEffect.mk _ (c.esp + 4 + 0) none)
  rw [add_zero]
  rfl

/-- **The branch that `compile_branch` finds** is the one the processor reads. -/
theorem nearBranch_of_branchAt {code : Code} {a : Word} {b : Branch} (h : branchAt code a = .ok b)
    (hb : b.isTransfer = true) (env : RunEnv) (c : Cpu) :
    nearBranch code env.gsBase a c = b.effect env c := by
  unfold branchAt at h
  simp only at h
  unfold nearBranch
  split at h
  all_goals try (cases h; done)
  all_goals
    rename_i heq
    simp only [heq]
  all_goals try (cases h; first | rfl | cases hb)
  all_goals try (simp only [heq]; rfl)
  · exact (effect_ret env c).symm
  · -- `ff`
    rw [show (0 : Word) = if false = true then env.gsBase else 0 from rfl, indirectEffect_eq]
    split at h
    · rename_i hreg
      cases h
      simp only [hreg, if_true]
    · rename_i hreg
      cases h
      simp only [hreg]
      rfl
    · cases h
  · -- `0f`
    split at h
    all_goals try (cases h; done)
    all_goals
      rename_i hop
      cases h
    all_goals first | (simp only [hop]; rfl) | cases hb
  · split at h
    · cases h
    · cases h
      cases hb
  · -- `65`
    split at h
    · cases h
      cases hb
    · split at h
      · rename_i hff
        cases h
        rw [if_pos hff.1, show env.gsBase = if true = true then env.gsBase else 0 from rfl,
          indirectEffect_eq, add_assoc a 1, show (1 + 1 : Word) = 2 from rfl, hff.2]
        show (Branch.callIndirect _ _).effect env c = _
        rw [add_assoc, show (1 : Word) = BitVec.ofNat 32 1 from rfl, ← BitVec.ofNat_add, ← Nat.add_assoc]
      · cases h

theorem branchEffect_of_readBranch {code : Code} {a : Word} {b : Branch}
    (h : readBranch code a = .ok b) (hb : b.isTransfer = true) (env : RunEnv) (c : Cpu) :
    branchEffect code env.gsBase a c = b.effect env c :=
  nearBranch_of_branchAt h hb env c

/-! ### Running the patch -/

/-- On entering `real_branch`, the machine has done what the branch does. -/
structure Machine.Follows (m : Machine) (e : BranchEffect) : Prop where
  target : m.tls .target = e.target
  esp : m.esp = e.esp
  pushed : ∀ ret, e.pushed = some ret → load32 m.mem m.esp = ret

/-- The stack pointer comes back from `old_stack_top`. -/
theorem trampoline_esp {hidden : Set Word} {owned : Set TlsField} (f : Callee hidden owned)
    (hold : TlsField.oldStackTop ∉ owned) (m : Machine) : (trampoline f.call m).esp = m.esp :=
  f.tls_call m.entered .oldStackTop hold

/-- The last push is on top of the stack. -/
theorem load32_push (c : Cpu) (v : Word) : load32 (c.push [v]).mem (c.push [v]).esp = v := by
  rw [Cpu.esp_push, Cpu.push_mem, leBytesList_singleton]
  exact load32_store32 _ _ _

/-- The phases leave the stack as the branch would, unless they take `imm16` for a negative
number. -/
theorem taken_follows_iff {b : Branch} (hb : b.hasPhases = true) (env : RunEnv) {m m₃ : Machine}
    {c : Cpu} (hesp : c.esp = (b.popped m.toCpu).esp) (hcpu : m₃.toCpu = b.taken c)
    {e : BranchEffect} (he : b.effect env m.toCpu = some e) (htarget : m₃.tls .target = e.target) :
    m₃.Follows e ↔ ∀ imm, b = .retn imm → imm.toNat < 0x8000 := by
  cases b with
  | retn imm =>
    cases he
    have hmoved : m₃.esp = c.esp + (imm.signExtend 32 + 4) := by
      rw [hcpu]
      rfl
    rw [hesp] at hmoved
    constructor
    · intro h imm' heq
      cases heq
      exact (retn_esp_iff m.esp imm).mp (hmoved.symm.trans h.esp)
    · intro h
      exact ⟨htarget, hmoved.trans ((retn_esp_iff m.esp imm).mpr (h imm rfl)), fun _ hret => by cases hret⟩
  | callIndirect op next =>
    cases he
    refine iff_of_true ⟨htarget, ?_, ?_⟩ (fun _ heq => by cases heq)
    · rw [hcpu]
      show (c.push [next]).esp = (m.toCpu.push [next]).esp
      rw [Cpu.esp_push, Cpu.esp_push, hesp]
      rfl
    · rintro _ ⟨⟩
      rw [hcpu]
      exact load32_push c next
  | jcc _ _ _ | ret | jmpIndirect _ =>
    cases he
    refine iff_of_true ⟨htarget, ?_, fun _ hret => by cases hret⟩ (fun _ heq => by cases heq)
    rw [hcpu]
    exact hesp
  | _ => cases hb

theorem Branch.effect_target {b : Branch} {env : RunEnv} {c : Cpu} {e : BranchEffect}
    (he : b.effect env c = some e) : (b.original env c).map Prod.snd = some e.target := by
  obtain ⟨p, hp, rfl⟩ := Option.map_eq_some_iff.mp he
  rw [hp]
  rfl

/-- A branch with phases. -/
theorem run_phases_follows (env : RunEnv) (base : Word) {b : Branch} (hb : b.hasPhases = true)
    (m : Machine) {e : BranchEffect} (he : b.effect env m.toCpu = some e) :
    ∃ m₃ asked, run env base (b.patch base) 0 0 m =
        .ok (asked, .realBranch (m₃.tls .target) (trampoline env.doRealBranch.call m₃)) ∧
      (m₃.Follows e ↔ ∀ imm, b = .retn imm → imm.toNat < 0x8000) := by
  obtain ⟨m₁, ret, m₃, h₁, hrun, hcpu₃, htarget₃, -⟩ := run_phases env base hb m
  refine ⟨m₃, [m₁.logged ret], ?_, ?_⟩
  · rw [Branch.patch_of_hasPhases hb, htarget₃]
    exact hrun
  · refine taken_follows_iff hb env ?_ hcpu₃ he ?_
    · rw [trampoline_esp _ (by simp)]
      show m₁.esp = _
      rw [h₁.cpu]
    · rw [htarget₃]
      exact Option.some.inj (h₁.target.symm.trans (Branch.effect_target he))

/-- A direct branch. -/
theorem run_direct_follows (env : RunEnv) (base : Word) {b : Branch}
    (hb : b.staticTarget.isSome = true) (m : Machine) {e : BranchEffect}
    (he : b.effect env m.toCpu = some e) :
    ∃ m₃, run env base (b.patch base) 0 0 m =
        .ok ([], .realBranch (m₃.tls .target) (trampoline env.doRealBranch.call m₃)) ∧
      m₃.Follows e := by
  cases b with
  | jmp target =>
    cases he
    exact ⟨m.setTls .target target, rfl, rfl, rfl, fun _ hret => by cases hret⟩
  | call target next =>
    cases he
    refine ⟨(m.on fun c => c.push [next]).setTls .target target, rfl, rfl, rfl, ?_⟩
    rintro _ ⟨⟩
    exact load32_push m.toCpu next
  | _ => cases hb

/-- Every transfer has an effect. -/
theorem Branch.effect_isSome {b : Branch} (hb : b.isTransfer = true) (env : RunEnv) (c : Cpu) :
    (b.effect env c).isSome = true := by
  cases b <;> first | rfl | cases hb

/-- **Branches do what they should**, unless they are `ret $imm16` with a number that is taken
for a negative one: when `real_branch` is entered, the target, the stack pointer and the
return address are those of the instruction. The call of the kernel's entry goes there, and
comes back behind itself with the stack as it was. -/
theorem architectural_iff (code : Code) (a : Word) (b : Branch) (h : readBranch code a = .ok b)
    (env : RunEnv) (base : Word) (m : Machine) :
    (b.isTransfer = true → ∃ e m₃ asked, branchEffect code env.gsBase a m.toCpu = some e ∧
      run env base (b.patch base) 0 0 m =
        .ok (asked, .realBranch (m₃.tls .target) (trampoline env.doRealBranch.call m₃)) ∧
      (m₃.Follows e ↔ ∀ imm, b = .retn imm → imm.toNat < 0x8000)) ∧
    ∀ next, b = .vdso next → ∃ m', run env base (b.patch base) 0 0 m = .ok ([], .syscallEntry m') ∧
      m'.tls .target = next ∧ m'.toCpu = m.toCpu := by
  constructor
  · intro hb
    obtain ⟨e, he⟩ := Option.isSome_iff_exists.mp (Branch.effect_isSome hb env m.toCpu)
    have heffect := branchEffect_of_readBranch h hb env m.toCpu
    by_cases hphases : b.hasPhases = true
    · obtain ⟨m₃, asked, hrun, hiff⟩ := run_phases_follows env base hphases m he
      exact ⟨e, m₃, asked, heffect.trans he, hrun, hiff⟩
    · have hdirect : b.staticTarget.isSome = true := by
        simpa [Branch.isTransfer, hphases] using hb
      obtain ⟨m₃, hrun, hfollows⟩ := run_direct_follows env base hdirect m he
      refine ⟨e, m₃, [], heffect.trans he, hrun, iff_of_true hfollows ?_⟩
      rintro imm rfl
      exact absurd rfl hphases
  · rintro next rfl
    exact ⟨m.setTls .target next, rfl, rfl, rfl⟩

/-- `ret $imm16` at `0x8048000`. -/
def retCode (low high : Byte) : Code :=
  fun a => if a = 0x8048000 then 0xc2 else if a = 0x8048001 then low else if a = 0x8048002 then high else 0

/-- `ret $8`. -/
theorem architectural_iff_ret_eight : ∃ m₃ asked,
    run someEnv 0x51000000 ((Branch.retn 8).patch 0x51000000) 0 0 (someMachine false) =
      .ok (asked, .realBranch (m₃.tls .target) (trampoline someEnv.doRealBranch.call m₃)) ∧
    m₃.Follows ⟨0, 0xbffff00c, none⟩ := by
  obtain ⟨e, m₃, asked, he, hrun, hiff⟩ := (architectural_iff (retCode 8 0) 0x8048000 (.retn 8) rfl someEnv
    0x51000000 (someMachine false)).1 rfl
  have heffect : branchEffect (retCode 8 0) someEnv.gsBase 0x8048000 (someMachine false).toCpu =
      some ⟨0, 0xbffff00c, none⟩ := by decide +kernel
  obtain rfl := Option.some.inj (he.symm.trans heffect)
  refine ⟨m₃, asked, hrun, hiff.mpr ?_⟩
  rintro _ ⟨⟩
  decide

/-- **`ret $0x8000`** takes `0x7ffc` bytes onto the stack, where it should take `0x8004`
bytes off it. -/
theorem ret_operand_signed :
    readBranch (retCode 0 0x80) 0x8048000 = .ok (.retn 0x8000) ∧
      branchEffect (retCode 0 0x80) someEnv.gsBase 0x8048000 (someMachine false).toCpu =
        some ⟨0, 0xc0007004, none⟩ ∧
      ∃ m' asked, run someEnv 0x51000000 ((Branch.retn 0x8000).patch 0x51000000) 0 0
          (someMachine false) = .ok (asked, .realBranch 0 m') ∧ m'.esp = 0xbfff7004 := by
  refine ⟨rfl, by decide +kernel, ?_⟩
  obtain ⟨⟨asked, exit⟩, hrun, hexit⟩ := exists_ok (b := some (0, 0xbfff7004))
    (x := run someEnv 0x51000000 ((Branch.retn 0x8000).patch 0x51000000) 0 0 (someMachine false))
    (fun p => match p.2 with
      | .realBranch target m' => some (target, m'.esp)
      | _ => none)
    (by decide +kernel)
  match exit, hexit with
  | .realBranch target m', hexit =>
    obtain ⟨rfl, hesp⟩ := Prod.mk.inj (Option.some.inj hexit)
    exact ⟨m', asked, hrun, hesp⟩

end Snitchaser.Compiler
