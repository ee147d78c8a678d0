import Snitchaser.Compiler.Execute

/-!
# Is the patch of a logged branch seen by the program?

A patch stands in the place of a branch, and the program is to see no difference:
registers, status flags and the memory of the program are to be as the branch would
leave them.

They are, but for the flags. The log phase saves them with `lahf` and `sahf`, which leave
out the overflow flag, and so this one is overwritten by the addition to
`log_buffer_current`. For `ret $imm16` the stack pointer is moved with an addition, too,
which nothing guards, and of `imm16` taken as a signed number. `transparent_iff` says
when this makes no difference. Direct jumps and calls have no log phase, and are
transparent always (`direct_transparent`).
-/

namespace Snitchaser.Compiler

open Foundation Foundation.X86

/-! ### The branch itself -/

/-- The value of the operand of an indirect branch. -/
def Operand.value (op : Operand) (gsBase : Word) (c : Cpu) : Word :=
  match op with
  | .reg r => c.regs r
  | .mem op => load32 c.mem (op.address gsBase c.regs)

/-- What the branch does, and where it goes; none where it goes to the kernel. -/
def Branch.original (env : RunEnv) (c : Cpu) : Branch → Option (Cpu × Word)
  | .jcc cond untaken taken => some (c, if cond.holds c.flags (c.regs .ecx) then taken else untaken)
  | .jmp target => some (c, target)
  | .call target next => some (c.push [next], target)
  | .ret => some (c.drop 1, load32 c.mem c.esp)
  | .retn imm => some (c.setReg .esp (c.esp + 4 + imm.setWidth 32), load32 c.mem c.esp)
  | .callIndirect op next => some (c.push [next], op.value env.gsBase c)
  | .jmpIndirect op => some (c, op.value env.gsBase c)
  | .rdtsc next => some ((c.setReg .eax env.tsc.1).setReg .edx env.tsc.2, next)
  | .int3 _ | .int80 _ | .vdso _ => none

/-- The patch has the four phases of a logged branch. -/
def Branch.hasPhases : Branch → Bool
  | .jcc .. | .ret | .retn _ | .callIndirect .. | .jmpIndirect _ => true
  | _ => false

/-- A logged exit. -/
def Branch.isLogged (b : Branch) : Bool :=
  b.hasPhases || match b with
    | .rdtsc _ => true
    | _ => false

/-- The only logged exit without the phases. -/
theorem Branch.eq_rdtsc {b : Branch} (hb : b.isLogged = true) (hphases : ¬ b.hasPhases = true) :
    ∃ next, b = .rdtsc next := by
  cases b with
  | rdtsc next => exact ⟨next, rfl⟩
  | _ => simp_all [Branch.isLogged, Branch.hasPhases]

/-! ### The log phase -/

/-- The overflow flag is that of an addition to `log_buffer_current`. -/
def Machine.overflowed (m : Machine) (n : Word) : Flags :=
  { m.flags with of := (m.tls .logBufferCurrent).saddOverflow n }

/-- What the log phase leaves for its trampoline. -/
def Machine.logged (m : Machine) (ret : Word) : Machine where
  regs := m.regs
  flags := m.overflowed 4
  mem := store32 m.mem (m.tls .logBufferCurrent) (m.tls .target)
  tls := ((((m.setTls .regSaver1 (m.regs .eax)).setTls .regSaver2 (m.regs .ebx)).setTls
    .logBufferCurrent (m.tls .logBufferCurrent + 4)).setTls .checkBufferReturn ret).tls

/-- Flags come back but for overflow, registers come back. -/
theorem effects_logPhaseTemplate (env : RunEnv) (m : Machine) (ret : Word) :
    effects env m (logPhaseTemplate ret).dropLast = m.logged ret := by
  -- `lahf` overwrites part of `eax`, which comes back from `reg_saver1` behind `sahf`
  have hregs : (effects env m (logPhaseTemplate ret).dropLast).regs = m.regs := by
    funext r
    cases r <;> rfl
  have hflags : (effects env m (logPhaseTemplate ret).dropLast).flags = m.overflowed 4 := by
    simp [effects, logPhaseTemplate, Insn.effect, Machine.on, Machine.setTls, Cpu.setReg, Cpu.sahf,
      Cpu.lahf, Machine.overflowed, addFlags]
  have hmem : (effects env m (logPhaseTemplate ret).dropLast).mem = (m.logged ret).mem := by
    simp [effects, logPhaseTemplate, Insn.effect, Machine.on, Machine.setTls, Cpu.setReg, Cpu.sahf,
      Cpu.lahf, Machine.logged]
  have htls : (effects env m (logPhaseTemplate ret).dropLast).tls = (m.logged ret).tls := rfl
  exact Machine.ext hregs hflags hmem htls

/-- **The log phase** ends with its trampoline, which returns behind it. -/
theorem run_logPhase (env : RunEnv) (base : Word) (off : ℕ) (code : List Insn) (m : Machine) :
    run env base (logPhase base off ++ code) 0 off m =
      .asked (m.logged (base + BitVec.ofNat 32 (off + encodedSize (logPhaseTemplate 0))))
        (run env base code 0 (off + encodedSize (logPhaseTemplate 0))
          (trampoline env.doCheckLoggerBuffer.call
            (m.logged (base + BitVec.ofNat 32 (off + encodedSize (logPhaseTemplate 0)))))) := by
  unfold logPhase
  generalize hret : base + BitVec.ofNat 32 (off + encodedSize (logPhaseTemplate 0)) = ret
  have hsize : encodedSize (logPhaseTemplate ret).dropLast + 7 = encodedSize (logPhaseTemplate 0) := by
    simp [logPhaseTemplate, Insn.size]
  exact run_checked env base off rfl hsize (effects_logPhaseTemplate env m ret) hret.symm code

/-! ### The phases of a logged branch -/

/-- The processor behind the set-target phase: `ret` pops there. -/
def Branch.popped (b : Branch) (c : Cpu) : Cpu :=
  match b with
  | .ret => c.drop 1
  | _ => c

theorem Operand.setTarget_plain (op : Operand) : op.setTarget.all Insn.isPlain = true := by
  cases op <;> rfl

/-- The set-target phase of an indirect branch. -/
theorem effects_setTarget_operand (env : RunEnv) (m : Machine) (op : Operand) :
    (effects env m op.setTarget).toCpu = m.toCpu ∧
      (effects env m op.setTarget).tls .target = op.value env.gsBase m.toCpu ∧
      ∀ field, field ≠ .target → field ≠ .regSaver1 →
        (effects env m op.setTarget).tls field = m.tls field := by
  cases op with
  | reg r =>
    refine ⟨rfl, rfl, fun field h _ => ?_⟩
    exact Function.update_of_ne h _ _
  | mem op =>
    refine ⟨Cpu.ext ?_ rfl rfl, rfl, fun field h h' => ?_⟩
    · funext r
      cases r <;> rfl
    · exact (Function.update_of_ne h _ _).trans (Function.update_of_ne h' _ _)

/-- Behind the set-target phase. -/
structure Branch.TargetSet (b : Branch) (env : RunEnv) (m m₁ : Machine) : Prop where
  cpu : m₁.toCpu = b.popped m.toCpu
  target : (b.original env m.toCpu).map Prod.snd = some (m₁.tls .target)
  log : m₁.tls .logBufferCurrent = m.tls .logBufferCurrent
  stackTop : m₁.tls .stackTop = m.tls .stackTop

/-- **The set-target phase** finds where the branch goes. -/
theorem run_setTarget (env : RunEnv) (base : Word) {b : Branch} (hb : b.hasPhases = true)
    (m : Machine) :
    ∃ m₁, b.TargetSet env m m₁ ∧ ∀ code, run env base (b.setTarget ++ code) 0 0 m =
      run env base code 0 (encodedSize b.setTarget) m₁ := by
  cases b with
  | jcc c untaken taken =>
    by_cases hc : c.holds m.flags (m.regs .ecx) = true
    · refine ⟨m.setTls .target taken, ⟨rfl, by simp [Branch.original, hc, Machine.setTls], rfl, rfl⟩, ?_⟩
      intro code
      simp [Branch.setTarget, run, hc, Insn.size, Insn.effect]
    · refine ⟨m.setTls .target untaken, ⟨rfl, by simp [Branch.original, hc, Machine.setTls], rfl, rfl⟩, ?_⟩
      intro code
      simp [Branch.setTarget, run, hc, Insn.size, Insn.effect]
  | ret =>
    refine ⟨effects env m Branch.ret.setTarget, ⟨rfl, rfl, rfl, rfl⟩, fun code => ?_⟩
    exact run_plain_start env base rfl code m
  | retn imm =>
    refine ⟨effects env m (Branch.retn imm).setTarget, ⟨Cpu.ext ?_ rfl rfl, rfl, rfl, rfl⟩,
      fun code => ?_⟩
    · funext r
      cases r <;> rfl
    · exact run_plain_start env base rfl code m
  | callIndirect op next =>
    obtain ⟨hcpu, htarget, htls⟩ := effects_setTarget_operand env m op
    refine ⟨effects env m op.setTarget, ⟨hcpu, congrArg some htarget.symm, htls _ (by simp) (by simp),
      htls _ (by simp) (by simp)⟩, fun code => ?_⟩
    exact run_plain_start env base op.setTarget_plain code m
  | jmpIndirect op =>
    obtain ⟨hcpu, htarget, htls⟩ := effects_setTarget_operand env m op
    refine ⟨effects env m op.setTarget, ⟨hcpu, congrArg some htarget.symm, htls _ (by simp) (by simp),
      htls _ (by simp) (by simp)⟩, fun code => ?_⟩
    exact run_plain_start env base op.setTarget_plain code m
  | _ => cases hb

/-- The take-effect phase, on the processor. -/
def Branch.taken (b : Branch) (c : Cpu) : Cpu :=
  match b with
  | .retn imm =>
    { c.setReg .esp (c.esp + (imm.signExtend 32 + 4)) with flags := addFlags c.esp (imm.signExtend 32 + 4) }
  | .callIndirect _ next => c.push [next]
  | _ => c

theorem Branch.taken_agree (b : Branch) {s : Set Word} {c c' : Cpu} (h : c.Agree s c') :
    (b.taken c).Agree s (b.taken c') := by
  unfold Branch.taken
  split
  · rw [h.esp]
    exact ⟨(h.setReg _ _).regs, rfl, h.mem⟩
  · exact h.push _
  · exact h

theorem run_realBranchPhase (env : RunEnv) (base : Word) (off : ℕ) (m : Machine) :
    run env base realBranchPhaseTemplate 0 off m =
      .ok ([], .realBranch (m.tls .target) (trampoline env.doRealBranch.call m)) := rfl

/-- **The take-effect phase**, and the jump out. -/
theorem run_takeEffect (env : RunEnv) (base : Word) (b : Branch) (off : ℕ) (m : Machine) :
    ∃ m', run env base (b.takeEffect ++ realBranchPhaseTemplate) 0 off m =
        .ok ([], .realBranch (m.tls .target) (trampoline env.doRealBranch.call m')) ∧
      m'.toCpu = b.taken m.toCpu ∧ m'.tls = m.tls := by
  have hplain : b.takeEffect.all Insn.isPlain = true := by cases b <;> rfl
  have htls : (effects env m b.takeEffect).tls = m.tls := by cases b <;> rfl
  refine ⟨effects env m b.takeEffect, ?_, ?_, htls⟩
  · rw [run_plain env base hplain, run_realBranchPhase, htls]
  · cases b <;> rfl

/-- The program's view of a machine that has run the phases. -/
def Branch.compiled (b : Branch) (m : Machine) : Cpu :=
  b.taken { b.popped m.toCpu with flags := m.overflowed 4 }

/-- The log phase, as the program sees it. -/
theorem logged_agree (env : RunEnv) {m : Machine} (hlaid : m.Laid env.hidden) (ret : Word) :
    (trampoline env.doCheckLoggerBuffer.call (m.logged ret)).Agree env.hiddenᶜ
      { m.toCpu with flags := m.overflowed 4 } := by
  have hstack : (m.logged ret).tls .stackTop = m.tls .stackTop := rfl
  have htrampoline := trampoline_agree env.doCheckLoggerBuffer (m.logged ret) (by simp)
    (by rw [hstack]; exact hlaid.stack)
  refine htrampoline.trans ⟨rfl, rfl, ?_⟩
  refine store_eqOn _ fun i hi => hlaid.log i ?_
  rw [length_leBytes] at hi
  omega

/-- **The phases**, one after the other. -/
theorem run_phases (env : RunEnv) (base : Word) {b : Branch} (hb : b.hasPhases = true) (m : Machine) :
    ∃ m₁ ret m₃, b.TargetSet env m m₁ ∧
      run env base (b.phases base) 0 0 m = .ok ([m₁.logged ret],
        .realBranch (m₁.tls .target) (trampoline env.doRealBranch.call m₃)) ∧
      m₃.toCpu = b.taken (trampoline env.doCheckLoggerBuffer.call (m₁.logged ret)).toCpu ∧
      m₃.tls .target = m₁.tls .target ∧ m₃.tls .stackTop = m₁.tls .stackTop := by
  obtain ⟨m₁, h₁, hrun₁⟩ := run_setTarget env base hb m
  -- the target and the interpreter's stack get over the check of the buffer
  generalize hret : base + BitVec.ofNat 32 (encodedSize b.setTarget + encodedSize (logPhaseTemplate 0)) =
    ret
  have htarget : (trampoline env.doCheckLoggerBuffer.call (m₁.logged ret)).tls .target = m₁.tls .target :=
    trampoline_tls _ _ (by simp) (by simp)
  have hstack : (trampoline env.doCheckLoggerBuffer.call (m₁.logged ret)).tls .stackTop =
      m₁.tls .stackTop := trampoline_tls _ _ (by simp) (by simp)
  obtain ⟨m₃, hrun₃, hcpu₃, htls₃⟩ := run_takeEffect env base b
    (encodedSize b.setTarget + encodedSize (logPhaseTemplate 0))
    (trampoline env.doCheckLoggerBuffer.call (m₁.logged ret))
  refine ⟨m₁, ret, m₃, h₁, ?_, hcpu₃, ?_, ?_⟩
  · unfold Branch.phases
    rw [List.append_assoc, List.append_assoc, hrun₁, run_logPhase, hret, hrun₃, htarget]
    rfl
  · rw [htls₃, htarget]
  · rw [htls₃, hstack]

/-- **The phases as the program sees them**: the branch goes where it should, with these
flags. -/
theorem run_phases_agree (env : RunEnv) (base : Word) {b : Branch} (hb : b.hasPhases = true)
    {m : Machine} (hlaid : m.Laid env.hidden) :
    ∃ m' target asked, (b.original env m.toCpu).map Prod.snd = some target ∧
      run env base (b.phases base) 0 0 m = .ok (asked, .realBranch target m') ∧
      m'.Agree env.hiddenᶜ (b.compiled m) := by
  obtain ⟨m₁, ret, m₃, h₁, hrun, hcpu₃, -, hstack₃⟩ := run_phases env base hb m
  have hlaid₁ : m₁.Laid env.hidden := by
    refine ⟨?_, ?_⟩
    · rw [h₁.log]
      exact hlaid.log
    · rw [h₁.stackTop]
      exact hlaid.stack
  refine ⟨_, _, _, h₁.target, hrun, ?_⟩
  -- `real_branch`, then the take-effect phase, then the log phase
  refine (trampoline_agree _ m₃ (by simp) (by rw [hstack₃]; exact hlaid₁.stack)).trans ?_
  rw [hcpu₃]
  refine (b.taken_agree (logged_agree env hlaid₁ ret)).trans ?_
  unfold Branch.compiled Machine.overflowed
  rw [h₁.log, h₁.cpu]
  cases b <;> exact Cpu.Agree.refl _ _

/-! ### The time stamp -/

/-- `rdtsc`, on the processor. -/
def stamp (env : RunEnv) (c : Cpu) : Cpu := (c.setReg .eax env.tsc.1).setReg .edx env.tsc.2

/-- What the template of `rdtsc` leaves for its trampoline. -/
def Machine.stamped (env : RunEnv) (m : Machine) (next ret : Word) : Machine where
  regs := (stamp env m.toCpu).regs
  flags := m.overflowed 12
  mem := store32 (store32 (store32 m.mem (m.tls .logBufferCurrent + 4) env.tsc.1)
    (m.tls .logBufferCurrent + 8) env.tsc.2) (m.tls .logBufferCurrent + 0) rdtscMark
  tls := ((((m.setTls .target next).setTls .regSaver1 (m.regs .ebx)).setTls
    .logBufferCurrent (m.tls .logBufferCurrent + 12)).setTls .checkBufferReturn ret).tls

/-- `eax` comes back from the log. -/
theorem load32_stamped (env : RunEnv) (m : Machine) (next ret : Word) :
    load32 (m.stamped env next ret).mem (m.tls .logBufferCurrent + 4) = env.tsc.1 := by
  have h₀ := load32_store32_add (store32 (store32 m.mem (m.tls .logBufferCurrent + 4) env.tsc.1)
    (m.tls .logBufferCurrent + 8) env.tsc.2) (m.tls .logBufferCurrent) rdtscMark
    (show 0 < 2 ^ 31 by decide) (show 4 < 2 ^ 31 by decide) (by omega)
  have h₈ := load32_store32_add (store32 m.mem (m.tls .logBufferCurrent + 4) env.tsc.1)
    (m.tls .logBufferCurrent) env.tsc.2
    (show 8 < 2 ^ 31 by decide) (show 4 < 2 ^ 31 by decide) (by omega)
  exact h₀.trans (h₈.trans (load32_store32 _ _ _))

theorem effects_rdtscTemplate (env : RunEnv) (m : Machine) (next ret : Word) :
    effects env m (rdtscTemplate next ret).dropLast = m.stamped env next ret := by
  have hmem : (effects env m (rdtscTemplate next ret).dropLast).mem =
      (m.stamped env next ret).mem := by
    simp [effects, rdtscTemplate, Insn.effect, Machine.on, Machine.setTls, Cpu.setReg, Cpu.sahf,
      Cpu.lahf, Machine.stamped]
  -- the mark and `lahf` go through `eax`, so it is read back from the log
  have heax : (effects env m (rdtscTemplate next ret).dropLast).regs .eax =
      load32 (effects env m (rdtscTemplate next ret).dropLast).mem (m.tls .logBufferCurrent + 4) := by
    simp [effects, rdtscTemplate, Insn.effect, Machine.on, Machine.setTls, Cpu.setReg, Cpu.sahf,
      Cpu.lahf]
  have hregs : (effects env m (rdtscTemplate next ret).dropLast).regs =
      (m.stamped env next ret).regs := by
    rw [hmem, load32_stamped] at heax
    funext r
    cases r with
    | eax => exact heax
    | _ => rfl
  have hflags : (effects env m (rdtscTemplate next ret).dropLast).flags = m.overflowed 12 := by
    simp [effects, rdtscTemplate, Insn.effect, Machine.on, Machine.setTls, Cpu.setReg, Cpu.sahf,
      Cpu.lahf, Machine.overflowed, addFlags]
  exact Machine.ext hregs hflags hmem rfl

/-- The template of `rdtsc`, as the program sees it. -/
theorem stamped_agree (env : RunEnv) {m : Machine} (hlaid : m.Laid env.hidden) (next ret : Word) :
    (trampoline env.doCheckLoggerBuffer.call (m.stamped env next ret)).Agree env.hiddenᶜ
      { stamp env m.toCpu with flags := m.overflowed 12 } := by
  have hstack : (m.stamped env next ret).tls .stackTop = m.tls .stackTop := rfl
  have htrampoline := trampoline_agree env.doCheckLoggerBuffer (m.stamped env next ret) (by simp)
    (by rw [hstack]; exact hlaid.stack)
  have hword : ∀ (mem : Mem) (v : Word), ∀ k ≤ 8,
      Set.EqOn (store32 mem (m.tls .logBufferCurrent + BitVec.ofNat 32 k) v) mem env.hiddenᶜ := by
    intro mem v k hk
    refine store_eqOn _ fun i hi => ?_
    rw [length_leBytes] at hi
    rw [BitVec.add_assoc, ← BitVec.ofNat_add]
    exact hlaid.log _ (by omega)
  refine htrampoline.trans ⟨rfl, rfl, ?_⟩
  exact (hword _ _ 0 (by decide)).trans ((hword _ _ 8 le_rfl).trans (hword _ _ 4 (by decide)))

/-- **The patch of `rdtsc`**. -/
theorem run_rdtsc (env : RunEnv) (base next : Word) (m : Machine) :
    ∃ ret, run env base ((Branch.rdtsc next).patch base) 0 0 m = .ok ([m.stamped env next ret],
      .realBranch next (trampoline env.doRealBranch.call
        (trampoline env.doCheckLoggerBuffer.call (m.stamped env next ret)))) := by
  generalize hret : base + BitVec.ofNat 32 (encodedSize (rdtscTemplate 0 0)) = ret
  have hsize : encodedSize (rdtscTemplate next ret).dropLast + 7 = encodedSize (rdtscTemplate 0 0) := by
    simp [rdtscTemplate, Insn.size]
  have hrun := run_checked env base 0 rfl hsize (effects_rdtscTemplate env m next ret)
    (by rw [Nat.zero_add]; exact hret.symm) realBranchPhaseTemplate
  have hpatch : (Branch.rdtsc next).patch base = (rdtscTemplate next ret).dropLast ++
      (.jmpTls .checkLoggerBuffer :: realBranchPhaseTemplate) := by
    rw [← hret]
    rfl
  have htarget : (trampoline env.doCheckLoggerBuffer.call (m.stamped env next ret)).tls .target = next :=
    trampoline_tls _ _ (by simp) (by simp)
  refine ⟨ret, ?_⟩
  rw [hpatch, hrun, run_realBranchPhase, htarget]
  rfl

/-- The patch of `rdtsc`, as the program sees it. -/
theorem run_rdtsc_agree (env : RunEnv) (base next : Word) {m : Machine} (hlaid : m.Laid env.hidden) :
    ∃ m' asked, run env base ((Branch.rdtsc next).patch base) 0 0 m =
        .ok (asked, .realBranch next m') ∧
      m'.Agree env.hiddenᶜ { stamp env m.toCpu with flags := m.overflowed 12 } := by
  obtain ⟨ret, hrun⟩ := run_rdtsc env base next m
  have hstack : (trampoline env.doCheckLoggerBuffer.call (m.stamped env next ret)).tls .stackTop =
      m.tls .stackTop := trampoline_tls _ _ (by simp) (by simp)
  refine ⟨_, _, hrun, (trampoline_agree _ _ (by simp) ?_).trans (stamped_agree env hlaid next ret)⟩
  rw [hstack]
  exact hlaid.stack

/-! ### Transparency -/

/-- **The condition on the state before the branch**: the overflow flag happens to be that
of the addition to `log_buffer_current`. For `ret $imm16`, all flags happen to be those of
the addition to the stack pointer, and the number is not taken for a negative one. -/
def Branch.Undisturbed (b : Branch) (m : Machine) : Prop :=
  match b with
  | .retn imm => imm.toNat < 0x8000 ∧ m.flags = addFlags m.esp (imm.signExtend 32 + 4)
  | .rdtsc _ => m.flags.of = (m.tls .logBufferCurrent).saddOverflow 12
  | _ => m.flags.of = (m.tls .logBufferCurrent).saddOverflow 4

/-- Processors that differ in the overflow flag at most. -/
theorem agree_overflowed_iff {s : Set Word} {c : Cpu} {m : Machine} (n : Word)
    (hflags : c.flags = m.flags) :
    Cpu.Agree s { c with flags := m.overflowed n } c ↔
      m.flags.of = (m.tls .logBufferCurrent).saddOverflow n := by
  constructor
  · intro h
    have := congrArg Flags.of h.flags
    rw [hflags] at this
    exact this.symm
  · intro h
    refine ⟨rfl, ?_, fun _ _ => rfl⟩
    show m.overflowed n = c.flags
    rw [hflags]
    unfold Machine.overflowed
    rw [← h]

/-- `imm16` with its sign is `imm16` if it has none. -/
theorem signExtend_eq_setWidth_iff (imm : BitVec 16) :
    imm.signExtend 32 = imm.setWidth 32 ↔ imm.toNat < 0x8000 := by
  have hlt := imm.isLt
  constructor
  · intro h
    by_contra hge
    have hmsb : imm.msb = true := by
      rw [BitVec.msb_eq_decide]
      simpa using hge
    have := congrArg BitVec.toNat h
    rw [BitVec.toNat_signExtend, hmsb, BitVec.toNat_setWidth] at this
    simp at this
  · intro h
    rw [BitVec.signExtend_eq_setWidth_of_msb_false]
    rw [BitVec.msb_eq_decide]
    simpa using h

/-- `imm16` with its sign moves the stack pointer as far as `imm16` does if it has none. -/
theorem retn_esp_iff (esp : Word) (imm : BitVec 16) :
    esp + (imm.signExtend 32 + 4) = esp + 4 + imm.setWidth 32 ↔ imm.toNat < 0x8000 := by
  rw [add_comm (imm.signExtend 32), ← add_assoc, add_right_inj]
  exact signExtend_eq_setWidth_iff imm

/-- For `ret $imm16` the stack pointer and the flags have to come out right. -/
theorem compiled_retn_agree_iff {s : Set Word} (imm : BitVec 16) (m : Machine) :
    ((Branch.retn imm).compiled m).Agree s (m.setReg .esp (m.esp + 4 + imm.setWidth 32)) ↔
      (Branch.retn imm).Undisturbed m := by
  have hesp := retn_esp_iff m.esp imm
  constructor
  · intro h
    refine ⟨hesp.mp ?_, h.flags.symm⟩
    simpa [Branch.compiled, Branch.taken, Branch.popped, Cpu.setReg, Cpu.esp] using h.esp
  · rintro ⟨himm, hflags⟩
    refine ⟨?_, hflags.symm, fun _ _ => rfl⟩
    show Function.update m.regs .esp (m.esp + (imm.signExtend 32 + 4)) = _
    rw [hesp.mpr himm]
    rfl

/-- The phases leave what the branch would just when they leave the flags. -/
theorem compiled_agree_iff (env : RunEnv) (s : Set Word) {b : Branch} (hb : b.hasPhases = true)
    {m : Machine} {c : Cpu} {target : Word} (h : b.original env m.toCpu = some (c, target)) :
    (b.compiled m).Agree s c ↔ b.Undisturbed m := by
  cases b with
  | retn imm =>
    cases h
    exact compiled_retn_agree_iff imm m
  | callIndirect op next =>
    cases h
    exact agree_overflowed_iff (c := m.push [next]) 4 rfl
  | ret =>
    cases h
    exact agree_overflowed_iff (c := m.drop 1) 4 rfl
  | jcc _ _ _ =>
    cases h
    exact agree_overflowed_iff 4 rfl
  | jmpIndirect op =>
    cases h
    exact agree_overflowed_iff 4 rfl
  | _ => cases hb

/-- The patch of a branch with phases is its phases. -/
theorem Branch.patch_of_hasPhases {b : Branch} (hb : b.hasPhases = true) (base : Word) :
    b.patch base = b.phases base := by
  cases b <;> first | rfl | cases hb

/-- **A patch is transparent** just when the flags were what it sets them to. Whatever the
state, the branch goes where it should. -/
theorem transparent_iff (env : RunEnv) (base : Word) (b : Branch) (hb : b.isLogged = true)
    (m : Machine) (hlaid : m.Laid env.hidden) :
    ∃ c target m' asked, b.original env m.toCpu = some (c, target) ∧
      run env base (b.patch base) 0 0 m = .ok (asked, .realBranch target m') ∧
      (m'.Agree env.hiddenᶜ c ↔ b.Undisturbed m) := by
  by_cases hphases : b.hasPhases = true
  · obtain ⟨m', target, asked, htarget, hrun, hagree⟩ := run_phases_agree env base hphases hlaid
    obtain ⟨⟨c, _⟩, horiginal, rfl⟩ := Option.map_eq_some_iff.mp htarget
    refine ⟨c, _, m', asked, horiginal, ?_, ?_⟩
    · rw [Branch.patch_of_hasPhases hphases]
      exact hrun
    · exact (hagree.congr c).trans (compiled_agree_iff env _ hphases horiginal)
  · obtain ⟨next, rfl⟩ := Branch.eq_rdtsc hb hphases
    obtain ⟨m', asked, hrun, hagree⟩ := run_rdtsc_agree env base next hlaid
    refine ⟨stamp env m.toCpu, next, m', asked, rfl, hrun, (hagree.congr _).trans ?_⟩
    exact agree_overflowed_iff (c := stamp env m.toCpu) 12 rfl

/-- **A direct jump or call**, which is not logged, is transparent in every state. -/
theorem direct_transparent (env : RunEnv) (base : Word) {b : Branch} (hb : b.staticTarget.isSome = true)
    {m : Machine} (hlaid : m.Laid env.hidden) :
    ∃ c target m', b.original env m.toCpu = some (c, target) ∧ b.staticTarget = some target ∧
      run env base (b.patch base) 0 0 m = .ok ([], .realBranch target m') ∧
      m'.Agree env.hiddenᶜ c := by
  cases b with
  | jmp target =>
    refine ⟨m.toCpu, target, _, rfl, rfl, rfl, ?_⟩
    exact trampoline_agree env.doRealBranch (m.setTls .target target) (by simp) hlaid.stack
  | call target next =>
    refine ⟨m.push [next], target, _, rfl, rfl, rfl, ?_⟩
    exact trampoline_agree env.doRealBranch ((m.on fun c => c.push [next]).setTls .target target)
      (by simp) hlaid.stack
  | _ => cases hb

/-! ### A machine -/

/-- A C function that does nothing. -/
def Callee.idle (hidden : Set Word) (owned : Set TlsField) : Callee hidden owned :=
  ⟨id, fun _ => rfl, fun _ _ _ => rfl, fun _ _ _ => rfl, fun _ _ _ => rfl⟩

/-- The interpreter from `0x50000000` to `0x60000000`, its buffer not yet full. -/
def someEnv : RunEnv where
  hidden := { a | 0x50000000 ≤ a.toNat ∧ a.toNat < 0x60000000 }
  doCheckLoggerBuffer := .idle _ _
  doRealBranch := .idle _ _
  gsBase := 0xb7e00000
  tsc := (1, 2)

/-- A machine with an overflow flag. -/
def someMachine (of : Bool) : Machine where
  regs r := if r = .esp then 0xbffff000 else 7
  flags := ⟨false, true, false, false, true, of⟩
  mem _ := 0
  tls
    | .logBufferCurrent => 0x50001000
    | .stackTop => 0x50003000
    | _ => 0

theorem someMachine_laid (of : Bool) : (someMachine of).Laid someEnv.hidden where
  log := by
    show ∀ i < 12, 0x50000000 ≤ (0x50001000 + BitVec.ofNat 32 i).toNat ∧
      (0x50001000 + BitVec.ofNat 32 i).toNat < 0x60000000
    decide
  stack := by
    show ∀ i < 40, 0x50000000 ≤ (0x50003000 - 40 + BitVec.ofNat 32 i).toNat ∧
      (0x50003000 - 40 + BitVec.ofNat 32 i).toNat < 0x60000000
    decide

/-- A jump that is seen by nobody: the overflow flag was not set. -/
theorem transparent_iff_no_overflow :
    ∃ m' asked, run someEnv 0x51000000 ((Branch.jcc .z 0x8048002 0x8048010).patch 0x51000000) 0 0
        (someMachine false) = .ok (asked, .realBranch 0x8048002 m') ∧
      m'.Agree someEnv.hiddenᶜ (someMachine false).toCpu := by
  obtain ⟨c, target, m', asked, horiginal, hrun, hagree⟩ := transparent_iff someEnv 0x51000000
    (.jcc .z 0x8048002 0x8048010) rfl (someMachine false) (someMachine_laid false)
  cases horiginal
  exact ⟨m', asked, hrun, hagree.mpr (show false = BitVec.saddOverflow _ _ by decide)⟩

/-- **The overflow flag is lost**: `jo` is taken, and behind it the flag is clear. -/
theorem overflow_flag_lost :
    (Branch.jcc .o 0x8048002 0x8048010).original someEnv (someMachine true).toCpu =
        some ((someMachine true).toCpu, 0x8048010) ∧
      ∃ m' asked, run someEnv 0x51000000 ((Branch.jcc .o 0x8048002 0x8048010).patch 0x51000000) 0 0
          (someMachine true) = .ok (asked, .realBranch 0x8048010 m') ∧
        ¬ m'.Agree someEnv.hiddenᶜ (someMachine true).toCpu := by
  refine ⟨rfl, ?_⟩
  obtain ⟨⟨asked, exit⟩, hrun, hexit⟩ := exists_ok (b := some (0x8048010, false))
    (x := run someEnv 0x51000000 ((Branch.jcc .o 0x8048002 0x8048010).patch 0x51000000) 0 0
      (someMachine true))
    (fun p => match p.2 with
      | .realBranch target m' => some (target, m'.flags.of)
      | _ => none)
    (by decide +kernel)
  match exit, hexit with
  | .realBranch target m', hexit =>
    obtain ⟨rfl, hof⟩ := Prod.mk.inj (Option.some.inj hexit)
    refine ⟨m', asked, hrun, fun h => ?_⟩
    have := congrArg Flags.of h.flags
    rw [hof] at this
    exact Bool.false_ne_true this

end Snitchaser.Compiler
