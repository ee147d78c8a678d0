import Snitchaser.Compiler.BlockLayout
import Snitchaser.Replay.Classify
import Snitchaser.Signal.Unwind

/-!
# The address of a fault

A fault in compiled code is recorded with an address of the program, which
`get_ori_address` computes from the address in the block alone. By the policy of
`branch_template.S` the order of the log decides which: before the target of the branch
is in the log, the fault is one of the branch, and behind that, one of its target.

## The model

* `touchesUser` tells the instructions of a patch that may fault: the loads, pops and
  pushes that go to memory of the program.
* `reach` runs the patch up to such an instruction. The machines that asked for a check of
  the buffer on the way tell what is in the log by then.
* `doArchWrapperSighandler` is what the wrapper logs, with the actions of
  `common_wrapper_sighandler`.

## What is proved

`signal_address_iff`: the address is right for every instruction **but the push of an
indirect call**. This stands behind the log phase, and `get_ori_address` still answers with the
address of the call.
-/

namespace Snitchaser.Signal

open Foundation.X86 Compiler Interp Decoder Replay

/-! ### The wrapper -/

/-- What `signal_terminate` logs. -/
def signalTerminate (noRecordSignals : Bool) (d : Delivery) : List LogAction :=
  if noRecordSignals then []
  else [.words [signalMark, d.addr, signalTerminateMark, BitVec.ofNat 32 (d.num + 1)], .flush]

/-- What `common_wrapper_sighandler` logs. -/
def commonWrapperSighandler (noRecordSignals : Bool) (d : Delivery) (tpd : Tpd) : List LogAction :=
  let handler := (tpd.sigactions d.num).saHandler
  let num := d.num.val + 1
  if handler = sigIgn then
    if num = 32 ∨ num = 33 then signalTerminate noRecordSignals d else []
  else if handler = sigDfl then
    -- SIGSTOP, SIGTSTP, SIGTTIN, SIGTTOU; SIGURG, SIGWINCH, SIGCHLD, SIGCONT
    if num ∈ [19, 20, 21, 22] then []
    else if num ∈ [23, 28, 17, 18] then []
    else signalTerminate noRecordSignals d
  else if noRecordSignals then [] else (signalHandler d tpd).2.2

/-- **`do_arch_wrapper_sighandler`**, and the one for `rt` frames: what they log. -/
def doArchWrapperSighandler (noRecordSignals : Bool) (d : Delivery) (tpd : Tpd) :
    Except Fault (List LogAction) := do
  let block ← tpd.codeCache.getBlock tpd.codeCache.currentBlock
  let oriAddr := getOriAddress tpd.codeCache.currentBlock block d.frame.sc.ip
  .ok (commonWrapperSighandler noRecordSignals { d with addr := oriAddr } tpd)

/-- The word behind `SIGNAL_MARK`. -/
def markAddr : LogAction → Option Word
  | .words (mark :: addr :: _) => if mark = signalMark then some addr else none
  | _ => none

/-- The addresses that are recorded are those of the delivery. -/
theorem markAddr_commonWrapper {noRecordSignals : Bool} {d : Delivery} {tpd : Tpd} {w : Word}
    (h : w ∈ (commonWrapperSighandler noRecordSignals d tpd).filterMap markAddr) : w = d.addr := by
  have hterminate : ∀ w ∈ (signalTerminate noRecordSignals d).filterMap markAddr, w = d.addr := by
    intro w hw
    unfold signalTerminate at hw
    split_ifs at hw <;> simp_all [markAddr, List.filterMap]
  have hmarks : ((signalHandler d tpd).2.2).filterMap markAddr = [d.addr] := rfl
  have hhandler : ∀ w ∈ ((signalHandler d tpd).2.2).filterMap markAddr, w = d.addr := by
    rw [hmarks]
    exact fun w hw => List.mem_singleton.mp hw
  unfold commonWrapperSighandler at h
  simp only at h
  split_ifs at h
  all_goals first | exact hterminate w h | exact hhandler w h | cases h

/-- **The wrapper records** what `get_ori_address` answers. -/
theorem doArchWrapper_ok (noRecordSignals : Bool) (d : Delivery) {tpd : Tpd} {a : Word}
    {block : CodeBlock} (hcur : tpd.codeCache.currentBlock = a)
    (hblock : tpd.codeCache.blocks a = some block) :
    ∃ log, doArchWrapperSighandler noRecordSignals d tpd = .ok log ∧
      ∀ w ∈ log.filterMap markAddr, w = getOriAddress a block d.frame.sc.ip := by
  subst hcur
  refine ⟨commonWrapperSighandler noRecordSignals
    { d with addr := getOriAddress tpd.codeCache.currentBlock block d.frame.sc.ip } tpd, ?_, fun w hw => ?_⟩
  · unfold doArchWrapperSighandler
    rw [CodeCache.getBlock_eq_ok.mpr hblock]
    rfl
  · exact markAddr_commonWrapper hw

/-! ### The instructions that may fault -/

/-- The instruction reads or writes memory of the program: its stack, or an operand. -/
def touchesUser : Insn → Bool
  | .loadEsp | .loadOperand _ | .push _ | .popTls _ | .ret => true
  | _ => false

/-- Those of a piece of code, each with what stands before it. -/
def touching : List Insn → List (List Insn × Insn)
  | [] => []
  | i :: code =>
    (if touchesUser i then [([], i)] else []) ++ (touching code).map fun p => (i :: p.1, p.2)

theorem mem_touching {front : List Insn} {i : Insn} (hi : touchesUser i = true) (back : List Insn) :
    (front, i) ∈ touching (front ++ i :: back) := by
  induction front with
  | nil => simp [touching, hi]
  | cons j front ih => exact List.mem_append_right _ (List.mem_map.mpr ⟨_, ih, rfl⟩)

theorem touching_append (code code' : List Insn) :
    touching (code ++ code') = touching code ++ (touching code').map fun p => (code ++ p.1, p.2) := by
  induction code with
  | nil => simp [touching]
  | cons i code ih => simp [touching, ih, Function.comp_def]

theorem touching_eq_nil {code : List Insn} (h : code.any touchesUser = false) : touching code = [] := by
  induction code with
  | nil => rfl
  | cons i code ih =>
    obtain ⟨hi, hcode⟩ := Bool.or_eq_false_iff.mp h
    simp [touching, hi, ih hcode]

/-- Of the phases, the first and the third one touch memory of the program. -/
theorem touching_phases (b : Branch) (base : Word) : touching (b.phases base) = touching b.setTarget ++
    (touching b.takeEffect).map fun p =>
      (b.setTarget ++ logPhase base (encodedSize b.setTarget) ++ p.1, p.2) := by
  have hlog : touching (logPhase base (encodedSize b.setTarget)) = [] := touching_eq_nil rfl
  have hreal : touching realBranchPhaseTemplate = [] := touching_eq_nil rfl
  unfold Branch.phases
  simp only [touching_append, hlog, hreal, List.map_nil, List.append_nil]

theorem touching_operand {op : Operand} {front : List Insn} {i : Insn}
    (h : (front, i) ∈ touching op.setTarget) :
    front.all Insn.isPlain = true ∧ ∀ next, i ≠ .push next := by
  cases op with
  | reg r => exact absurd (show (front, i) ∈ [] from h) List.not_mem_nil
  | mem op =>
    cases List.mem_singleton.mp
      (show (front, i) ∈ [([.movRegTls .eax .regSaver1], .loadOperand op)] from h)
    exact ⟨rfl, fun _ hpush => by cases hpush⟩

/-- In the set-target phase there is one such instruction at most, and no jump before it. -/
theorem touching_setTarget {b : Branch} (hb : b.hasPhases = true) {front : List Insn} {i : Insn}
    (h : (front, i) ∈ touching b.setTarget) :
    front.all Insn.isPlain = true ∧ ∀ next, i ≠ .push next := by
  cases b with
  | jcc _ _ _ => exact absurd (show (front, i) ∈ [] from h) List.not_mem_nil
  | ret =>
    cases List.mem_singleton.mp (show (front, i) ∈ [([], .popTls .target)] from h)
    exact ⟨rfl, fun _ hpush => by cases hpush⟩
  | retn _ =>
    cases List.mem_singleton.mp (show (front, i) ∈ [([.movRegTls .eax .regSaver1], .loadEsp)] from h)
    exact ⟨rfl, fun _ hpush => by cases hpush⟩
  | callIndirect op next => exact touching_operand h
  | jmpIndirect op => exact touching_operand h
  | _ => cases hb

theorem touching_rdtscTemplate (next ret : Word) :
    touching (rdtscTemplate next ret ++ realBranchPhaseTemplate) = [] :=
  touching_eq_nil (by rfl)

/-- What stands before the instruction has no jump, or it is the push of an indirect call. -/
theorem touching_patch {b : Branch} {base : Word} {front : List Insn} {i : Insn}
    (h : (front, i) ∈ touching (b.patch base)) :
    (front.all Insn.isPlain = true ∧ ∀ op next, b = .callIndirect op next → i ≠ .push next) ∨
      ∃ op next, b = .callIndirect op next ∧ i = .push next ∧
        front = b.setTarget ++ logPhase base (encodedSize b.setTarget) := by
  by_cases hb : b.hasPhases = true
  · rw [Branch.patch_of_hasPhases hb, touching_phases] at h
    rcases List.mem_append.mp h with h | h
    · obtain ⟨hplain, hpush⟩ := touching_setTarget hb h
      exact .inl ⟨hplain, fun _ next _ => hpush next⟩
    · obtain ⟨p, hp, heq⟩ := List.mem_map.mp h
      cases b with
      | callIndirect op next =>
        cases List.mem_singleton.mp hp
        rw [List.append_nil] at heq
        obtain ⟨rfl, rfl⟩ := Prod.mk.inj heq
        exact .inr ⟨op, next, rfl, rfl, rfl⟩
      | _ => cases hp
  · left
    cases b with
    | call t next =>
      cases List.mem_singleton.mp (show (front, i) ∈ [([], .push next)] from h)
      exact ⟨rfl, fun _ _ hb => by cases hb⟩
    | int3 branch =>
      have h : (front, i) ∈ [([], .push branch), ([.push branch], .ret)] := h
      rcases List.mem_cons.mp h with h | h
      · cases h
        exact ⟨rfl, fun _ _ hb => by cases hb⟩
      · cases List.mem_singleton.mp h
        exact ⟨rfl, fun _ _ hb => by cases hb⟩
    | rdtsc next =>
      rw [Branch.patch, touching_rdtscTemplate] at h
      exact absurd h List.not_mem_nil
    | jmp _ | int80 _ | vdso _ => exact absurd (show (front, i) ∈ [] from h) List.not_mem_nil
    | _ => exact absurd rfl hb

/-- A patch that was written over keeps one instruction at most. -/
theorem touching_kept {b : Branch} {rel : Word} {front : List Insn} {i : Insn}
    (h : (front, i) ∈ touching (b.kept ++ [.jmpRel rel])) :
    front = [] ∧ ∀ op next, b ≠ .callIndirect op next := by
  cases b with
  | call t next =>
    cases List.mem_singleton.mp (show (front, i) ∈ [([], .push next)] from h)
    exact ⟨rfl, fun _ _ hb => by cases hb⟩
  | _ => exact absurd (show (front, i) ∈ [] from h) List.not_mem_nil

/-! ### Running up to the fault -/

/-- The machine at the end of `front`, and the machines that asked for a check of the
buffer on the way. The jump behind `front` stands for what faults there. -/
def reach (env : RunEnv) (base : Word) (front : List Insn) (m : Machine) :
    Except Fault (List Machine × Machine) := do
  match ← Compiler.run env base (front ++ [.jmpTls .currentBlock]) 0 0 m with
  | (asked, .jump _ m') => .ok (asked, m')
  | _ => .error .segfault

theorem reach_plain (env : RunEnv) (base : Word) {front : List Insn}
    (h : front.all Insn.isPlain = true) (m : Machine) :
    reach env base front m = .ok ([], effects env m front) := by
  unfold reach
  rw [run_plain_start env base h]
  rfl

/-- Up to the end of the log phase. -/
theorem reach_logged (env : RunEnv) (base : Word) {b : Branch} (hb : b.hasPhases = true) (m : Machine) :
    ∃ m₁ ret m', b.TargetSet env m m₁ ∧
      reach env base (b.setTarget ++ logPhase base (encodedSize b.setTarget)) m =
        .ok ([m₁.logged ret], m') := by
  obtain ⟨m₁, h₁, hrun⟩ := run_setTarget env base hb m
  have hlog := run_logPhase env base (encodedSize b.setTarget) [.jmpTls .currentBlock] m₁
  generalize base + BitVec.ofNat 32 (encodedSize b.setTarget + encodedSize (logPhaseTemplate 0)) = ret at hlog
  refine ⟨m₁, ret, trampoline env.doCheckLoggerBuffer.call (m₁.logged ret), h₁, ?_⟩
  unfold reach
  rw [List.append_assoc, hrun, hlog]
  rfl

/-- **The address that is due**: that of the target, if this is in the log, and that of the
branch itself otherwise. -/
def dueAddr (env : RunEnv) (b : Branch) (exitInstAddr : Word) (m : Machine) (asked : List Machine) : Word :=
  match b.original env m.toCpu with
  | some (_, target) =>
    if asked.any fun m₁ => appended m m₁ = [target] then target else exitInstAddr
  | none => exitInstAddr

/-- Nothing is in the log before a check is asked for. -/
theorem dueAddr_nil (env : RunEnv) (b : Branch) (exitInstAddr : Word) (m : Machine) :
    dueAddr env b exitInstAddr m [] = exitInstAddr := by
  unfold dueAddr
  split <;> rfl

/-- Behind the log phase, the target is in the log. -/
theorem dueAddr_logged {env : RunEnv} {b : Branch} {m m₁ : Machine} (h : b.TargetSet env m m₁)
    (exitInstAddr ret : Word) :
    (b.original env m.toCpu).map Prod.snd = some (dueAddr env b exitInstAddr m [m₁.logged ret]) := by
  obtain ⟨⟨c, target⟩, horiginal, htarget⟩ := Option.map_eq_some_iff.mp h.target
  have happended : appended m (m₁.logged ret) = [target] := by
    rw [appended_logged h ret, ← htarget]
  unfold dueAddr
  simp [horiginal, happended]

/-! ### Where blocks are left -/

/-- What becomes of a block: dispatches from it set its last target, and may write over its
end. -/
inductive Becomes (block : CodeBlock) : CodeBlock → Prop
  | refl : Becomes block block
  | setLast {live : CodeBlock} (e k : Word) : Becomes block live → Becomes block (live.setLast e k)
  | recompileUd {live : CodeBlock} (t : Word) : Becomes block live → live.exitType = .uncondDirect →
      Becomes block (recompileUd live t)

/-- A block keeps its place and its branch. -/
theorem Becomes.kept {block live : CodeBlock} (h : Becomes block live) {branch : Branch}
    (hexit : ExitOk block branch) :
    live.entry = block.entry ∧ live.exitInstAddr = block.exitInstAddr ∧
      live.oriCodeEnd = block.oriCodeEnd ∧ ExitOk live branch := by
  induction h with
  | refl => exact ⟨rfl, rfl, rfl, hexit⟩
  | setLast e k _ ih => exact ⟨ih.1, ih.2.1, ih.2.2.1, ih.2.2.2.setLast e k⟩
  | recompileUd t _ hud ih => exact ⟨ih.1, ih.2.1, ih.2.2.1, ih.2.2.2.recompileUd hud t⟩

/-- **In the patch**, and at its end, `get_ori_address` answers with the branch. -/
theorem getOriAddress_patch {a : Word} {block : CodeBlock}
    (hend : block.oriCodeEnd = codeAt a + BitVec.ofNat 32 (11 + block.oriSz))
    {n : ℕ} (hlt : a.toNat + codeBlockSz + 11 + block.oriSz + n < 2 ^ 32) :
    getOriAddress a block (block.oriCodeEnd + BitVec.ofNat 32 n) = block.exitInstAddr := by
  have hback : block.entry + (block.oriCodeEnd - (codeAt a + 11)) = block.exitInstAddr := by
    have hsub : block.oriCodeEnd - (codeAt a + 11) = BitVec.ofNat 32 block.oriSz := by
      rw [hend, BitVec.ofNat_add, ← BitVec.add_assoc, BitVec.add_comm (codeAt a + _)]
      exact BitVec.add_sub_cancel _ _
    rw [hsub, CodeBlock.oriSz, BitVec.ofNat_toNat, BitVec.setWidth_eq, BitVec.add_comm,
      BitVec.sub_add_cancel]
  unfold getOriAddress
  simp only
  split_ifs with hin
  · -- no address behind the end is before it
    have hn : n = 0 := by
      have hle := BitVec.le_def.mp hin.1
      have hnat : block.oriCodeEnd.toNat = a.toNat + codeBlockSz + 11 + block.oriSz := by
        rw [hend, codeAt, BitVec.add_assoc, ← BitVec.ofNat_add, BitVec.toNat_add, BitVec.toNat_ofNat]
        omega
      rw [BitVec.toNat_add, BitVec.toNat_ofNat] at hle
      omega
    rw [hn, BitVec.ofNat_eq_ofNat, BitVec.add_zero]
    exact hback
  · exact hback

/-- The instruction at the end of a block: nothing is in the log before it, or it is the
push of an indirect call. -/
theorem touching_exitCode {live : CodeBlock} {b : Branch} (hexit : ExitOk live b)
    {front back : List Insn} {i : Insn} (hcode : live.exitCode = front ++ i :: back)
    (htouch : touchesUser i = true) :
    encodedSize front ≤ encodedSize (b.patch live.oriCodeEnd) ∧
      ((front.all Insn.isPlain = true ∧ ∀ op next, b = .callIndirect op next → i ≠ .push next) ∨
        ∃ op next, b = .callIndirect op next ∧ i = .push next ∧
          front = b.setTarget ++ logPhase live.oriCodeEnd (encodedSize b.setTarget)) := by
  have hmem : (front, i) ∈ touching live.exitCode := by
    rw [hcode]
    exact mem_touching htouch back
  rcases hexit.exitCode with hpatch | ⟨-, rel, hkept⟩
  · constructor
    · rw [← hpatch, hcode, encodedSize_append]
      omega
    · rw [hpatch] at hmem
      exact touching_patch hmem
  · rw [hkept] at hmem
    obtain ⟨rfl, hne⟩ := touching_kept hmem
    exact ⟨Nat.zero_le _, .inl ⟨rfl, fun op next hb => absurd hb (hne op next)⟩⟩

section Main

variable {env : Env} {target a : Word} {pages pages' : List ObjPage} {block live : CodeBlock}

/-- **The address of a fault** is recorded by the order of the log, unless the fault is at the
push of an indirect call, which is recorded at the call though its target is in the log by
then. -/
theorem signal_address_iff (h : compileCodeBlock env target pages = .ok (pages', a, block))
    (hlive : Becomes block live) (tpd : Tpd) (hcur : tpd.codeCache.currentBlock = a)
    (hblock : tpd.codeCache.blocks a = some live) (noRecordSignals : Bool) (d : Delivery) :
    (∀ i < block.oriSz, d.frame.sc.ip = codeAt a + BitVec.ofNat 32 (11 + i) →
      ∃ log, doArchWrapperSighandler noRecordSignals d tpd = .ok log ∧
        ∀ w ∈ log.filterMap markAddr, w = target + BitVec.ofNat 32 i) ∧
    ∃ branch, readBranch env.code block.exitInstAddr = .ok branch ∧
      ∀ front i back, live.exitCode = front ++ i :: back → touchesUser i = true →
        d.frame.sc.ip = live.oriCodeEnd + BitVec.ofNat 32 (encodedSize front) →
        ∀ (renv : RunEnv) (m : Machine), ∃ asked m' log,
          reach renv live.oriCodeEnd front m = .ok (asked, m') ∧
          doArchWrapperSighandler noRecordSignals d tpd = .ok log ∧
          ∀ w ∈ log.filterMap markAddr,
            (w = dueAddr renv branch block.exitInstAddr m asked ↔
              ∀ op next, branch = .callIndirect op next → i = .push next →
                op.value renv.gsBase m.toCpu = block.exitInstAddr) := by
  obtain ⟨branch, hbranch, -, rfl, hend, hexit, hlt⟩ := compileCodeBlock_fields h
  obtain ⟨hentry, hinst, hcodeEnd, hexit'⟩ := hlive.kept hexit
  have hsz : live.oriSz = block.oriSz := by
    unfold CodeBlock.oriSz
    rw [hinst, hentry]
  have huser : userEnd = 0xC0000000 := rfl
  obtain ⟨log, hlog, haddr⟩ := doArchWrapper_ok noRecordSignals d hcur hblock
  rw [← hsz, ← hcodeEnd] at hend
  refine ⟨fun i hi hip => ⟨log, hlog, fun w hw => ?_⟩, branch, hbranch, ?_⟩
  · rw [haddr w hw, hip, getOriAddress_eq hend (by omega) (by omega), hentry]
  · intro front i back hcode htouch hip renv m
    obtain ⟨hle, hcases⟩ := touching_exitCode hexit' hcode htouch
    rw [← hcodeEnd, ← hsz] at hlt
    have hrecorded : ∀ w ∈ log.filterMap markAddr, w = block.exitInstAddr := fun w hw => by
      rw [haddr w hw, hip, getOriAddress_patch hend (by omega), hinst]
    rcases hcases with ⟨hplain, hpush⟩ | ⟨op, next, rfl, rfl, rfl⟩
    · refine ⟨[], _, log, reach_plain renv _ hplain m, hlog, fun w hw => ?_⟩
      rw [dueAddr_nil, hrecorded w hw]
      exact iff_of_true rfl fun op next hb hi => absurd hi (hpush op next hb)
    · obtain ⟨m₁, ret, m', h₁, hreach⟩ := reach_logged renv live.oriCodeEnd
        (b := .callIndirect op next) rfl m
      refine ⟨_, m', log, hreach, hlog, fun w hw => ?_⟩
      have hdue : op.value renv.gsBase m.toCpu = dueAddr renv (.callIndirect op next)
          block.exitInstAddr m [m₁.logged ret] := Option.some.inj (dueAddr_logged h₁ _ ret)
      rw [hrecorded w hw, ← hdue]
      constructor
      · rintro hsame _ _ ⟨⟩ -
        exact hsame.symm
      · intro hsame
        exact (hsame op next rfl rfl).symm

end Main

/-! ### Faults of two calls -/

/-- A thread in a block, with a handler for every signal. -/
def tpdIn (a : Word) (block : CodeBlock) : Tpd where
  target := 0
  oldStackTop := 0
  codeCache := { initCodeCache 0x500 with
    currentBlock := a
    blocks := fun x => if x = a then some block else none }
  unblockSigmask := ⟨0, 0⟩
  sigactions := fun _ => ⟨0x3000, ⟨0, 0⟩⟩
  currentSyscallNr := none

/-- SIGSEGV at an address. -/
def segvAt (ip : Word) : Delivery where
  num := 10
  addr := 0
  regs := ⟨0, 0, 0, 0, 0, 0, 0, 0, 0⟩
  frame := ⟨⟨0, 0, 0, 0, 0, 0, ip, 0, 0, 0⟩, 0, 0⟩
  frameSz := 0
  mem := fun _ => 0
  afterNormalInt80 := 0

theorem doArchWrapper_segvAt (a ip : Word) (block : CodeBlock) :
    ∃ log, doArchWrapperSighandler false (segvAt ip) (tpdIn a block) = .ok log ∧
      log.filterMap markAddr = [getOriAddress a block ip] := by
  refine ⟨commonWrapperSighandler false { segvAt ip with addr := getOriAddress a block ip } (tpdIn a block),
    ?_, rfl⟩
  have hblock : (tpdIn a block).codeCache.getBlock (tpdIn a block).codeCache.currentBlock = .ok block :=
    CodeCache.getBlock_eq_ok.mpr (if_pos rfl)
  unfold doArchWrapperSighandler
  rw [hblock]
  rfl

/-- The `nop` before a call, and the push of the call. -/
theorem signal_address_iff_nopCall : ∃ pages a block asked m' log log',
    compileCodeBlock nopCall 0x2000 [] = .ok (pages, a, block) ∧
      doArchWrapperSighandler false (segvAt (codeAt a + BitVec.ofNat 32 (11 + 0))) (tpdIn a block) = .ok log ∧
      (∀ w ∈ log.filterMap markAddr, w = 0x2000 + BitVec.ofNat 32 0) ∧
      reach someEnv block.oriCodeEnd [] (someMachine false) = .ok (asked, m') ∧
      doArchWrapperSighandler false (segvAt (block.oriCodeEnd + BitVec.ofNat 32 0)) (tpdIn a block) =
        .ok log' ∧
      ∀ w ∈ log'.filterMap markAddr, w = dueAddr someEnv (.call 0x2006 0x2006) 0x2001 (someMachine false) asked := by
  obtain ⟨⟨pages, a, block⟩, hblock, hfields⟩ := exists_ok
    (b := (1, 0x2001, [.push 0x2006, .movImmTls 0x2006 .target, .jmpTls .realBranch]))
    (x := compileCodeBlock nopCall 0x2000 [])
    (fun r => (r.2.2.oriSz, r.2.2.exitInstAddr, r.2.2.exitCode)) (by decide +kernel)
  simp only [Prod.mk.injEq] at hfields
  obtain ⟨hsize, hexit, hcode⟩ := hfields
  have hiff := fun d => signal_address_iff hblock .refl (tpdIn a block) rfl (if_pos rfl) false d
  obtain ⟨log, hlog, hnop⟩ := (hiff (segvAt (codeAt a + BitVec.ofNat 32 (11 + 0)))).1 0 (by omega) rfl
  obtain ⟨branch, hbranch, hpatch⟩ := (hiff (segvAt (block.oriCodeEnd + BitVec.ofNat 32 0))).2
  obtain ⟨asked, m', log', hreach, hlog', hpush⟩ :=
    hpatch [] _ _ hcode rfl rfl someEnv (someMachine false)
  have hcall : readBranch nopCall.code 0x2001 = .ok (.call 0x2006 0x2006) := by decide +kernel
  rw [hexit, hcall] at hbranch
  cases hbranch
  rw [hexit] at hpush
  refine ⟨pages, a, block, asked, m', log, log', hblock, hlog, hnop, hreach, hlog', fun w hw => ?_⟩
  exact (hpush w hw).mpr fun op next hb => by cases hb

/-- At `0x2000`, `call *%eax`. -/
def callEax : Env := ⟨fun a => codeOf [0xff, 0xd0] (a - 0x2000), pagesAt64K, 0⟩

/-- **The push of `call *%eax`** faults, with the target in the log: the address recorded is that
of the call. -/
theorem push_fault_address : ∃ pages a block front asked m' log,
    compileCodeBlock callEax 0x2000 [] = .ok (pages, a, block) ∧
      readBranch callEax.code 0x2000 = .ok (.callIndirect (.reg .eax) 0x2002) ∧
      block.exitCode = front ++ .push 0x2002 :: realBranchPhaseTemplate ∧
      reach someEnv block.oriCodeEnd front (someMachine false) = .ok (asked, m') ∧
      dueAddr someEnv (.callIndirect (.reg .eax) 0x2002) 0x2000 (someMachine false) asked = 7 ∧
      doArchWrapperSighandler false (segvAt (block.oriCodeEnd + BitVec.ofNat 32 (encodedSize front)))
        (tpdIn a block) = .ok log ∧
      log.filterMap markAddr = [0x2000] := by
  obtain ⟨⟨pages, a, block⟩, hblock, hfields⟩ := exists_ok
    (b := (0x1000c, 0x10033, 0x2000, (Branch.callIndirect (.reg .eax) 0x2002).patch 0x10033))
    (x := compileCodeBlock callEax 0x2000 [])
    (fun r => (r.2.1, r.2.2.oriCodeEnd, r.2.2.entry, r.2.2.exitCode)) (by decide +kernel)
  simp only [Prod.mk.injEq] at hfields
  obtain ⟨rfl, hend, hentry, hcode⟩ := hfields
  obtain ⟨⟨asked, m'⟩, hreach, hdue⟩ := exists_ok (b := 7)
    (x := reach someEnv 0x10033 ([.movRegTls .eax .target] ++ logPhase 0x10033 6) (someMachine false))
    (fun r => dueAddr someEnv (.callIndirect (.reg .eax) 0x2002) 0x2000 (someMachine false) r.1)
    (by decide +kernel)
  have hori : getOriAddress 0x1000c block (0x10033 + BitVec.ofNat 32
      (encodedSize ([.movRegTls .eax .target] ++ logPhase 0x10033 6))) = 0x2000 := by
    unfold getOriAddress
    rw [hend, hentry]
    decide
  obtain ⟨log, hlog, hmark⟩ := doArchWrapper_segvAt 0x1000c (0x10033 + BitVec.ofNat 32
    (encodedSize ([.movRegTls .eax .target] ++ logPhase 0x10033 6))) block
  refine ⟨pages, 0x1000c, block, [.movRegTls .eax .target] ++ logPhase 0x10033 6, asked, m', log, hblock,
    by decide +kernel, hcode.trans rfl, ?_, hdue, ?_, hmark.trans (congrArg (fun w => [w]) hori)⟩
  · rw [hend]
    exact hreach
  · rw [hend]
    exact hlog

end Snitchaser.Signal
