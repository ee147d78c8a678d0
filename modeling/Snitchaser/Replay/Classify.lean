import Snitchaser.Compiler.Transparent
import Snitchaser.Decoder.Encoding
import Snitchaser.Replay.SingleStep

/-!
# Which instructions are logged

The question is answered twice: by the code that `compile_branch` emits, which writes a
record or does not, and by `do_replay_is_branch_inst`, whose report makes the gdbserver
read one or not.

## The model

* `doReplayIsBranchInst` is the report on the bytes at an address. What it says of calls
  and returns is only asked for when a signal stops the target, and is in `Replay.FaultStep`.
* `Takes`: wherever a record of a kind is next in the log, the step takes exactly this
  record. `Writes`: whatever the machine, the emitted code writes a record of the kind.

## What is proved

`agree_iff`: the two answers are the same unless one `f2` or `f3` stands before a branch
that is not logged with a branch word. `compile_branch` passes over the prefix,
`do_replay_is_branch_inst` takes it for the opcode. `Wrote.pieces` ties what compiled code
appends to the events of `Replay.Record`.
-/

namespace Snitchaser.Replay

open Foundation Foundation.X86 Decoder Compiler Interp Log

/-- The kinds of records. -/
inductive RecordKind where
  /-- A branch target. -/
  | branch
  /-- The mark and two words of `rdtsc`. -/
  | rdtsc
  /-- The record of a system call. -/
  | syscall
  deriving DecidableEq, Repr

/-! ### The replayer -/

/-- What `do_replay_is_branch_inst` sends of an instruction that ends a block. -/
def branchReport (code : Code) (eip : Word) (inbox : List Word) : Inst where
  eip := eip
  isBranch := true
  isInt3 := code eip == 0xcc
  isUd := code eip == 0xe9 || code eip == 0xeb || code eip == 0xe8
  isRdtsc := code eip == 0x0f && code (eip + 1) == 0x31
  isInt80 := code eip == 0xcd && code (eip + 1) == 0x80
  isVdsoSyscall := code eip == 0x65 &&
    (List.range vdsoSyscallInst.length).map (fun i => code (eip + BitVec.ofNat 32 i)) ==
      vdsoSyscallInst
  inbox := inbox

/-- **`do_replay_is_branch_inst`**, with what the handler of a system call will send. -/
def doReplayIsBranchInst (code : Code) (eip : Word) (inbox : List Word) : Except Fault Inst := do
  match ← nextInst code eip with
  | none => .ok (branchReport code eip inbox)
  | some _ => .ok ⟨eip, false, false, false, false, false, false, inbox⟩

/-- The kind of an event's record. -/
def Event.kind : Event → Option RecordKind
  | .branch _ => some .branch
  | .rdtsc _ _ => some .rdtsc
  | .syscall _ _ _ => some .syscall
  | .unlogged => none

/-- What the handler of a system call asks for when the event is replayed. -/
def Event.inbox : Event → List Word
  | .syscall _ _ data => requests data
  | _ => []

/-- **The step at `eip` consumes records of a kind**: whatever record of the kind is next
in the log, this record and nothing else is taken. -/
def Takes (code : Code) (eip : Word) (kind : RecordKind) : Prop :=
  ∀ (lzo : Lzo) (signals : Signals) (event : Event) (pieces : List (List Byte)) (r : Reader),
    event.kind = some kind → (∀ piece ∈ event.pieces, piece ≠ []) →
    r.At lzo (event.pieces ++ pieces) →
    ∃ inst out r', doReplayIsBranchInst code eip event.inbox = .ok inst ∧
      (stepInst lzo signals inst).run r = .ok out r' ∧ event.Yields out ∧ r'.At lzo pieces

/-- The record `SN_single_step` takes, by the report. -/
def Inst.kind (inst : Inst) : Option RecordKind :=
  if !inst.isBranch then none
  else if inst.isInt80 || inst.isVdsoSyscall then some .syscall
  else if inst.isRdtsc then some .rdtsc
  else if inst.isInt3 || inst.isUd then none
  else some .branch

/-- The record a step has taken. -/
def Outcome.kind : Outcome → Option RecordKind
  | .stepped => none
  | .branched _ => some .branch
  | .rdtsc _ _ => some .rdtsc
  | .syscall _ _ _ | .signal => some .syscall

theorem Event.Yields.kind {event : Event} {out : Outcome} (h : event.Yields out) :
    event.kind = out.kind := by
  cases event <;> cases out <;> first | rfl | cases h

/-- `single_step_syscall` ends with a system call or a signal in it. -/
theorem singleStepSyscall_kind {lzo : Lzo} {signals : Signals} {inst : Inst} {r r' : Reader}
    {out : Outcome} (h : (singleStepSyscall lzo signals inst).run r = .ok out r') :
    out.kind = some .syscall := by
  obtain ⟨mark, r₁, -, h⟩ := run_bind_eq_ok h
  split at h
  · cases h
  obtain ⟨nr, r₂, -, h⟩ := run_bind_eq_ok h
  obtain ⟨mark, r₃, -, h⟩ := run_bind_eq_ok h
  split at h
  · obtain ⟨_, r₄, -, h⟩ := run_bind_eq_ok h
    obtain ⟨regs, r₅, -, h⟩ := run_bind_eq_ok h
    obtain ⟨sent, r₆, -, h⟩ := run_bind_eq_ok h
    cases h
    rfl
  split at h
  · obtain ⟨_, r₄, -, h⟩ := run_bind_eq_ok h
    cases h
    rfl
  split at h <;> cases h

/-- **A step takes the record its report says.** -/
theorem stepInst_kind {lzo : Lzo} {signals : Signals} {inst : Inst} {r r' : Reader} {out : Outcome}
    (h : (stepInst lzo signals inst).run r = .ok out r') : out.kind = inst.kind := by
  unfold stepInst at h
  unfold Inst.kind
  split at h
  · rename_i hbranch
    rw [if_pos hbranch]
    cases h
    rfl
  · rename_i hbranch
    rw [if_neg hbranch]
    split at h
    · rename_i hsyscall
      rw [if_pos hsyscall]
      exact singleStepSyscall_kind h
    · rename_i hsyscall
      rw [if_neg hsyscall]
      unfold ptraceSingleStep at h
      split at h
      · rename_i hrdtsc
        rw [if_pos hrdtsc]
        obtain ⟨mark, r₁, -, h⟩ := run_bind_eq_ok h
        split at h
        · cases h
        obtain ⟨eax, r₂, -, h⟩ := run_bind_eq_ok h
        obtain ⟨edx, r₃, -, h⟩ := run_bind_eq_ok h
        cases h
        rfl
      · rename_i hrdtsc
        rw [if_neg hrdtsc]
        split at h
        · rename_i hplain
          rw [if_pos (by simpa using hplain)]
          cases h
          rfl
        · rename_i hplain
          rw [if_neg (by simpa using hplain)]
          obtain ⟨eip, r₁, -, h⟩ := run_bind_eq_ok h
          cases h
          rfl

/-- A report that says the event's kind. -/
theorem Event.kind_of_report {event : Event} (inst : Inst) {kind : RecordKind}
    (hevent : event.kind = some kind) (hinst : inst.kind = some kind)
    (hinbox : inst.inbox = event.inbox) : event.Kind inst := by
  unfold Inst.kind at hinst
  split_ifs at hinst with h₁ h₂ h₃ h₄
  · cases hinst
    cases event with
    | syscall nr regs data => exact ⟨⟨by simpa using h₁, by simpa using h₂⟩, hinbox⟩
    | _ => cases hevent
  · cases hinst
    cases event with
    | rdtsc eax edx => simp_all [Event.Kind]
    | _ => cases hevent
  · cases hinst
    cases event with
    | branch target => simp_all [Event.Kind]
    | _ => cases hevent

/-- Some event with a record of a kind. -/
def RecordKind.event : RecordKind → Event
  | .branch => .branch 0
  | .rdtsc => .rdtsc 0 0
  | .syscall => .syscall 0 ⟨0, 0, 0, 0, 0, 0, 0, 0, 0⟩ []

/-- **What is consumed** is what the report says. -/
theorem takes_iff {code : Code} {eip : Word} (hnext : nextInst code eip = .ok none)
    (kind : RecordKind) : Takes code eip kind ↔ (branchReport code eip []).kind = some kind := by
  have hreport : ∀ inbox, doReplayIsBranchInst code eip inbox = .ok (branchReport code eip inbox) := by
    intro inbox
    unfold doReplayIsBranchInst
    rw [hnext]
    rfl
  constructor
  · intro h
    -- one record of the kind, and nothing behind it, shows which one the step takes
    have hne : ∀ piece ∈ kind.event.pieces, piece ≠ [] := by cases kind <;> decide
    have hat : Reader.At endMarked ⟨[], (kind.event.pieces ++ []).flatten⟩ (kind.event.pieces ++ []) :=
      ⟨_, [], rfl, (List.append_nil _).symm, fun _ hregion => absurd hregion List.not_mem_nil⟩
    obtain ⟨inst, out, r', hinst, hrun, hout, -⟩ :=
      h endMarked noSignals kind.event [] _ (by cases kind <;> rfl) hne hat
    rw [hreport] at hinst
    cases hinst
    have hkind := stepInst_kind hrun
    rw [← hout.kind] at hkind
    refine hkind.symm.trans ?_
    cases kind <;> rfl
  · intro h lzo signals event pieces r hevent hne hat
    obtain ⟨out, r', hrun, hout, hat'⟩ := stepInst_event signals
      (Event.kind_of_report (branchReport code eip event.inbox) hevent h rfl) hne hat
    exact ⟨_, out, r', hreport _, hrun, hout, hat'⟩

/-! ### The recorder -/

/-- The words between where `log_buffer_current` pointed in `m` and where it points in `m'`. -/
def appended (m m' : Machine) : List Word :=
  (List.range ((m'.tls .logBufferCurrent - m.tls .logBufferCurrent).toNat / 4)).map fun i =>
    load32 m'.mem (m.tls .logBufferCurrent + BitVec.ofNat 32 (4 * i))

/-- What a patch run from `m` has recorded, by how it was left and by the machines that asked
for a check of the buffer. The record of a system call is written behind
`int80_syscall_entry`. -/
def Wrote (m : Machine) (asked : List Machine) (exit : Exit) : Option RecordKind → Prop
  | some .branch => ∃ target m' m₁, exit = .realBranch target m' ∧ asked = [m₁] ∧
      appended m m₁ = [target]
  | some .rdtsc => ∃ target m' m₁, exit = .realBranch target m' ∧ asked = [m₁] ∧
      appended m m₁ = [rdtscMark, m₁.regs .eax, m₁.regs .edx]
  | some .syscall => asked = [] ∧ ∃ m', exit = .syscallEntry m'
  | none => asked = [] ∧ ∀ m', exit ≠ .syscallEntry m'

/-- **The emitted code writes records of a kind**, wherever it is and whatever the machine. -/
def Writes (b : Branch) (kind : RecordKind) : Prop :=
  ∀ (env : RunEnv) (base : Word) (m : Machine), ∃ asked exit,
    run env base (b.patch base) 0 0 m = .ok (asked, exit) ∧ Wrote m asked exit (some kind)

/-- The record of a branch. -/
def recordOf : Branch → Option RecordKind
  | .jcc .. | .ret | .retn _ | .callIndirect .. | .jmpIndirect _ => some .branch
  | .rdtsc _ => some .rdtsc
  | .int80 _ | .vdso _ => some .syscall
  | .jmp _ | .call .. | .int3 _ => none

/-- **What compiled code appends is the record of an event**, as the log holds it. -/
theorem Wrote.pieces {m : Machine} {asked : List Machine} {exit : Exit} {kind : RecordKind}
    (h : Wrote m asked exit (some kind)) (hkind : kind ≠ .syscall) :
    ∃ event m₁, Event.kind event = some kind ∧ asked = [m₁] ∧
      event.pieces = [leBytesList (appended m m₁)] := by
  match kind, h with
  | .branch, ⟨target, m', m₁, _, hasked, happended⟩ =>
    refine ⟨.branch target, m₁, rfl, hasked, ?_⟩
    rw [happended, leBytesList_singleton]
    rfl
  | .rdtsc, ⟨target, m', m₁, _, hasked, happended⟩ =>
    refine ⟨.rdtsc (m₁.regs .eax) (m₁.regs .edx), m₁, rfl, hasked, ?_⟩
    rw [happended]
    rfl
  | .syscall, _ => exact absurd rfl hkind

/-- How many words a run has appended before each check, and whether it went to a system
call. -/
def shape (m : Machine) (asked : List Machine) (exit : Exit) : List ℕ × Bool :=
  (asked.map fun m₁ => (appended m m₁).length,
    match exit with
    | .syscallEntry _ => true
    | _ => false)

/-- The shape of a run that has written a record. -/
def RecordKind.shape : Option RecordKind → List ℕ × Bool
  | some .branch => ([1], false)
  | some .rdtsc => ([3], false)
  | some .syscall => ([], true)
  | none => ([], false)

theorem Wrote.shape_eq {m : Machine} {asked : List Machine} {exit : Exit} {kind : Option RecordKind}
    (h : Wrote m asked exit kind) : shape m asked exit = RecordKind.shape kind := by
  match kind, h with
  | some .branch, ⟨target, m', m₁, hexit, hasked, happended⟩ =>
    simp [shape, RecordKind.shape, hexit, hasked, happended]
  | some .rdtsc, ⟨target, m', m₁, hexit, hasked, happended⟩ =>
    simp [shape, RecordKind.shape, hexit, hasked, happended]
  | some .syscall, ⟨hasked, m', hexit⟩ => simp [shape, RecordKind.shape, hexit, hasked]
  | none, ⟨hasked, hexit⟩ =>
    cases exit with
    | syscallEntry m' => exact absurd rfl (hexit m')
    | _ => simp [shape, RecordKind.shape, hasked]

/-- One run writes one kind of record. -/
theorem Wrote.unique {m : Machine} {asked : List Machine} {exit : Exit} {kind kind' : Option RecordKind}
    (h : Wrote m asked exit kind) (h' : Wrote m asked exit kind') : kind = kind' := by
  have hshape := h.shape_eq.symm.trans h'.shape_eq
  revert hshape
  cases kind with
  | none => cases kind' with
    | none => exact fun _ => rfl
    | some kind' => cases kind' <;> decide
  | some kind => cases kind' with
    | none => cases kind <;> decide
    | some kind' => cases kind <;> cases kind' <;> decide

/-- `n` words are appended when the pointer moves by as many. -/
theorem appended_eq {m m' : Machine} {n : ℕ} (hn : 4 * n < 2 ^ 32)
    (h : m'.tls .logBufferCurrent = m.tls .logBufferCurrent + BitVec.ofNat 32 (4 * n)) :
    appended m m' = (List.range n).map fun i =>
      load32 m'.mem (m.tls .logBufferCurrent + BitVec.ofNat 32 (4 * i)) := by
  unfold appended
  rw [h, offset_add _ hn, Nat.mul_div_cancel_left n (by decide)]

theorem appended_logged {env : RunEnv} {b : Branch} {m m₁ : Machine} (h : b.TargetSet env m m₁)
    (ret : Word) : appended m (m₁.logged ret) = [m₁.tls .target] := by
  have hlog : (m₁.logged ret).tls .logBufferCurrent = m.tls .logBufferCurrent + BitVec.ofNat 32 (4 * 1) := by
    rw [← h.log]
    rfl
  have hload : load32 (m₁.logged ret).mem (m.tls .logBufferCurrent + 0) = m₁.tls .target := by
    rw [← h.log, add_zero]
    exact load32_store32 _ _ _
  rw [appended_eq (by decide) hlog]
  exact congrArg (fun w => [w]) hload

theorem appended_stamped (env : RunEnv) (m : Machine) (next ret : Word) :
    appended m (m.stamped env next ret) = [rdtscMark, env.tsc.1, env.tsc.2] := by
  have hlog : (m.stamped env next ret).tls .logBufferCurrent =
      m.tls .logBufferCurrent + BitVec.ofNat 32 (4 * 3) := rfl
  have h₀ : load32 (m.stamped env next ret).mem (m.tls .logBufferCurrent + 0) = rdtscMark :=
    load32_store32 _ _ _
  have h₈ : load32 (m.stamped env next ret).mem (m.tls .logBufferCurrent + 8) = env.tsc.2 :=
    (load32_store32_add _ _ _ (show 0 < 2 ^ 31 by decide) (show 8 < 2 ^ 31 by decide)
      (by omega)).trans (load32_store32 _ _ _)
  rw [appended_eq (by decide) hlog]
  show [load32 _ (m.tls .logBufferCurrent + 0), load32 _ (m.tls .logBufferCurrent + 4),
    load32 _ (m.tls .logBufferCurrent + 8)] = _
  rw [h₀, load32_stamped, h₈]

/-- **What the patch of a branch records.** -/
theorem run_recordOf (env : RunEnv) (base : Word) (b : Branch) (m : Machine) :
    ∃ asked exit, run env base (b.patch base) 0 0 m = .ok (asked, exit) ∧
      Wrote m asked exit (recordOf b) := by
  by_cases hb : b.hasPhases = true
  · obtain ⟨m₁, ret, m₃, h₁, hrun, -, -⟩ := run_phases env base hb m
    have hrecord : recordOf b = some .branch := by cases b <;> first | rfl | cases hb
    rw [b.patch_of_hasPhases hb, hrecord]
    exact ⟨_, _, hrun, _, _, _, rfl, rfl, appended_logged h₁ ret⟩
  · cases b with
    | rdtsc next =>
      obtain ⟨ret, hrun⟩ := run_rdtsc env base next m
      exact ⟨_, _, hrun, _, _, _, rfl, rfl, appended_stamped env m next ret⟩
    | int80 next => exact ⟨_, _, rfl, rfl, _, rfl⟩
    | vdso next => exact ⟨_, _, rfl, rfl, _, rfl⟩
    | jmp target => exact ⟨_, _, rfl, rfl, fun _ h => by cases h⟩
    | call target next => exact ⟨_, _, rfl, rfl, fun _ h => by cases h⟩
    | int3 branch => exact ⟨_, _, rfl, rfl, fun _ h => by cases h⟩
    | _ => exact absurd rfl hb

/-- **What is written** is the record of the branch. -/
theorem writes_iff (b : Branch) (kind : RecordKind) : Writes b kind ↔ recordOf b = some kind := by
  constructor
  · intro h
    obtain ⟨asked, exit, hrun, hwrote⟩ := h someEnv 0 (someMachine false)
    obtain ⟨asked', exit', hrun', hwrote'⟩ := run_recordOf someEnv 0 b (someMachine false)
    rw [hrun] at hrun'
    cases hrun'
    exact hwrote'.unique hwrote
  · intro h env base m
    rw [← h]
    exact run_recordOf env base b m

/-! ### Both -/

/-- Without a prefix, the report is right. -/
theorem kind_branchReport {code : Code} {eip : Word} {b : Branch} (h : branchAt code eip = .ok b) :
    (branchReport code eip []).kind = recordOf b := by
  have hbyte : ∀ a n, (code a).toNat = n → code a = BitVec.ofNat 8 n := by
    rintro a _ rfl
    simp
  unfold branchAt at h
  simp only at h
  split at h
  all_goals try (cases h; done)
  all_goals
    rename_i heq
    have hop := hbyte _ _ heq
  -- the opcodes that decide it by themselves
  all_goals try (cases h; simp [branchReport, Inst.kind, recordOf, hop])
  -- `ff`, `0f`, `cd` and `65` are told apart by what follows
  case h_23 =>
    split at h <;> cases h <;> simp [branchReport, Inst.kind, recordOf, hop]
  case h_24 =>
    split at h
    all_goals try (cases h; done)
    all_goals
      rename_i heq'
      have hop' : code (eip + 1#32) = _ := hbyte _ _ heq'
      cases h
      simp [branchReport, Inst.kind, recordOf, hop, hop']
  case h_26 =>
    split_ifs at h with h80
    have hop' : code (eip + 1#32) = 0x80 := not_not.mp h80
    cases h
    simp [branchReport, Inst.kind, recordOf, hop, hop']
  case h_27 =>
    split_ifs at h with hvdso hcall
    · cases h
      simp [branchReport, Inst.kind, recordOf, hop, hvdso]
    · cases h
      simp [branchReport, Inst.kind, recordOf, hop, hvdso]

/-- A prefix is taken for the opcode of a logged branch. -/
theorem kind_branchReport_prefixed {code : Code} {eip : Word}
    (h : code eip = 0xf2 ∨ code eip = 0xf3) : (branchReport code eip []).kind = some .branch := by
  rcases h with h | h <;> simp [branchReport, Inst.kind, h]

/-- **Recorder and replayer agree** on an instruction just when it has no `f2` or `f3` before
it, or is logged with a branch word. -/
theorem agree_iff {code : Code} {eip : Word} {b : Branch} (hnext : nextInst code eip = .ok none)
    (hb : readBranch code eip = .ok b) :
    (∀ kind, Takes code eip kind ↔ Writes b kind) ↔
      (code eip ≠ 0xf2 ∧ code eip ≠ 0xf3) ∨ b.hasPhases = true := by
  simp only [takes_iff hnext, writes_iff]
  rw [show (∀ kind, (branchReport code eip []).kind = some kind ↔ recordOf b = some kind) ↔
    (branchReport code eip []).kind = recordOf b from Option.ext_iff.symm]
  by_cases hp : code eip = 0xf2 ∨ code eip = 0xf3
  · rw [kind_branchReport_prefixed hp]
    constructor
    · intro h
      right
      cases b <;> first | rfl | cases h
    · rintro (⟨h, h'⟩ | h)
      · exact absurd hp (not_or.mpr ⟨h, h'⟩)
      · cases b <;> first | rfl | cases h
  · have hread : branchAt code eip = .ok b := by
      unfold readBranch eatPrefix at hb
      rwa [if_neg hp] at hb
    rw [kind_branchReport hread]
    exact iff_of_true rfl (.inl (not_or.mp hp))

/-- `f3 c3`, a return with a prefix, is logged and replayed as one. -/
theorem agree_iff_rep_ret :
    (Takes (codeOf [0xf3, 0xc3]) 0 .branch ↔ Writes .ret .branch) ∧
      (Takes (codeOf [0xf3, 0xc3]) 0 .rdtsc ↔ Writes .ret .rdtsc) ∧
      (Takes (codeOf [0xf3, 0xc3]) 0 .syscall ↔ Writes .ret .syscall) := by
  have h := (agree_iff (show nextInst (codeOf [0xf3, 0xc3]) 0 = .ok none by decide +kernel)
    (b := .ret) (by decide)).mpr (.inr rfl)
  exact ⟨h _, h _, h _⟩

/-- **`f2 e9`**, a jump with a prefix: nothing is written for it, and the replayer takes the
next word of the log for its target. -/
theorem bnd_jmp_takes_branch :
    nextInst (codeOf [0xf2, 0xe9, 0, 0, 0, 0]) 0 = .ok none ∧
      readBranch (codeOf [0xf2, 0xe9, 0, 0, 0, 0]) 0 = .ok (.jmp 6) ∧
      Takes (codeOf [0xf2, 0xe9, 0, 0, 0, 0]) 0 .branch ∧ ¬ Writes (.jmp 6) .branch := by
  have hnext : nextInst (codeOf [0xf2, 0xe9, 0, 0, 0, 0]) 0 = .ok none := by decide +kernel
  refine ⟨hnext, by decide, (takes_iff hnext _).mpr rfl, ?_⟩
  rw [writes_iff]
  intro h
  cases h

end Snitchaser.Replay
