import Snitchaser.Replay.Record

/-!
# Replay, one instruction at a time

`SN_single_step` of the gdbserver: the target makes one instruction, and what the record
says of it is taken from the log. What kind of instruction it is, the interpreter in the
target reports (`do_replay_is_branch_inst`).

## The model

* `Inst` is that report, with the messages the target sends while a system call is
  replayed. `Outcome` is what the step gets from the log: the branch target that is set
  as `eip`, the words of `rdtsc`, the registers after a system call and the data sent to
  its handler.
* What the gdbserver does with the target by `ptrace`, and the instruction itself, have
  no part in the log and are left out; so is a target that is stopped by a signal.
* The three ways into a signal are an argument (`Signals`): nothing here depends on what
  they do.

## What is proved

`replay_in_step`: the events of a log, stepped as instructions of the same kinds, each
take exactly the bytes of their own record, and give back what was recorded. After them
only the exit is left, and with it the log ends.
-/

namespace Snitchaser.Replay

open Foundation Interp Log

/-- `SYSCALL_READ_START_MARK`. -/
def syscallReadStartMark : Word := 0xf0f0f0f0

/-- `SYSCALL_READ_MARK`. -/
def syscallReadMark : Word := 0xe0e0e0e0

/-- `SYSCALL_READ_END_MARK`. -/
def syscallReadEndMark : Word := 0x0f0f0f0f

/-- `SEND_BUF_SZ`. -/
def sendBufSz : ℕ := 4096

/-- An instruction of the target: what `do_replay_is_branch_inst` sends of it, and what
the handler of a system call sends. -/
structure Inst where
  eip : Word
  /-- `res`: it ends a block. -/
  isBranch : Bool
  isInt3 : Bool
  isUd : Bool
  isRdtsc : Bool
  isInt80 : Bool
  isVdsoSyscall : Bool
  /-- The words the target sends in the read cycle of a system call. -/
  inbox : List Word

/-- What a step gets from the log. -/
inductive Outcome where
  /-- Nothing. -/
  | stepped
  /-- `real_eip`. -/
  | branched (eip : Word)
  | rdtsc (eax edx : Word)
  /-- The number, the registers, and for each request of the handler the datagrams sent. -/
  | syscall (nr : Word) (regs : PushaRegs) (sent : List (List (List Byte)))
  /-- A signal came in. -/
  | signal

/-- The ways into a signal. -/
structure Signals where
  /-- `signal_inst`, at an address. -/
  signalInst : Word → ReadM Unit
  /-- `setup_sighandler`. -/
  setupSighandler : ReadM Unit
  /-- `sighandler_return`. -/
  sighandlerReturn : ReadM Unit

/-- `read_u32_from_log`, `read_int_from_log` and `read_ptr_from_log`. -/
def readWord (lzo : Lzo) : ReadM Word := do
  let bytes ← readLogFull lzo 4 false
  return leWord bytes

/-- The inner loop of `syscall_read_cycle`: the datagrams that answer one request. -/
def sendData (lzo : Lzo) (size : ℕ) : ReadM (List (List Byte)) :=
  if _h : size = 0 then pure []
  else do
    let data ← readLogFull lzo (min size sendBufSz) false
    let rest ← sendData lzo (size - min size sendBufSz)
    return data :: rest
termination_by size
decreasing_by
  unfold sendBufSz
  omega

/-- The outer loop: requests, until the end mark. -/
def readCycle (lzo : Lzo) : List Word → ReadM (List (List (List Byte)))
  | [] => throw .blocked
  | mark :: inbox =>
    if mark = syscallReadMark then
      match inbox with
      | [] => throw .blocked
      | size :: inbox => do
        let sent ← sendData lzo size.toNat
        let rest ← readCycle lzo inbox
        return sent :: rest
    else if mark = syscallReadEndMark then pure []
    else throw (.throw .syscallReplayer "wait for SYSCALL_READ_END_MARK but receive -x%x")

/-- `syscall_read_cycle`. -/
def syscallReadCycle (lzo : Lzo) : List Word → ReadM (List (List (List Byte)))
  | [] => throw .blocked
  | mark :: inbox =>
    if mark = syscallReadStartMark then readCycle lzo inbox
    else throw (.throw .syscallReplayer "wait for SYSCALL_READ_START_MARK but receive 0x%x")

/-- `single_step_syscall`, behind the number. -/
def finishSyscall (lzo : Lzo) (signals : Signals) (inst : Inst) (nr : Word) : ReadM Outcome := do
  let mark ← readaheadLogPtr lzo
  if mark = noSignalMark then
    let _ ← readWord lzo
    let regs ← readLogFull lzo 36 false
    let sent ← syscallReadCycle lzo inst.inbox
    return .syscall nr (PushaRegs.ofWords (leWords 9 regs)) sent
  else if mark = signalMark then
    signals.signalInst inst.eip
    return .signal
  else if mark = 0xffffffff then
    throw (.throw .logEnd "log is end after syscall mark %d")
  else
    throw (.throw .logCorrupted "mark 0x%x follows syscall mark")

/-- `single_step_syscall`. -/
def singleStepSyscall (lzo : Lzo) (signals : Signals) (inst : Inst) : ReadM Outcome := do
  let mark ← readWord lzo
  if mark ≠ syscallMark then
    throw (.throw .fileCorrupted "mark should be 0x%x but actually 0x%x")
  else
    let nr ← readWord lzo
    finishSyscall lzo signals inst nr

/-- `ptrace_single_step`. -/
def ptraceSingleStep (lzo : Lzo) (isBranch isInt3 isUd isRdtsc : Bool) : ReadM Outcome :=
  if isRdtsc then do
    let mark ← readWord lzo
    if mark ≠ rdtscMark then
      throw (.throw .fileCorrupted "inst is rdtsc but mark is 0x%x")
    else
      let eax ← readWord lzo
      let edx ← readWord lzo
      return .rdtsc eax edx
  else if !isBranch || isInt3 || isUd then pure .stepped
  else do
    let eip ← readWord lzo
    return .branched eip

/-- The rest of `SN_single_step`, when no signal comes in. -/
def stepInst (lzo : Lzo) (signals : Signals) (inst : Inst) : ReadM Outcome :=
  if !inst.isBranch then ptraceSingleStep lzo false false false false
  else if inst.isInt80 || inst.isVdsoSyscall then singleStepSyscall lzo signals inst
  else ptraceSingleStep lzo true inst.isInt3 inst.isUd inst.isRdtsc

/-- `SN_single_step`. -/
def snSingleStep (lzo : Lzo) (signals : Signals) (inst : Inst) : ReadM Outcome := do
  let mark ← readaheadLogPtr lzo
  if mark = signalMark then
    let marks ← readaheadLog lzo 16
    if (leWords 4 (marks.getD [])).getD 1 0 = inst.eip then
      signals.signalInst inst.eip
      return .signal
    else stepInst lzo signals inst
  else if mark = signalMark2 then
    signals.setupSighandler
    return .signal
  else if mark = sigreturnMark then
    signals.sighandlerReturn
    return .signal
  else stepInst lzo signals inst

/-- Step after step. -/
def replay (lzo : Lzo) (signals : Signals) (insts : List Inst) : ReadM (List Outcome) :=
  insts.mapM (snSingleStep lzo signals)

/-! ### The same kind, the same record -/

/-- What a handler sends that asks for data of these sizes: `initiate_syscall_read`,
`read_syscall_data`, `finish_syscall_read`. -/
def requests (data : List Data) : List Word :=
  syscallReadStartMark ::
    (data.flatMap fun d => [syscallReadMark, BitVec.ofNat 32 d.1.length]) ++ [syscallReadEndMark]

/-- A system call. -/
def Inst.isSyscall (inst : Inst) : Prop :=
  inst.isBranch = true ∧ (inst.isInt80 = true ∨ inst.isVdsoSyscall = true)

/-- The instruction is of the event's kind. -/
def Event.Kind (event : Event) (inst : Inst) : Prop :=
  match event with
  | .branch _ => inst.isBranch ∧ ¬ inst.isInt80 ∧ ¬ inst.isVdsoSyscall ∧ ¬ inst.isRdtsc ∧
      ¬ inst.isInt3 ∧ ¬ inst.isUd
  | .rdtsc _ _ => inst.isBranch ∧ ¬ inst.isInt80 ∧ ¬ inst.isVdsoSyscall ∧ inst.isRdtsc
  | .syscall _ _ data => inst.isSyscall ∧ inst.inbox = requests data
  | .unlogged => ¬ inst.isBranch ∨
      ¬ inst.isInt80 ∧ ¬ inst.isVdsoSyscall ∧ ¬ inst.isRdtsc ∧ inst.isUd

/-- The step got what was recorded. -/
def Event.Yields : Event → Outcome → Prop
  | .branch target, .branched eip => eip = target
  | .rdtsc eax edx, .rdtsc eax' edx' => eax' = eax ∧ edx' = edx
  | .syscall nr regs data, .syscall nr' regs' sent =>
    nr' = nr ∧ regs' = regs ∧ sent.map List.flatten = data.map Subtype.val
  | .unlogged, .stepped => True
  | _, _ => False

/-! ### Reading records -/

section Read

variable {lzo : Lzo} {r : Reader} {pieces : List (List Byte)}

theorem readWord_inside {word : Word} {rest : List Byte}
    (h : r.At lzo ((leBytes word ++ rest) :: pieces)) :
    ∃ r', (readWord lzo).run r = .ok word r' ∧ r'.Inside lzo rest pieces := by
  obtain ⟨r', hrun, h'⟩ := h.readLogFull (leBytes_ne_nil word)
  refine ⟨r', ?_, h'⟩
  unfold readWord
  rw [run_bind_ok (show (readLogFull lzo 4 false).run r = _ from hrun), leWord_leBytes]
  rfl

/-- A word that is a piece. -/
theorem readWord_at {word : Word} (h : r.At lzo (leBytes word :: pieces)) :
    ∃ r', (readWord lzo).run r = .ok word r' ∧ r'.At lzo pieces := by
  rw [← List.append_nil (leBytes word)] at h
  obtain ⟨r', hrun, h'⟩ := readWord_inside h
  exact ⟨r', hrun, h'.at_nil⟩

theorem run_readaheadLogPtr {word : Word} {r' : Reader}
    (h : (readaheadLog lzo 4).run r = .ok (some (leBytes word)) r') :
    (readaheadLogPtr lzo).run r = .ok word r' := by
  unfold readaheadLogPtr
  rw [run_bind_ok h]
  show EStateM.Result.ok (leWord (leBytes word)) r' = _
  rw [leWord_leBytes]

theorem readaheadLogPtr_at {word : Word} {rest : List Byte}
    (h : r.At lzo ((leBytes word ++ rest) :: pieces)) :
    ∃ r', (readaheadLogPtr lzo).run r = .ok word r' ∧ r'.At lzo ((leBytes word ++ rest) :: pieces) := by
  obtain ⟨r', hrun, h'⟩ := h.readahead (leBytes_ne_nil word)
  exact ⟨r', run_readaheadLogPtr hrun, h'.at⟩

theorem readaheadLogPtr_ahead {word : Word} {rest : List Byte}
    (h : r.Ahead lzo (leBytes word ++ rest)) :
    ∃ r', (readaheadLogPtr lzo).run r = .ok word r' ∧ leBytes word ++ rest <+: r'.region := by
  obtain ⟨r', hrun, h'⟩ := h.readahead (leBytes_ne_nil word)
  exact ⟨r', run_readaheadLogPtr hrun, h'⟩

/-- Data that are a piece are sent, in datagrams. -/
theorem sendData_at {data : List Byte} (hdata : data ≠ []) (h : r.At lzo (data :: pieces)) :
    ∃ sent r', (sendData lzo data.length).run r = .ok sent r' ∧ sent.flatten = data ∧
      r'.At lzo pieces := by
  -- by induction on the size: each datagram leaves the rest of the piece
  induction hlen : data.length using Nat.strong_induction_on generalizing data r with
  | _ size ih =>
    subst hlen
    have hpos := List.length_pos_of_ne_nil hdata
    have htake : (data.take sendBufSz).length = min data.length sendBufSz := by
      rw [List.length_take, Nat.min_comm]
    have hne : data.take sendBufSz ≠ [] := by
      rw [← List.length_pos_iff, htake]
      unfold sendBufSz
      omega
    rw [← List.take_append_drop sendBufSz data] at h
    obtain ⟨r₁, hread, h₁⟩ := h.readLogFull hne
    rw [htake] at hread
    have hrest : data.length - min data.length sendBufSz = (data.drop sendBufSz).length := by
      rw [List.length_drop]
      omega
    rw [sendData, dif_neg hpos.ne', run_bind_ok hread, hrest]
    by_cases hnil : data.drop sendBufSz = []
    · rw [hnil] at h₁ ⊢
      refine ⟨[data.take sendBufSz], r₁, ?_, ?_, h₁.at_nil⟩
      · rw [List.length_nil, sendData, dif_pos rfl]
        rfl
      · rw [List.flatten_singleton, ← List.append_nil (List.take _ _), ← hnil,
          List.take_append_drop]
    · have hlt : (data.drop sendBufSz).length < data.length := by
        rw [List.length_drop]
        unfold sendBufSz
        omega
      obtain ⟨sent, r', hrun, hsent, h'⟩ := ih _ hlt hnil h₁.at rfl
      refine ⟨data.take sendBufSz :: sent, r', ?_, ?_, h'⟩
      · rw [run_bind_ok hrun]
        rfl
      · rw [List.flatten_cons, hsent, List.take_append_drop]

theorem readCycle_request (lzo : Lzo) (size : Word) (inbox : List Word) :
    readCycle lzo (syscallReadMark :: size :: inbox) = (do
      let sent ← sendData lzo size.toNat
      let rest ← readCycle lzo inbox
      return sent :: rest) := rfl

/-- The requests of a handler are answered with its data. -/
theorem readCycle_at {data : List Data} (hne : ∀ d ∈ data, d.1 ≠ [])
    (h : r.At lzo (data.map Subtype.val ++ pieces)) :
    ∃ sent r', (readCycle lzo ((data.flatMap fun d => [syscallReadMark, BitVec.ofNat 32 d.1.length]) ++
        [syscallReadEndMark])).run r = .ok sent r' ∧
      sent.map List.flatten = data.map Subtype.val ∧ r'.At lzo pieces := by
  induction data generalizing r with
  | nil => exact ⟨[], r, rfl, rfl, h⟩
  | cons d data ih =>
    obtain ⟨sent, r₁, hsend, hsent, h₁⟩ := sendData_at (hne d List.mem_cons_self) h
    obtain ⟨rest, r', hcycle, hrest, h'⟩ := ih (fun x hx => hne x (List.mem_cons_of_mem _ hx)) h₁
    refine ⟨sent :: rest, r', ?_, ?_, h'⟩
    · simp only [List.flatMap_cons, List.cons_append, List.nil_append]
      rw [readCycle_request, toNat_ofNat_of_lt d.2, run_bind_ok hsend,
        run_bind_ok hcycle]
      rfl
    · rw [List.map_cons, List.map_cons, hsent, hrest]

end Read

/-! ### One step -/

/-- **The next record begins with no signal mark.** -/
def Unbroken (pieces : List (List Byte)) : Prop :=
  ∃ word rest pieces', pieces = (leBytes word ++ rest) :: pieces' ∧ word ≠ signalMark ∧
    word ≠ signalMark2 ∧ word ≠ sigreturnMark

section Step

variable {lzo : Lzo} (signals : Signals) {r : Reader} {pieces : List (List Byte)} {inst : Inst}

/-- Without a signal mark ahead, the step is that of the instruction. -/
theorem snSingleStep_unbroken (inst : Inst) (h : r.At lzo pieces) (hpieces : Unbroken pieces) :
    ∃ r', (snSingleStep lzo signals inst).run r = (stepInst lzo signals inst).run r' ∧
      r'.At lzo pieces := by
  obtain ⟨word, rest, pieces', rfl, h₁, h₂, h₃⟩ := hpieces
  obtain ⟨r', hrun, h'⟩ := readaheadLogPtr_at h
  refine ⟨r', ?_, h'⟩
  unfold snSingleStep
  rw [run_bind_ok hrun, if_neg h₁, if_neg h₂, if_neg h₃]

theorem stepInst_syscall (h : inst.isSyscall) :
    stepInst lzo signals inst = singleStepSyscall lzo signals inst := by
  obtain ⟨hbranch, hsys⟩ := h
  unfold stepInst
  rw [hbranch, Bool.not_true, if_neg Bool.false_ne_true, if_pos (by simpa using hsys)]

/-- The record before a system call is read. -/
theorem singleStepSyscall_pre (inst : Inst) {nr : Word} (h : r.At lzo (prePieces nr ++ pieces)) :
    ∃ r', (singleStepSyscall lzo signals inst).run r = (finishSyscall lzo signals inst nr).run r' ∧
      r'.At lzo pieces := by
  obtain ⟨r₁, hmark, h₁⟩ := readWord_at h
  obtain ⟨r₂, hnr, h₂⟩ := readWord_at h₁
  refine ⟨r₂, ?_, h₂⟩
  unfold singleStepSyscall
  rw [run_bind_ok hmark, if_neg (not_not.mpr rfl), run_bind_ok hnr]

/-- **The record after a completed system call** gives the registers and the data. -/
theorem finishSyscall_at (nr : Word) {regs : PushaRegs} {data : List Data}
    (hne : ∀ d ∈ data, d.1 ≠ []) (hinbox : inst.inbox = requests data)
    (h : r.At lzo (postPieces regs data ++ pieces)) :
    ∃ sent r', (finishSyscall lzo signals inst nr).run r = .ok (.syscall nr regs sent) r' ∧
      sent.map List.flatten = data.map Subtype.val ∧ r'.At lzo pieces := by
  unfold postPieces at h
  rw [List.cons_append, ← List.append_nil (leBytes noSignalMark)] at h
  obtain ⟨r₁, hpeek, h₁⟩ := readaheadLogPtr_at h
  rw [List.append_nil] at h₁
  obtain ⟨r₂, hmark, h₂⟩ := readWord_at h₁
  rw [List.cons_append, ← List.append_nil (leBytesList regs.words)] at h₂
  obtain ⟨r₃, hregs, h₃⟩ := h₂.readLogFull (List.cons_ne_nil _ _)
  obtain ⟨sent, r', hcycle, hsent, h'⟩ := readCycle_at hne h₃.at_nil
  refine ⟨sent, r', ?_, hsent, h'⟩
  have hwords : leWords 9 (leBytesList regs.words) = regs.words := leWords_leBytesList regs.words
  have hcycle' : (syscallReadCycle lzo (requests data)).run r₃ = .ok sent r' := hcycle
  unfold finishSyscall
  rw [run_bind_ok hpeek, if_pos rfl, run_bind_ok hmark,
    run_bind_ok (show (readLogFull lzo 36 false).run r₂ = _ from hregs), hinbox,
    run_bind_ok hcycle', hwords, PushaRegs.ofWords_words]
  rfl

/-- The record of `rdtsc` is one piece, read word by word. -/
theorem ptraceSingleStep_rdtsc {eax edx : Word}
    (h : r.At lzo (leBytesList [rdtscMark, eax, edx] :: pieces)) (isInt3 isUd : Bool) :
    ∃ r', (ptraceSingleStep lzo true isInt3 isUd true).run r = .ok (.rdtsc eax edx) r' ∧
      r'.At lzo pieces := by
  obtain ⟨r₁, hmark, h₁⟩ := readWord_inside h
  obtain ⟨r₂, heax, h₂⟩ := readWord_inside h₁.at
  obtain ⟨r₃, hedx, h₃⟩ := readWord_inside h₂.at
  refine ⟨r₃, ?_, h₃.at_nil⟩
  unfold ptraceSingleStep
  rw [if_pos rfl, run_bind_ok hmark, if_neg (not_not.mpr rfl), run_bind_ok heax, run_bind_ok hedx]
  rfl

/-- What logs nothing is stepped without the log. -/
theorem stepInst_unlogged (h : Event.unlogged.Kind inst) :
    stepInst lzo signals inst = pure .stepped := by
  rcases h with hplain | ⟨h80, hvdso, hrdtsc, hud⟩
  · simp [stepInst, ptraceSingleStep, hplain]
  · simp [stepInst, ptraceSingleStep, h80, hvdso, hrdtsc, hud]

/-- **One event, one step**: it takes the pieces of the event, and gives what was
recorded. -/
theorem stepInst_event {event : Event} (hkind : event.Kind inst)
    (hne : ∀ piece ∈ event.pieces, piece ≠ []) (h : r.At lzo (event.pieces ++ pieces)) :
    ∃ out r', (stepInst lzo signals inst).run r = .ok out r' ∧ event.Yields out ∧ r'.At lzo pieces := by
  cases event with
  | branch target =>
    obtain ⟨hbranch, h80, hvdso, hrdtsc, hint3, hud⟩ := hkind
    obtain ⟨r', hread, h'⟩ := readWord_at h
    refine ⟨.branched target, r', ?_, rfl, h'⟩
    simp only [stepInst, ptraceSingleStep, hbranch, h80, hvdso, hrdtsc, hint3, hud]
    simp only [Bool.not_true, Bool.false_eq_true, Bool.or_false, if_false]
    rw [run_bind_ok hread]
    rfl
  | rdtsc eax edx =>
    obtain ⟨hbranch, h80, hvdso, hrdtsc⟩ := hkind
    obtain ⟨r', hrun, h'⟩ := ptraceSingleStep_rdtsc h inst.isInt3 inst.isUd
    refine ⟨.rdtsc eax edx, r', ?_, ⟨rfl, rfl⟩, h'⟩
    simp only [stepInst, hbranch, h80, hvdso, hrdtsc]
    exact hrun
  | syscall nr regs data =>
    obtain ⟨hsys, hinbox⟩ := hkind
    rw [Event.pieces, List.append_assoc] at h
    obtain ⟨r₁, hpre, h₁⟩ := singleStepSyscall_pre signals inst h
    have hdata : ∀ d ∈ data, d.1 ≠ [] := by
      intro d hd
      refine hne d.1 (List.mem_append_right _ ?_)
      exact List.mem_cons_of_mem _ (List.mem_cons_of_mem _ (List.mem_map_of_mem hd))
    obtain ⟨sent, r', hrun, hsent, h'⟩ := finishSyscall_at signals nr hdata hinbox h₁
    refine ⟨.syscall nr regs sent, r', ?_, ⟨rfl, rfl, hsent⟩, h'⟩
    rw [stepInst_syscall signals hsys, hpre, hrun]
  | unlogged =>
    refine ⟨.stepped, r, ?_, trivial, h⟩
    rw [stepInst_unlogged signals hkind]
    rfl

end Step

/-! ### The whole log -/

/-- A valid branch target is no mark. -/
theorem ne_mark_of_isValidPtr {target : Word} (h : isValidPtr target = true) (mark : Word)
    (hmark : mark.toNat ≤ 0x1208) : target ≠ mark := by
  rintro rfl
  unfold isValidPtr at h
  simp only [Bool.and_eq_true, decide_eq_true_eq, BitVec.lt_def, gt_iff_lt] at h
  exact absurd h.2 (not_lt.mpr (hmark.trans (by decide)))

/-- Every record begins with no signal mark, and so does what is behind the last. -/
theorem unbroken_events {events : List Event}
    (hvalid : ∀ target, Event.branch target ∈ events → isValidPtr target = true) (nr : Word) :
    Unbroken (events.flatMap Event.pieces ++ prePieces nr) := by
  induction events with
  | nil => exact ⟨syscallMark, [], [leBytes nr], rfl, by decide, by decide, by decide⟩
  | cons event events ih =>
    rw [List.flatMap_cons, List.append_assoc]
    cases event with
    | branch target =>
      have hne := ne_mark_of_isValidPtr (hvalid target List.mem_cons_self)
      exact ⟨target, [], _, rfl, hne _ (by decide), hne _ (by decide), hne _ (by decide)⟩
    | rdtsc eax edx => exact ⟨rdtscMark, _, _, rfl, by decide, by decide, by decide⟩
    | syscall nr' regs data => exact ⟨syscallMark, [], _, rfl, by decide, by decide, by decide⟩
    | unlogged => exact ih fun target h => hvalid target (List.mem_cons_of_mem _ h)

/-- The bytes of an event's record. -/
def Event.bytes (event : Event) : List Byte := event.pieces.flatten

/-- The bytes of the record of an exit. -/
def exitBytes (nr : Word) : List Byte := (prePieces nr).flatten

section Run

variable {lzo : Lzo} (signals : Signals) {nr : Word}

/-- Events are stepped, one after the other. -/
theorem replay_events {before after : List Event} {insts : List Inst} {r : Reader}
    (hvalid : ∀ target, Event.branch target ∈ before ++ after → isValidPtr target = true)
    (hne : ∀ piece ∈ before.flatMap Event.pieces, piece ≠ [])
    (hinsts : List.Forall₂ Event.Kind before insts)
    (h : r.At lzo (before.flatMap Event.pieces ++ (after.flatMap Event.pieces ++ prePieces nr))) :
    ∃ outs r', (replay lzo signals insts).run r = .ok outs r' ∧ List.Forall₂ Event.Yields before outs ∧
      r'.At lzo (after.flatMap Event.pieces ++ prePieces nr) := by
  induction hinsts generalizing r with
  | nil => exact ⟨[], r, rfl, .nil, h⟩
  | @cons event inst before insts hkind hinsts ih =>
    have hunbroken := unbroken_events hvalid nr
    rw [List.flatMap_append, List.append_assoc] at hunbroken
    obtain ⟨r₁, hstep, h₁⟩ := snSingleStep_unbroken signals inst h hunbroken
    rw [List.flatMap_cons, List.append_assoc] at h₁
    rw [List.flatMap_cons] at hne
    obtain ⟨out, r₂, hrun, hout, h₂⟩ := stepInst_event signals hkind
      (fun piece hp => hne piece (List.mem_append_left _ hp)) h₁
    obtain ⟨outs, r', hrest, houts, h'⟩ := ih
      (fun target ht => hvalid target (List.mem_cons_of_mem _ ht))
      (fun piece hp => hne piece (List.mem_append_right _ hp)) h₂
    refine ⟨out :: outs, r', ?_, .cons hout houts, h'⟩
    unfold replay at hrest ⊢
    rw [List.mapM_cons, run_bind_ok (hstep.trans hrun), run_bind_ok hrest]
    rfl

/-- A reader with no pieces before it is at the end. -/
theorem eq_end_of_at_nil {r : Reader} (h : r.At lzo []) : r = ⟨[], []⟩ := by
  obtain ⟨cur, regions, rfl, hpieces, hall⟩ := h
  obtain ⟨rfl, hregions⟩ := List.append_eq_nil_iff.mp hpieces.symm
  cases regions with
  | nil => rfl
  | cons region regions =>
    rw [allPieces, List.flatMap_cons, List.append_eq_nil_iff] at hregions
    exact absurd hregions.1 (hall region List.mem_cons_self).2.1

/-- **The exit ends the log.** -/
theorem snSingleStep_exit {inst : Inst} (hinst : inst.isSyscall) {r : Reader}
    (h : r.At lzo (prePieces nr)) :
    (snSingleStep lzo signals inst).run r =
      .error (.throw .logEnd "log is end after syscall mark %d") ⟨[], []⟩ := by
  obtain ⟨r₁, hstep, h₁⟩ := snSingleStep_unbroken signals inst h
    ⟨syscallMark, [], [leBytes nr], rfl, by decide, by decide, by decide⟩
  rw [← List.append_nil (prePieces nr)] at h₁
  obtain ⟨r₂, hpre, h₂⟩ := singleStepSyscall_pre signals inst h₁
  have hpeek : (readaheadLogPtr lzo).run r₂ = .ok 0xffffffff ⟨[], []⟩ := by
    rw [eq_end_of_at_nil h₂]
    unfold readaheadLogPtr
    rw [run_bind_ok (run_readaheadLog_end lzo (by decide))]
    rfl
  rw [hstep, stepInst_syscall signals hinst, hpre]
  unfold finishSyscall
  rw [run_bind_ok hpeek, if_neg (by decide), if_neg (by decide), if_pos rfl]
  rfl

end Run

/-- **Record and replay stay in step.** Whatever events are recorded without a signal,
wherever the buffer is flushed: up to any point of the log, instructions of the same
kinds get what was recorded, and exactly the bytes of the records behind that point are
left. Only the exit finds the end of the log. A run of the recorder that writes outside
the buffer is a fault of `record`, so `hrecord` leaves it out. -/
theorem replay_in_step (lzo : Lzo) (signals : Signals) (start : Pages logPagesNr)
    {events : List Event} (hvalid : ∀ target, Event.branch target ∈ events → isValidPtr target = true)
    {nr : Word} {l l' : Logger} (hrecord : record lzo (initLogger start) events = .ok l)
    (hexit : recordExit lzo l nr = .ok l') {before after : List Event}
    (hown : ownEvents events = before ++ after) {insts : List Inst}
    (hinsts : List.Forall₂ Event.Kind before insts) :
    ∃ outs r, (replay lzo signals insts).run (openLog l'.file) = .ok outs r ∧
      List.Forall₂ Event.Yields before outs ∧
      r.Left lzo (after.flatMap Event.bytes ++ exitBytes nr) ∧
      (after = [] → ∀ inst : Inst, inst.isSyscall → (snSingleStep lzo signals inst).run r =
        .error (.throw .logEnd "log is end after syscall mark %d") ⟨[], []⟩) := by
  have hrec := record_recorded hrecord
  have hne := hrec.nonempty
  have h := recordExit_at hrec hexit
  rw [hown, List.flatMap_append] at hne
  rw [hown, List.flatMap_append, List.append_assoc] at h
  have hvalid' : ∀ target, Event.branch target ∈ before ++ after → isValidPtr target = true := by
    intro target htarget
    rw [← hown] at htarget
    exact hvalid target (mem_of_mem_ownEvents htarget)
  obtain ⟨outs, r, hrun, houts, hr⟩ := replay_events signals hvalid'
    (fun piece hp => hne piece (List.mem_append_left _ hp)) hinsts h
  refine ⟨outs, r, hrun, houts, ?_, ?_⟩
  · have hbytes : (after.flatMap Event.pieces ++ prePieces nr).flatten =
        after.flatMap Event.bytes ++ exitBytes nr := by
      rw [List.flatten_append, List.flatMap_def, List.flatten_flatten, List.map_map, List.flatMap_def]
      rfl
    rw [← hbytes]
    exact hr.left
  · rintro rfl inst hinst
    exact snSingleStep_exit signals hinst hr

/-- A plain instruction, a branch, `rdtsc`, and a `read` of three bytes. -/
def someEvents : List Event :=
  [.unlogged, .branch 0x8048000, .rdtsc 1 2,
    .syscall 3 ⟨0x202, 0, 0, 0, 0xbffff000, 3, 3, 0x8049000, 3⟩ [⟨[7, 8, 9], by decide⟩]]

/-- Instructions of the same kinds. -/
def someInsts : List Inst :=
  [⟨0x8047ff0, false, false, false, false, false, false, []⟩,
    ⟨0x8047ff2, true, false, false, false, false, false, []⟩,
    ⟨0x8048000, true, false, false, true, false, false, []⟩,
    ⟨0x8048002, true, false, false, false, true, false,
      [syscallReadStartMark, syscallReadMark, 3, syscallReadEndMark]⟩]

/-- Signals that do nothing. -/
def noSignals : Signals := ⟨fun _ => pure (), pure (), pure ()⟩

/-- These events are recorded, and replayed up to the exit. -/
theorem replay_in_step_someEvents :
    ∃ l l', record endMarked (initLogger ⟨0x10000, by decide⟩) someEvents = .ok l ∧
      recordExit endMarked l 1 = .ok l' ∧
      ∃ outs r, (replay endMarked noSignals someInsts).run (openLog l'.file) = .ok outs r ∧
        List.Forall₂ Event.Yields someEvents outs ∧ r.Left endMarked ([] ++ exitBytes 1) := by
  obtain ⟨⟨l, l'⟩, hrun, -⟩ := exists_ok (b := 87)
    (x := (do
      let l ← record endMarked (initLogger ⟨0x10000, by decide⟩) someEvents
      let l' ← recordExit endMarked l 1
      return (l, l')))
    (fun p => p.2.file.length) (by decide +kernel)
  obtain ⟨_, hrecord, hrun⟩ := bind_eq_ok.mp hrun
  obtain ⟨_, hexit, hrun⟩ := bind_eq_ok.mp hrun
  cases hrun
  have hinsts : List.Forall₂ Event.Kind someEvents someInsts :=
    .cons (.inl Bool.false_ne_true) <| .cons (by simp [Event.Kind]) <| .cons (by simp [Event.Kind]) <|
      .cons ⟨⟨rfl, .inl rfl⟩, rfl⟩ .nil
  have hvalid : ∀ target, Event.branch target ∈ someEvents → isValidPtr target = true := by
    intro target h
    simp only [someEvents, List.mem_cons, List.not_mem_nil, or_false, reduceCtorEq, false_or,
      Event.branch.injEq] at h
    subst h
    decide
  obtain ⟨outs, r, hreplay, houts, hleft, -⟩ := replay_in_step endMarked noSignals ⟨0x10000, by decide⟩
    hvalid hrecord hexit (List.append_nil someEvents).symm hinsts
  exact ⟨l, l', hrecord, hexit, outs, r, hreplay, houts, hleft⟩

end Snitchaser.Replay
