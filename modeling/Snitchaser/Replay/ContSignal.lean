import Snitchaser.Replay.SingleStep

/-!
# Replay up to a signal

A `continue` that finds the record of a signal ahead does not set a breakpoint:
`cont_to_signal` makes single steps up to the recorded address, and there one more, which
is to consume the record. This module gives the single step its target and its argument
`cont_stop`, and follows that loop.

## The model

* `Target` is the replayed process as far as the loop sees it: what the instruction at
  `eip` is, and what the process is after a step. Everything else of it is arbitrary.
* The argument `cont_stop` may be `NULL`. `stepTarget` has a flag for that; what a step
  leaves in `*cont_stop` is its result. A write through `NULL` is a `segfault`.
* `cont_to_signal` loops for as long as the target does not come to the address, so its
  loop has fuel (`contLoop`).

## What is proved

`cont_to_signal_fails`: the step at the recorded address is always made with `NULL`, by
`cont_to_signal` as by a single step of gdb, and `SN_single_step` writes through the
pointer there before it reads the record. So no record of a signal is consumed this way:
the loop ends in that write, or before it in its assertion, when the target was beyond
the address and came back.
-/

namespace Snitchaser.Replay

open Foundation Interp Log

/-- How a call in the gdbserver ends that does not return. -/
inductive Halt where
  /-- In the log: an exception or a read that waits. -/
  | stop (e : Stop)
  | fault (e : Fault)

/-- The replayed process: the instruction it stands at, and what a step makes of it. -/
structure Target (σ : Type) where
  inst : σ → Inst
  exec : σ → Outcome → σ

/-- A call in the gdbserver: it reads the log and moves the target. -/
abbrev StepM (σ : Type) := EStateM Halt (Reader × σ)

section Model

variable {σ : Type}

/-- `ptrace_get_eip`. -/
def Target.eip (t : Target σ) (s : σ) : Word := (t.inst s).eip

/-- The process as it stands. -/
def getTarget : StepM σ σ := fun (r, s) => .ok s (r, s)

/-- The process is moved. -/
def setTarget (s : σ) : StepM σ Unit := fun (r, _) => .ok () (r, s)

/-- A read of the log. -/
def liftRead {α : Type} (x : ReadM α) : StepM σ α := fun (r, s) =>
  match x.run r with
  | .ok a r' => .ok a (r', s)
  | .error e r' => .error (.stop e) (r', s)

/-- The step when no signal comes in. A system call may be broken by one. -/
def execTarget (lzo : Lzo) (signals : Signals) (t : Target σ) (contStop : Bool) : StepM σ Bool := do
  let s ← getTarget
  let out ← liftRead (stepInst lzo signals (t.inst s))
  setTarget (t.exec s out)
  return match out with
    | .signal => contStop
    | _ => false

/-- `SN_single_step`; `contStop` says that its argument is not `NULL`, and the result is
what it leaves there. -/
def stepTarget (lzo : Lzo) (signals : Signals) (t : Target σ) (contStop : Bool) : StepM σ Bool := do
  let s ← getTarget
  let mark ← liftRead (readaheadLogPtr lzo)
  if mark = signalMark then
    let marks ← liftRead (readaheadLog lzo 16)
    if (leWords 4 (marks.getD [])).getD 1 0 = t.eip s then
      -- the one write to `*cont_stop` that nothing guards
      if contStop then
        liftRead (signals.signalInst (t.eip s))
        return true
      else throw (.fault .segfault)
    else execTarget lzo signals t contStop
  else if mark = signalMark2 then
    liftRead signals.setupSighandler
    setTarget (t.exec s .signal)
    return contStop
  else if mark = sigreturnMark then
    liftRead signals.sighandlerReturn
    setTarget (t.exec s .signal)
    return contStop
  else execTarget lzo signals t contStop

/-- The loop of `cont_to_signal`, and the step behind it. -/
def contLoop (lzo : Lzo) (signals : Signals) (t : Target σ) (addr : Word) : ℕ → StepM σ Unit
  | 0 => throw (.fault .diverges)
  | fuel + 1 => do
    let s ← getTarget
    if t.eip s ≤ addr then
      if t.eip s ≠ addr then
        let contStop ← stepTarget lzo signals t true
        if contStop then pure () else contLoop lzo signals t addr fuel
      else
        let _ ← stepTarget lzo signals t false
    else throw (.fault (.assertion "curr_eip <= marks.addr"))

/-- `cont_to_signal`. -/
def contToSignal (lzo : Lzo) (signals : Signals) (t : Target σ) (fuel : ℕ) : StepM σ Unit := do
  let mark ← liftRead (readaheadLogPtr lzo)
  if mark = signalMark then
    let marks ← liftRead (readaheadLog lzo 16)
    contLoop lzo signals t ((leWords 4 (marks.getD [])).getD 1 0) fuel
  else throw (.fault (.assertion "mark == SIGNAL_MARK"))

/-- `SN_ptrace_cont` for a single step of gdb. -/
def ptraceSinglestep (lzo : Lzo) (signals : Signals) (t : Target σ) : StepM σ Unit := do
  let _ ← stepTarget lzo signals t false

/-- The target after `n` instructions that log nothing. -/
def Target.walk (t : Target σ) (s : σ) : ℕ → σ
  | 0 => s
  | n + 1 => t.walk (t.exec s .stepped) n

/-- The bytes of a signal's record. -/
def signalRecord (addr terminal signum : Word) : List Byte :=
  leBytesList [signalMark, addr, terminal, signum]

/-- From a reader `r`, a call consumed the record of a signal, and the target stands at
its address. -/
def Consumed (lzo : Lzo) (t : Target σ) (r : Reader) (addr : Word)
    (result : EStateM.Result Halt (Reader × σ) Unit) : Prop :=
  ∃ r' s', result = .ok () (r', s') ∧ t.eip s' = addr ∧
    ∃ bytes, (readLogFull lzo 16 false).run r = .ok bytes r'

theorem not_consumed_fault {lzo : Lzo} {t : Target σ} {r : Reader} {addr : Word}
    {result : EStateM.Result Halt (Reader × σ) Unit} {e : Halt} {st : Reader × σ}
    (h : result = .error e st) : ¬ Consumed lzo t r addr result := by
  rintro ⟨r', s', hok, -⟩
  rw [h] at hok
  cases hok

end Model

/-! ### The single step before and at the address -/

section Step

variable {σ : Type} {lzo : Lzo} {t : Target σ} {r : Reader} {s : σ} {addr terminal signum : Word}

theorem run_getTarget (r : Reader) (s : σ) : (getTarget : StepM σ σ).run (r, s) = .ok s (r, s) := rfl

theorem run_liftRead_ok {α : Type} {x : ReadM α} {a : α} {r' : Reader} (h : x.run r = .ok a r') :
    (liftRead x : StepM σ α).run (r, s) = .ok a (r', s) := by
  show (match x.run r with
    | .ok a r' => EStateM.Result.ok a (r', s)
    | .error e r' => EStateM.Result.error (Halt.stop e) (r', s)) = _
  rw [h]

/-- Both looks ahead find the record and leave it. -/
theorem readahead_signal (h : r.Ahead lzo (signalRecord addr terminal signum)) :
    ∃ r₁ r₂, (readaheadLogPtr lzo).run r = .ok signalMark r₁ ∧
      (readaheadLog lzo 16).run r₁ = .ok (some (signalRecord addr terminal signum)) r₂ ∧
      r₂.Ahead lzo (signalRecord addr terminal signum) := by
  obtain ⟨r₁, hmark, h₁⟩ := readaheadLogPtr_ahead h
  have h₁' : r₁.Ahead lzo (signalRecord addr terminal signum ++ []) := by
    rw [List.append_nil]
    exact .inl h₁
  obtain ⟨r₂, hmarks, h₂⟩ := h₁'.readahead (List.cons_ne_nil _ _)
  rw [List.append_nil] at h₂
  exact ⟨r₁, r₂, hmark, hmarks, .inl h₂⟩

theorem leWords_signalRecord (addr terminal signum : Word) :
    (leWords 4 ((some (signalRecord addr terminal signum)).getD [])).getD 1 0 = addr := by
  have hwords : leWords 4 (signalRecord addr terminal signum) = _ :=
    leWords_leBytesList [signalMark, addr, terminal, signum]
  rw [Option.getD_some, hwords]
  rfl

/-- **Before the address** a step with a pointer is that of the instruction; the record
stays ahead. -/
theorem stepTarget_before (signals : Signals) (h : r.Ahead lzo (signalRecord addr terminal signum))
    (hkind : Event.unlogged.Kind (t.inst s)) (hne : t.eip s ≠ addr) :
    ∃ r', (stepTarget lzo signals t true).run (r, s) = .ok false (r', t.exec s .stepped) ∧
      r'.Ahead lzo (signalRecord addr terminal signum) := by
  obtain ⟨r₁, r₂, hmark, hmarks, h₂⟩ := readahead_signal h
  have hstep : (stepInst lzo signals (t.inst s)).run r₂ = .ok .stepped r₂ := by
    rw [stepInst_unlogged signals hkind]
    rfl
  refine ⟨r₂, ?_, h₂⟩
  unfold stepTarget
  rw [run_bind_ok (run_getTarget r s), run_bind_ok (run_liftRead_ok hmark), if_pos rfl,
    run_bind_ok (run_liftRead_ok hmarks), leWords_signalRecord, if_neg (Ne.symm hne)]
  unfold execTarget
  rw [run_bind_ok (run_getTarget r₂ s), run_bind_ok (run_liftRead_ok hstep)]
  rfl

/-- **At the address** a step without a pointer writes through `NULL`. -/
theorem stepTarget_null (signals : Signals) (h : r.Ahead lzo (signalRecord addr terminal signum))
    (heq : t.eip s = addr) :
    ∃ r', (stepTarget lzo signals t false).run (r, s) = .error (.fault .segfault) (r', s) := by
  obtain ⟨r₁, r₂, hmark, hmarks, -⟩ := readahead_signal h
  refine ⟨r₂, ?_⟩
  unfold stepTarget
  rw [run_bind_ok (run_getTarget r s), run_bind_ok (run_liftRead_ok hmark), if_pos rfl,
    run_bind_ok (run_liftRead_ok hmarks), leWords_signalRecord, if_pos heq.symm]
  rfl

/-- **The loop never gets past the address**: it ends there, in the write, unless the
assertion ended it before. -/
theorem contLoop_fails (signals : Signals) {n : ℕ}
    (h : r.Ahead lzo (signalRecord addr terminal signum))
    (hwalk : ∀ k < n, Event.unlogged.Kind (t.inst (t.walk s k)))
    (hreach : t.eip (t.walk s n) = addr) (fuel : ℕ) :
    ∃ f st, (contLoop lzo signals t addr fuel).run (r, s) = .error (.fault f) st ∧
      (n < fuel → f = .segfault ∨ f = .assertion "curr_eip <= marks.addr") ∧
      (n < fuel → (∀ k ≤ n, t.eip (t.walk s k) ≤ addr) → f = .segfault) := by
  induction fuel generalizing n r s with
  | zero =>
    have hn := Nat.not_lt_zero n
    exact ⟨.diverges, (r, s), rfl, fun h => absurd h hn, fun h => absurd h hn⟩
  | succ fuel ih =>
    rw [contLoop, run_bind_ok (run_getTarget r s)]
    by_cases hle : t.eip s ≤ addr
    · by_cases heq : t.eip s = addr
      · obtain ⟨r', hnull⟩ := stepTarget_null signals h heq
        refine ⟨.segfault, (r', s), ?_, fun _ => .inl rfl, fun _ _ => rfl⟩
        rw [if_pos hle, if_neg (not_not.mpr heq), run_bind_error hnull]
      · cases n with
        | zero => exact absurd hreach heq
        | succ n =>
          have hkind : Event.unlogged.Kind (t.inst s) := hwalk 0 n.succ_pos
          obtain ⟨r₁, hstep, h₁⟩ := stepTarget_before signals h hkind heq
          obtain ⟨f, st, hrun, hf, hseg⟩ := ih h₁ (fun k hk => hwalk (k + 1) (Nat.succ_lt_succ hk)) hreach
          refine ⟨f, st, ?_, fun hn => hf (Nat.lt_of_succ_lt_succ hn), fun hn hall => ?_⟩
          · rw [if_pos hle, if_pos heq, run_bind_ok hstep]
            exact hrun
          · exact hseg (Nat.lt_of_succ_lt_succ hn) fun k hk => hall (k + 1) (Nat.succ_le_succ hk)
    · refine ⟨_, (r, s), if_neg hle ▸ rfl, fun _ => .inr rfl, fun _ hall => ?_⟩
      exact absurd (hall 0 n.zero_le) hle

end Step

/-- **No record of a signal is consumed by the step at its address.** Whatever the target
is, if it comes to the address by instructions that log nothing, then `cont_to_signal`
ends in a write through `NULL`, or before in its assertion, the latter only if it was
beyond the address on its way. A single step of gdb at the address ends in the write. -/
theorem cont_to_signal_fails {σ : Type} (lzo : Lzo) (signals : Signals) (t : Target σ) {r : Reader}
    {s : σ} {addr terminal signum : Word} (h : r.Ahead lzo (signalRecord addr terminal signum)) {n : ℕ}
    (hwalk : ∀ k < n, Event.unlogged.Kind (t.inst (t.walk s k)))
    (hreach : t.eip (t.walk s n) = addr) :
    (∀ fuel, ¬ Consumed lzo t r addr ((contToSignal lzo signals t fuel).run (r, s))) ∧
      (∀ fuel > n, ∃ f st, (contToSignal lzo signals t fuel).run (r, s) = .error (.fault f) st ∧
        (f = .segfault ∨ f = .assertion "curr_eip <= marks.addr") ∧
        ((∀ k ≤ n, t.eip (t.walk s k) ≤ addr) → f = .segfault)) ∧
      ∀ s', t.eip s' = addr →
        ¬ Consumed lzo t r addr ((ptraceSinglestep lzo signals t).run (r, s')) ∧
        ∃ r', (ptraceSinglestep lzo signals t).run (r, s') = .error (.fault .segfault) (r', s') := by
  obtain ⟨r₁, r₂, hmark, hmarks, h₂⟩ := readahead_signal h
  have hcont : ∀ fuel, (contToSignal lzo signals t fuel).run (r, s) =
      (contLoop lzo signals t addr fuel).run (r₂, s) := by
    intro fuel
    unfold contToSignal
    rw [run_bind_ok (run_liftRead_ok hmark), if_pos rfl, run_bind_ok (run_liftRead_ok hmarks),
      leWords_signalRecord]
  refine ⟨fun fuel => ?_, fun fuel hfuel => ?_, fun s' hs' => ?_⟩
  · obtain ⟨f, st, hrun, -⟩ := contLoop_fails signals h₂ hwalk hreach fuel
    exact not_consumed_fault ((hcont fuel).trans hrun)
  · obtain ⟨f, st, hrun, hf, hseg⟩ := contLoop_fails signals h₂ hwalk hreach fuel
    exact ⟨f, st, (hcont fuel).trans hrun, hf hfuel, hseg hfuel⟩
  · obtain ⟨r', hnull⟩ := stepTarget_null signals h hs'
    have hrun : (ptraceSinglestep lzo signals t).run (r, s') = .error (.fault .segfault) (r', s') := by
      unfold ptraceSinglestep
      rw [run_bind_error hnull]
    exact ⟨not_consumed_fault hrun, r', hrun⟩

/-- A program of one-byte instructions that log nothing. -/
def nops : Target Word where
  inst eip := ⟨eip, false, false, false, false, false, false, []⟩
  exec eip _ := eip + 1

/-- A log with the record of a signal, which was handled, two instructions ahead. -/
def signalAhead : Reader := ⟨[], signalRecord 0x8048002 signalHandlerMark 14⟩

theorem cont_to_signal_fails_nops :
    signalAhead.Ahead endMarked (signalRecord 0x8048002 signalHandlerMark 14) ∧
      ∀ fuel > 2, ∃ f st, (contToSignal endMarked noSignals nops fuel).run (signalAhead, 0x8048000) =
        .error (.fault f) st ∧ f = .segfault := by
  have hahead : signalAhead.Ahead endMarked (signalRecord 0x8048002 signalHandlerMark 14) :=
    .inl List.prefix_rfl
  have hle : ∀ k ≤ 2, nops.eip (nops.walk 0x8048000 k) ≤ 0x8048002 := by decide
  obtain ⟨-, hfails, -⟩ := cont_to_signal_fails endMarked noSignals nops (s := 0x8048000) (n := 2)
    hahead (fun k _ => .inl Bool.false_ne_true) rfl
  refine ⟨hahead, fun fuel hfuel => ?_⟩
  obtain ⟨f, st, hrun, -, hseg⟩ := hfails fuel hfuel
  exact ⟨f, st, hrun, hseg hle⟩

/-- The loop makes its two steps, and the third writes through `NULL`; so does a single
step of gdb there. The record is still ahead. -/
theorem cont_to_signal_null :
    nops.walk 0x8048000 2 = (0x8048002 : Word) ∧
      (contToSignal endMarked noSignals nops 10).run (signalAhead, 0x8048000) =
        .error (.fault .segfault) (signalAhead, 0x8048002) ∧
      (ptraceSinglestep endMarked noSignals nops).run (signalAhead, 0x8048002) =
        .error (.fault .segfault) (signalAhead, 0x8048002) :=
  ⟨rfl, rfl, rfl⟩

end Snitchaser.Replay
