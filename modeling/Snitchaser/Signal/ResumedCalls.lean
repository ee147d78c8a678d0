import Snitchaser.Foundation.Runs
import Snitchaser.Signal.Unwind

/-!
# System calls that are resumed

A signal can break a system call. Its handler runs on top of the call, and when it returns
the call is resumed: `common_wrapper_sigreturn` writes `SYSCALL_MARK` and its number again,
so that the replayer knows. It has the number from the frame, and the frame from
`current_syscall_nr`, which `pre_log_syscall` sets and `post_log_syscall` clears.

But `signal_handler` leaves it set. So in a handler on top of a broken call it tells the
truth only after the handler has made a system call of its own.

## The model

* `Context` says where a thread is: in a system call, or in ordinary code. Of ordinary code
  it says which call was broken below it with no call made since. No function reads it.
* `Nesting` is a thread with the contexts of what is interrupted, each with its frame;
  `CallEvent` are system calls, signals, returns, and whatever else changes its data.
* The log of `pre_log_syscall` and `post_log_syscall` is in `Replay.Record`.

## What is proved

`resumed_iff`: along every run of a thread, each return writes the mark with the number of a
system call **if and only if** it returns into that call, **exactly when** no return leads to
ordinary code that was on top of a broken call, with no call made since.
-/

namespace Snitchaser.Signal

open Foundation

/-- Where a thread is. -/
inductive Context where
  /-- In a system call, from `pre_log_syscall` to `post_log_syscall`. -/
  | inside (nr : Fin syscallTableSz)
  /-- In ordinary code; with the call that was broken below it, if none was made since. -/
  | ordinary (broken : SyscallNr)
  deriving DecidableEq, Repr

/-- What `current_syscall_nr` says there. -/
def Context.currentSyscallNr : Context → SyscallNr
  | .inside nr => some nr
  | .ordinary broken => broken

/-- Where a handler begins. -/
def Context.handler (c : Context) : Context := .ordinary c.currentSyscallNr

/-- `pre_log_syscall`, on the thread's data. -/
def preLogSyscall (tpd : Tpd) (nr : Fin syscallTableSz) : Tpd := { tpd with currentSyscallNr := some nr }

/-- `post_log_syscall`, on the thread's data. -/
def postLogSyscall (tpd : Tpd) : Tpd := { tpd with currentSyscallNr := none }

/-- A thread, with what is interrupted, the last first. -/
structure Nesting where
  tpd : Tpd
  context : Context
  interrupted : List (Context × SigFrame)
  /-- If the last event was a return: where it led, and what it logged. -/
  returned : Option (Context × List LogAction)

/-- What happens to a thread. -/
inductive CallEvent where
  | enter (nr : Fin syscallTableSz)
  | leave
  | deliver (d : Delivery)
  | sigreturn
  /-- Everything else: the number of the system call stays. -/
  | change (tpd : Tpd)

/-- Why an event is not taken: it does not happen there, or the thread faults. -/
inductive NotTaken where
  | outOfPlace
  | fault (f : Fault)

/-- One event. -/
def Nesting.step (s : Nesting) : CallEvent → Except NotTaken Nesting
  | .enter nr =>
    match s.context with
    | .ordinary _ =>
      .ok { s with tpd := preLogSyscall s.tpd nr, context := .inside nr, returned := none }
    | .inside _ => .error .outOfPlace
  | .leave =>
    match s.context with
    | .inside _ =>
      .ok { s with tpd := postLogSyscall s.tpd, context := .ordinary none, returned := none }
    | .ordinary _ => .error .outOfPlace
  | .deliver d =>
    .ok ⟨(signalHandler d s.tpd).1, s.context.handler,
      (s.context, (signalHandler d s.tpd).2.1) :: s.interrupted, none⟩
  | .sigreturn =>
    match s.context, s.interrupted with
    | .ordinary _, (context, frame) :: interrupted =>
      match commonWrapperSigreturn s.tpd frame with
      | .ok (tpd, _, log) => .ok ⟨tpd, context, interrupted, some (context, log)⟩
      | .error f => .error (.fault f)
    | _, _ => .error .outOfPlace
  | .change tpd =>
    .ok { s with tpd := { tpd with currentSyscallNr := s.tpd.currentSyscallNr }, returned := none }

/-- A thread at its start. -/
def Nesting.start (tpd : Tpd) : Nesting :=
  ⟨{ tpd with currentSyscallNr := none }, .ordinary none, [], none⟩

theorem Nesting.step_enter_eq_ok {s s' : Nesting} {nr : Fin syscallTableSz}
    (h : s.step (.enter nr) = .ok s') :
    s' = { s with tpd := preLogSyscall s.tpd nr, context := .inside nr, returned := none } := by
  rcases s with ⟨tpd, _ | broken, interrupted, returned⟩
  · cases h
  · cases h
    rfl

theorem Nesting.step_leave_eq_ok {s s' : Nesting} (h : s.step .leave = .ok s') :
    s' = { s with tpd := postLogSyscall s.tpd, context := .ordinary none, returned := none } := by
  rcases s with ⟨tpd, _ | broken, interrupted, returned⟩
  · cases h
    rfl
  · cases h

/-- What a return is. -/
theorem Nesting.step_sigreturn_eq_ok {s s' : Nesting} (h : s.step .sigreturn = .ok s') :
    ∃ context frame interrupted tpd resumed log, s.interrupted = (context, frame) :: interrupted ∧
      commonWrapperSigreturn s.tpd frame = .ok (tpd, resumed, log) ∧
      s' = ⟨tpd, context, interrupted, some (context, log)⟩ := by
  rcases s with ⟨tpd, _ | broken, _ | ⟨⟨context, frame⟩, interrupted⟩, returned⟩
  · cases h
  · cases h
  · cases h
  · cases hret : commonWrapperSigreturn tpd frame with
    | error f =>
      unfold Nesting.step at h
      dsimp only at h
      rw [hret] at h
      cases h
    | ok result =>
      unfold Nesting.step at h
      dsimp only at h
      rw [hret] at h
      cases h
      exact ⟨context, frame, interrupted, _, _, _, rfl, hret, rfl⟩

/-! ### Returns -/

/-- **Calls are resumed exactly**: a return writes the mark with a number if and only if it
leads into that call. -/
def Nesting.Resumed (s : Nesting) : Prop :=
  ∀ context log, s.returned = some (context, log) → ∀ nr : Fin syscallTableSz,
    .words [syscallMark, BitVec.ofNat 32 nr] ∈ log ↔ context = .inside nr

/-- An event that is no return to ordinary code on top of a broken call. -/
def Nesting.NotStale (s : Nesting) (e : CallEvent) : Prop :=
  e = .sigreturn → ∀ nr frame interrupted, s.interrupted ≠ (.ordinary (some nr), frame) :: interrupted

/-- `current_syscall_nr`, now and in the frames, is what the contexts say. -/
structure Nesting.Consistent (s : Nesting) : Prop where
  current : s.tpd.currentSyscallNr = s.context.currentSyscallNr
  frames : ∀ context frame, (context, frame) ∈ s.interrupted →
    frame.sc.csh = context.currentSyscallNr.toHalf

theorem SyscallNr.toHalf_some_ne (nr : Fin syscallTableSz) : toHalf (some nr) ≠ 0xffff := by
  revert nr
  decide +kernel

theorem SyscallNr.setWidth_toHalf_some (nr : Fin syscallTableSz) :
    (toHalf (some nr)).setWidth 32 = BitVec.ofNat 32 nr := by
  revert nr
  decide +kernel

theorem ofNat_syscallNr_inj {nr nr' : Fin syscallTableSz} :
    BitVec.ofNat 32 nr = BitVec.ofNat 32 nr' ↔ nr = nr' := by
  have hlt : syscallTableSz < 2 ^ 32 := by decide
  rw [← BitVec.toNat_inj, BitVec.toNat_ofNat, BitVec.toNat_ofNat, Nat.mod_eq_of_lt (nr.isLt.trans hlt),
    Nat.mod_eq_of_lt (nr'.isLt.trans hlt), Fin.ext_iff]

/-- The mark is written with the number in the frame. -/
theorem mem_sigreturnLog {frame : SigFrame} {broken : SyscallNr} (h : frame.sc.csh = broken.toHalf)
    (nr : Fin syscallTableSz) :
    .words [syscallMark, BitVec.ofNat 32 nr] ∈ sigreturnLog frame ↔ broken = some nr := by
  have hmark : LogAction.words [syscallMark, BitVec.ofNat 32 nr] ≠ .words [sigreturnMark] := by simp
  unfold sigreturnLog
  rw [h, List.mem_cons, or_iff_right hmark]
  cases broken with
  | none => simp [SyscallNr.toHalf]
  | some m =>
    rw [if_neg (SyscallNr.toHalf_some_ne m), List.mem_singleton, SyscallNr.setWidth_toHalf_some]
    simp only [LogAction.words.injEq, List.cons.injEq, true_and, and_true, ofNat_syscallNr_inj,
      Option.some.injEq, eq_comm]

/-- Only of ordinary code on top of a broken call, the number does not tell where it is. -/
theorem Context.tells_iff (c : Context) :
    (∀ nr, c.currentSyscallNr = some nr ↔ c = .inside nr) ↔ ∀ nr, c ≠ .ordinary (some nr) := by
  rcases c with nr | _ | nr
  · refine iff_of_true (fun nr' => ?_) fun nr' => by simp
    rw [Context.currentSyscallNr, Option.some.injEq, Context.inside.injEq]
  · refine iff_of_true (fun nr' => ?_) fun nr' => by simp
    simp [Context.currentSyscallNr]
  · refine iff_of_false (fun hall => ?_) fun hne => hne nr rfl
    cases (hall nr).mp rfl

/-- A return comes to the context that was interrupted. -/
theorem Nesting.Consistent.sigreturn {s s' : Nesting} (h : s.Consistent)
    (hstep : s.step .sigreturn = .ok s') :
    ∃ context frame interrupted, s.interrupted = (context, frame) :: interrupted ∧
      s'.returned = some (context, sigreturnLog frame) ∧ s'.context = context ∧
      s'.interrupted = interrupted ∧ s'.tpd.currentSyscallNr = context.currentSyscallNr ∧
      frame.sc.csh = context.currentSyscallNr.toHalf := by
  obtain ⟨context, frame, interrupted, tpd, after, log, hinterrupted, hret, rfl⟩ :=
    step_sigreturn_eq_ok hstep
  have hcsh : frame.sc.csh = context.currentSyscallNr.toHalf :=
    h.frames context frame (hinterrupted ▸ List.mem_cons_self)
  unfold commonWrapperSigreturn at hret
  rw [hcsh, resumedNr_toHalf] at hret
  cases hret
  exact ⟨context, frame, interrupted, hinterrupted, rfl, rfl, rfl, rfl, hcsh⟩

/-- **Every event keeps it.** -/
theorem Nesting.Consistent.step {s s' : Nesting} {e : CallEvent} (h : s.Consistent)
    (hstep : s.step e = .ok s') : s'.Consistent := by
  cases e with
  | enter nr =>
    rw [step_enter_eq_ok hstep]
    exact ⟨rfl, h.frames⟩
  | leave =>
    rw [step_leave_eq_ok hstep]
    exact ⟨rfl, h.frames⟩
  | deliver d =>
    cases hstep
    refine ⟨h.current, fun context frame hmem => ?_⟩
    rcases List.mem_cons.mp hmem with heq | hmem
    · cases heq
      exact congrArg SyscallNr.toHalf h.current
    · exact h.frames context frame hmem
  | sigreturn =>
    obtain ⟨context, frame, interrupted, hinterrupted, -, hcontext, hrest, hcurrent, -⟩ :=
      h.sigreturn hstep
    refine ⟨hcontext ▸ hcurrent, fun c f hmem => ?_⟩
    exact h.frames c f (hinterrupted ▸ List.mem_cons_of_mem _ (hrest ▸ hmem))
  | change tpd =>
    cases hstep
    exact ⟨h.current, h.frames⟩

/-- Only a return can go wrong. -/
theorem Nesting.resumed_of_ne {s s' : Nesting} {e : CallEvent} (hstep : s.step e = .ok s')
    (he : e ≠ .sigreturn) : s'.Resumed := by
  have hnone : s'.returned = none := by
    cases e with
    | enter nr => rw [step_enter_eq_ok hstep]
    | leave => rw [step_leave_eq_ok hstep]
    | deliver d =>
      cases hstep
      rfl
    | sigreturn => exact absurd rfl he
    | change tpd =>
      cases hstep
      rfl
  intro context log hreturned
  cases hnone.symm.trans hreturned

/-- **A return is right unless it leads to ordinary code on top of a broken call.** -/
theorem Nesting.Consistent.resumed_iff_notStale {s s' : Nesting} (h : s.Consistent)
    (hstep : s.step .sigreturn = .ok s') : s'.Resumed ↔ s.NotStale .sigreturn := by
  obtain ⟨context, frame, interrupted, hinterrupted, hreturned, -, -, -, hcsh⟩ := h.sigreturn hstep
  have hresumed : s'.Resumed ↔
      ∀ nr, context.currentSyscallNr = some nr ↔ context = .inside nr := by
    constructor
    · intro hr nr
      exact (mem_sigreturnLog hcsh nr).symm.trans (hr _ _ hreturned nr)
    · intro hall c log hlog nr
      cases hreturned.symm.trans hlog
      exact (mem_sigreturnLog hcsh nr).trans (hall nr)
  have hstale : s.NotStale .sigreturn ↔ ∀ nr, context ≠ .ordinary (some nr) := by
    unfold Nesting.NotStale
    rw [hinterrupted]
    simp
  rw [hresumed, hstale, context.tells_iff]

/-- **When interrupted calls are resumed exactly.** -/
theorem resumed_iff (tpd : Tpd) (events : List CallEvent) :
    Throughout Nesting.step Nesting.Resumed (.start tpd) events ↔
      MeetsEach Nesting.step Nesting.NotStale (.start tpd) events := by
  have hkeep : ∀ (s : Nesting) e s', s.Consistent ∧ s.Resumed → s.NotStale e → s.step e = .ok s' →
      s'.Consistent ∧ s'.Resumed := by
    intro s e s' ⟨hs, _⟩ hC hstep
    refine ⟨hs.step hstep, ?_⟩
    by_cases he : e = .sigreturn
    · subst he
      exact (hs.resumed_iff_notStale hstep).mpr hC
    · exact Nesting.resumed_of_ne hstep he
  have hbreak : ∀ (s : Nesting) e s', s.Consistent ∧ s.Resumed → ¬s.NotStale e → s.step e = .ok s' →
      ¬s'.Resumed := by
    intro s e s' ⟨hs, _⟩ hC hstep
    have he : e = .sigreturn := by
      by_contra he
      exact hC fun heq => absurd heq he
    subst he
    exact fun hr => hC ((hs.resumed_iff_notStale hstep).mp hr)
  refine throughout_iff (fun _ h => h.2) hkeep hbreak ⟨⟨rfl, ?_⟩, ?_⟩ events
  · intro context frame hmem
    cases hmem
  · intro context log hreturned
    cases hreturned

/-- Another signal, in the code of a handler. -/
def secondDelivery : Delivery :=
  { someDelivery with
    num := 10
    addr := 0x8049000
    frame := { someDelivery.frame with sc := { someDelivery.frame.sc with ip := 0x20000 } } }

theorem read_lt_syscallTableSz : 3 < syscallTableSz := by decide

/-- A `read` is broken by a signal, and its handler by another one, before it has made a
system call. The second handler returns. -/
def signalInHandler : List CallEvent :=
  [.enter ⟨3, read_lt_syscallTableSz⟩, .deliver someDelivery, .deliver secondDelivery, .sigreturn]

/-- **The mark is written though no call is resumed**: the second handler returns to the
first one. -/
theorem return_to_handler_marked :
    ∃ s, signalInHandler.foldlM Nesting.step (.start interruptedRead.tpd) = .ok s ∧
      s.returned = some (.ordinary (some ⟨3, by decide⟩),
        [.words [sigreturnMark], .words [syscallMark, 3]]) ∧
      ¬Throughout Nesting.step Nesting.Resumed (.start interruptedRead.tpd) signalInHandler := by
  refine ⟨_, rfl, rfl, fun h => ?_⟩
  have hresumed := ((((h.2 _ rfl).2 _ rfl).2 _ rfl).2 _ rfl) _ _ rfl ⟨3, by decide⟩
  cases hresumed.mp (by decide)

end Snitchaser.Signal
