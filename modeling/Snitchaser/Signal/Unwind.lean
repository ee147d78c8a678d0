import Snitchaser.Common.Marks
import Snitchaser.Compiler.CodeCache

/-!
# Signals and their unwinding

`signal_handler` and `common_wrapper_sigreturn` of `arch_signal.c`: what a signal
interrupts is packed into unused parts of the frame the kernel pushed, the upper halves
of the segment selectors and the `retcode` bytes, and unpacked when the handler returns.

## The model

* `Sigcontext` and `SigFrame` hold the parts of the frame the two functions touch; the
  rest of it they only copy to the log.
* `Tpd` is the part of `struct thread_private_data` they read or write. The number of
  the current system call is `-1` or an index of the table of 512, as `pre_log_syscall`
  asserts; so the assertion of `signal_handler` always holds.
* `Event`, `step` and `run`: deliveries push a frame on the user's stack, returns take
  the last one off, and in between the program changes the thread's data as it likes.

## What is proved

`sigreturn_restores`: whatever happens between a delivery and its return, as long as
deliveries and returns in between match, the return succeeds and brings back what the
delivery found.
-/

namespace Snitchaser.Signal

open Foundation.X86 Compiler

/-- There are 64 signals. -/
instance neZeroSignals : NeZero 64 := ⟨by decide⟩

/-- A signal set, `k_sigset_t` or `uint32_t[2]`. -/
structure Sigset where
  lo : Word
  hi : Word
  deriving DecidableEq, Repr

/-- `struct k_sigaction`, as far as it is used. -/
structure KSigaction where
  saHandler : Word
  saMask : Sigset
  deriving DecidableEq, Repr

/-- `SIG_DFL`. -/
def sigDfl : Word := 0

/-- `SIG_IGN`. -/
def sigIgn : Word := 1

/-- `SYSCALL_TABLE_SZ`. -/
def syscallTableSz : ℕ := 512

/-- `current_syscall_nr`: none stands for `-1`. -/
abbrev SyscallNr := Option (Fin syscallTableSz)

/-- `__NR_rt_sigsuspend`. -/
def nrRtSigsuspend : Fin syscallTableSz := ⟨179, by decide⟩

/-- The parts of `struct sigcontext` that are read or written here. -/
structure Sigcontext where
  /-- `__gsh`. -/
  gsh : BitVec 16
  /-- `__fsh`. -/
  fsh : BitVec 16
  /-- `__esh`. -/
  esh : BitVec 16
  ds : BitVec 16
  /-- `__dsh`. -/
  dsh : BitVec 16
  bx : Word
  ip : Word
  /-- `__csh`. -/
  csh : BitVec 16
  ss : BitVec 16
  /-- `__ssh`. -/
  ssh : BitVec 16
  deriving DecidableEq, Repr

/-- `struct sigframe` or `struct rt_sigframe`: the context, and the eight bytes of
`retcode` as two words. -/
structure SigFrame where
  sc : Sigcontext
  backup0 : Word
  backup1 : Word
  deriving DecidableEq, Repr

/-- The thread's data. -/
structure Tpd where
  target : Word
  oldStackTop : Word
  codeCache : CodeCache
  unblockSigmask : Sigset
  /-- `sigactions`, by the signal number less one. -/
  sigactions : Fin 64 → KSigaction
  currentSyscallNr : SyscallNr

/-- What is written to the log. -/
inductive LogAction where
  /-- `append_buffer` of a structure of words. -/
  | words (ws : List Word)
  /-- `append_buffer` of the frame. -/
  | frame (f : SigFrame)
  /-- `flush_logger`. -/
  | flush
  deriving DecidableEq, Repr

/-- What a delivery finds: the signal, the interrupted address of the program, the
registers, the frame the kernel pushed with its size, and the user's memory. -/
structure Delivery where
  /-- The signal number less one. -/
  num : Fin 64
  addr : Word
  regs : PushaRegs
  frame : SigFrame
  frameSz : Word
  mem : Mem
  /-- The address of `after_normal_int80`. -/
  afterNormalInt80 : Word

/-- The lower half of a word. -/
def lowHalf (x : Word) : BitVec 16 := (x &&& 0xffff).setWidth 16

/-- The upper half of a word. -/
def highHalf (x : Word) : BitVec 16 := (x >>> 16).setWidth 16

/-- `(hi << 16) | lo`. -/
def joinHalves (hi lo : BitVec 16) : Word := hi.setWidth 32 <<< 16 ||| lo.setWidth 32

/-- What goes to `__csh`. -/
def SyscallNr.toHalf : SyscallNr → BitVec 16
  | none => 0xffff
  | some nr => BitVec.ofNat 16 nr

/-- `correct_sigsuspend`, on the new mask. -/
def correctSigsuspend (d : Delivery) (oriIp : Word) (mask : Sigset) : Sigset :=
  if oriIp = d.afterNormalInt80 then
    if d.frame.sc.bx = 0 then mask
    else ⟨mask.lo ||| load32 d.mem d.frame.sc.bx, mask.hi ||| load32 d.mem (d.frame.sc.bx + 4)⟩
  else mask

/-- The mask while the handler runs. `1UL << (_num % 64)` is a shift of a 32-bit word,
of which the processor takes the count modulo 32, and `_num / 64` is 0. -/
def handlerMask (d : Delivery) (tpd : Tpd) : Sigset :=
  let mask := (tpd.sigactions d.num).saMask
  let mask :=
    if tpd.currentSyscallNr = some nrRtSigsuspend then correctSigsuspend d d.frame.sc.ip mask else mask
  { mask with lo := mask.lo ||| 1 <<< (d.num.val % 64 % 32) }

/-- The frame as it goes to the log: with the address of the program, the saved words
and the number of the system call. -/
def loggedFrame (d : Delivery) (tpd : Tpd) : SigFrame where
  sc := { d.frame.sc with ip := d.addr, csh := tpd.currentSyscallNr.toHalf }
  backup0 := d.frame.sc.ip
  backup1 := tpd.target

/-- The frame the handler runs with: the mask and the current block are packed in, too. -/
def packedFrame (d : Delivery) (tpd : Tpd) : SigFrame :=
  { loggedFrame d tpd with
    sc := { (loggedFrame d tpd).sc with
      gsh := lowHalf tpd.unblockSigmask.lo
      fsh := highHalf tpd.unblockSigmask.lo
      esh := lowHalf tpd.unblockSigmask.hi
      dsh := highHalf tpd.unblockSigmask.hi
      ssh := lowHalf tpd.codeCache.currentBlock
      ss := highHalf tpd.codeCache.currentBlock } }

/-- **`signal_handler`**, with the frame it leaves and what it logs. -/
def signalHandler (d : Delivery) (tpd : Tpd) : Tpd × SigFrame × List LogAction :=
  let handler := (tpd.sigactions d.num).saHandler
  ({ tpd with target := handler, unblockSigmask := handlerMask d tpd }, packedFrame d tpd,
    [.words [signalMark, d.addr, signalHandlerMark, BitVec.ofNat 32 (d.num + 1)],
     .words (signalMark2 :: { d.regs with esp := tpd.oldStackTop }.words ++ [d.frameSz, handler]),
     .frame (loggedFrame d tpd), .flush])

/-- `psc->__csh` as the number of a system call. A number that is none of the table's was
not written by `signal_handler`. -/
def resumedNr (csh : BitVec 16) : Except Fault SyscallNr :=
  if csh = 0xffff then .ok none
  else if h : csh.toNat < syscallTableSz then .ok (some ⟨csh.toNat, h⟩) else .error .segfault

/-- The frame the kernel returns through. -/
def resumedFrame (frame : SigFrame) : SigFrame :=
  { frame with sc := { frame.sc with ip := frame.backup0, ss := frame.sc.ds } }

/-- What a return logs. -/
def sigreturnLog (frame : SigFrame) : List LogAction :=
  .words [sigreturnMark] ::
    if frame.sc.csh = 0xffff then [] else [.words [syscallMark, frame.sc.csh.setWidth 32]]

/-- **`common_wrapper_sigreturn`**, with the frame the kernel then returns through and
what it logs. -/
def commonWrapperSigreturn (tpd : Tpd) (frame : SigFrame) :
    Except Fault (Tpd × SigFrame × List LogAction) := do
  let nr ← resumedNr frame.sc.csh
  .ok ({ tpd with
          target := frame.backup1
          currentSyscallNr := nr
          unblockSigmask :=
            ⟨joinHalves frame.sc.fsh frame.sc.gsh, joinHalves frame.sc.dsh frame.sc.esh⟩
          codeCache :=
            { tpd.codeCache with currentBlock := joinHalves frame.sc.ss frame.sc.ssh } },
    resumedFrame frame, sigreturnLog frame)

/-! ### Packing -/

/-- A word is its halves. -/
theorem joinHalves_halves (x : Word) : joinHalves (highHalf x) (lowHalf x) = x := by
  have hmask : ∀ i < 16, (0xffff : Word).getLsbD i = true := by decide
  refine BitVec.eq_of_getLsbD_eq fun i hi => ?_
  unfold joinHalves highHalf lowHalf
  rw [BitVec.getLsbD_or, BitVec.getLsbD_shiftLeft]
  simp only [BitVec.getLsbD_setWidth, BitVec.getLsbD_ushiftRight, BitVec.getLsbD_and]
  by_cases h : i < 16
  · rw [hmask i h]
    simp [h, hi]
  · have hlt : i - 16 < 16 := by omega
    have hlt' : i - 16 < 32 := by omega
    have hadd : 16 + (i - 16) = i := by omega
    simp [h, hi, hlt, hlt', hadd]

/-- The number of a system call comes back from sixteen bits. -/
theorem resumedNr_toHalf (nr : SyscallNr) : resumedNr nr.toHalf = .ok nr := by
  revert nr
  decide +kernel

/-- The thread's data `tpd'` with what a delivery saves of `tpd`. -/
def Tpd.restore (tpd' tpd : Tpd) : Tpd :=
  { tpd' with
    target := tpd.target
    currentSyscallNr := tpd.currentSyscallNr
    unblockSigmask := tpd.unblockSigmask
    codeCache := { tpd'.codeCache with currentBlock := tpd.codeCache.currentBlock } }

/-- **A return undoes its delivery**, whatever became of the thread's data. -/
theorem sigreturn_packedFrame (d : Delivery) (tpd tpd' : Tpd) :
    commonWrapperSigreturn tpd' (packedFrame d tpd) =
      .ok (tpd'.restore tpd, resumedFrame (packedFrame d tpd), sigreturnLog (packedFrame d tpd)) := by
  unfold commonWrapperSigreturn Tpd.restore
  rw [show (packedFrame d tpd).sc.csh = tpd.currentSyscallNr.toHalf from rfl, resumedNr_toHalf]
  simp only [bind, Except.bind, packedFrame, loggedFrame, joinHalves_halves]

/-! ### Nested deliveries -/

/-- What happens to a thread. -/
inductive Event where
  /-- A signal is delivered. -/
  | deliver (d : Delivery)
  /-- The handler that was entered last returns. -/
  | sigreturn
  /-- The program runs, and the thread's data change. -/
  | change (tpd : Tpd)

/-- A thread: its data, the frames of the handlers it is in, the last one entered
first, and the frame the last return went through. -/
structure Thread where
  tpd : Tpd
  frames : List SigFrame
  resumed : Option SigFrame

/-- A signal is delivered to a thread. -/
def Thread.deliver (s : Thread) (d : Delivery) : Thread :=
  { s with tpd := (signalHandler d s.tpd).1, frames := (signalHandler d s.tpd).2.1 :: s.frames }

/-- One event. -/
def step (s : Thread) : Event → Except Fault Thread
  | .deliver d => .ok (s.deliver d)
  | .sigreturn =>
    match s.frames with
    | [] => .error .segfault
    | frame :: frames => do
      let (tpd, frame, _) ← commonWrapperSigreturn s.tpd frame
      .ok ⟨tpd, frames, some frame⟩
  | .change tpd => .ok { s with tpd := tpd }

/-- Events one after the other. -/
def run (s : Thread) (events : List Event) : Except Fault Thread := events.foldlM step s

/-- Every delivery has its return. -/
inductive Balanced : List Event → Prop
  | nil : Balanced []
  | change (tpd : Tpd) {events : List Event} : Balanced events → Balanced (.change tpd :: events)
  | signal (d : Delivery) {body events : List Event} : Balanced body → Balanced events →
      Balanced (.deliver d :: (body ++ .sigreturn :: events))

theorem run_append (s : Thread) (es es' : List Event) :
    run s (es ++ es') = run s es >>= fun s' => run s' es' := by
  unfold run
  rw [List.foldlM_append]

/-- **A return with the frame of a delivery on top** brings back what the delivery found. -/
theorem step_sigreturn {s₁ s : Thread} {d : Delivery} (h : s₁.frames = (s.deliver d).frames) :
    step s₁ .sigreturn =
      .ok ⟨s₁.tpd.restore s.tpd, s.frames, some (resumedFrame (packedFrame d s.tpd))⟩ := by
  unfold step
  rw [h]
  show (commonWrapperSigreturn s₁.tpd (packedFrame d s.tpd) >>= _) = _
  rw [sigreturn_packedFrame]
  rfl

/-- **Balanced events run through**, and leave the frames as they were. -/
theorem run_balanced {events : List Event} (h : Balanced events) (s : Thread) :
    ∃ s', run s events = .ok s' ∧ s'.frames = s.frames := by
  induction h generalizing s with
  | nil => exact ⟨s, rfl, rfl⟩
  | change tpd _ ih => exact ih { s with tpd := tpd }
  | signal d _ _ ihbody ih =>
    obtain ⟨s₁, hs₁, hf₁⟩ := ihbody (s.deliver d)
    obtain ⟨s₂, hs₂, hf₂⟩ := ih
      ⟨s₁.tpd.restore s.tpd, s.frames, some (resumedFrame (packedFrame d s.tpd))⟩
    refine ⟨s₂, ?_, hf₂⟩
    show run (s.deliver d) _ = _
    rw [run_append, hs₁]
    show (step s₁ .sigreturn >>= _) = _
    rw [step_sigreturn hf₁]
    exact hs₂

/-- **Nested signals unwind exactly.** A signal is delivered to a thread, any balanced
events follow, and the handler returns: the return succeeds, the frame the kernel
returns through has the interrupted `ip` and `ss`, and the target, the signal mask, the
current block and the system call are those of the delivery. -/
theorem sigreturn_restores (s : Thread) (d : Delivery) (hss : d.frame.sc.ss = d.frame.sc.ds)
    {body : List Event} (hbody : Balanced body) :
    ∃ s' frame, run s (.deliver d :: (body ++ [.sigreturn])) = .ok s' ∧ s'.frames = s.frames ∧
      s'.resumed = some frame ∧ frame.sc.ip = d.frame.sc.ip ∧ frame.sc.ss = d.frame.sc.ss ∧
      s'.tpd.target = s.tpd.target ∧ s'.tpd.unblockSigmask = s.tpd.unblockSigmask ∧
      s'.tpd.codeCache.currentBlock = s.tpd.codeCache.currentBlock ∧
      s'.tpd.currentSyscallNr = s.tpd.currentSyscallNr := by
  obtain ⟨s₁, hs₁, hf₁⟩ := run_balanced hbody (s.deliver d)
  refine ⟨⟨s₁.tpd.restore s.tpd, s.frames, some (resumedFrame (packedFrame d s.tpd))⟩,
    resumedFrame (packedFrame d s.tpd), ?_, rfl, rfl, rfl, hss.symm, rfl, rfl, rfl, rfl⟩
  show run (s.deliver d) _ = _
  rw [run_append, hs₁]
  show (step s₁ .sigreturn >>= _) = _
  rw [step_sigreturn hf₁]
  rfl

/-- A thread in system call 3 with a mask, in a block at `0x12345678`. -/
def interruptedRead : Thread where
  tpd :=
    { target := 0x8048000
      oldStackTop := 0xbffff000
      codeCache := { initCodeCache 0x500 with currentBlock := 0x12345678 }
      unblockSigmask := ⟨0x80000001, 0xffff0000⟩
      sigactions := fun _ => ⟨0x8049000, ⟨0, 0⟩⟩
      currentSyscallNr := some ⟨3, by decide⟩ }
  frames := []
  resumed := none

/-- A first signal, at the system call. -/
def someDelivery : Delivery where
  num := 9
  addr := 0x8048002
  regs := ⟨0x202, 0, 0, 0, 0, 0, 0, 0, 0⟩
  frame := ⟨⟨0, 0, 0, 0x7b, 0, 0, 0x10020, 0, 0x7b, 0⟩, 0, 0⟩
  frameSz := 732
  mem := fun _ => 0
  afterNormalInt80 := 0x10020

/-- A signal in a handler, after the handler has changed everything. -/
theorem sigreturn_restores_nested :
    ∃ s' frame, run interruptedRead (.deliver someDelivery ::
        ([.change ⟨1, 2, initCodeCache 7, ⟨3, 4⟩, fun _ => ⟨5, ⟨6, 7⟩⟩, none⟩,
          .deliver someDelivery, .sigreturn] ++ [.sigreturn])) = .ok s' ∧
      s'.frames = [] ∧ s'.resumed = some frame ∧ frame.sc.ip = 0x10020 ∧ frame.sc.ss = 0x7b ∧
      s'.tpd.target = 0x8048000 ∧ s'.tpd.unblockSigmask = ⟨0x80000001, 0xffff0000⟩ ∧
      s'.tpd.codeCache.currentBlock = 0x12345678 ∧
      s'.tpd.currentSyscallNr = some ⟨3, by decide⟩ :=
  sigreturn_restores interruptedRead someDelivery rfl (.change _ (.signal _ .nil .nil))

end Snitchaser.Signal
