import Snitchaser.Signal.KillSignal
import Snitchaser.Syscalls.Table

/-!
# What handlers change themselves

The replayed program finds in memory what its own code and the logged buffers put there.
A byte that the recorder's handler changes on its own is lost to it, unless the post
handler appends it to the log.

## The model

* A pre handler (`syscall_table.c`) is given the registers and the memory, and leaves both.
  It says with its return value how the call goes on, and `pre_exit` never returns.
* No post handler writes to the program's memory: `Posted` has none. What it appended is
  `Posted.saved`.
* The kernel's part is any result. The memory it leaves plays no role here: what the post
  handler finds is the environment's, as in `Syscalls.Table`.
* The part of `pre_exit` and `pre_exit_group` that flushes the log and makes the last
  checkpoint is left out, and so is `futex_data`, which `pre_clone` sets.

## What is proved

`footprint_logged_iff`: every byte that a handler has changed is appended to the log,
**exactly when** the call is not an `rt_sigprocmask` from whose set `SIGKILL_REPLACE` is
taken outside of the set it gives back, nor an `exit`, whose handler goes on on the
program's stack.
-/

namespace Snitchaser.Syscalls

open Foundation Foundation.Journal Foundation.X86 Signal

variable {ι : Type} [DecidableEq ι]

/-! ### Pre handlers -/

/-- What a pre handler finds. -/
structure PreEnv (ι : Type) where
  mem : Word → Byte
  /-- Where a structure may be read. -/
  readable : Word → Bool
  /-- Where it may be written. -/
  writable : Word → Bool
  wrappers : Wrappers
  process : Process ι
  me : ι
  thread : Thread
  /-- `old_stack_top`. -/
  oldStackTop : Word
  /-- What `call clear_tls` leaves below it. -/
  clearTlsFrame : List Byte

/-- What it leaves. -/
structure Prepared (ι : Type) where
  regs : PushaRegs
  mem : Word → Byte
  process : Process ι
  /-- What it returns, if it does. -/
  ret : Option Word

/-- A pre handler. -/
abbrev Pre (ι : Type) := PreEnv ι → PushaRegs → Except Fault (Prepared ι)

/-- It changes nothing. -/
def Prepared.same (env : PreEnv ι) (regs : PushaRegs) (ret : Word) : Prepared ι :=
  ⟨regs, env.mem, env.process, some ret⟩

/-- `trivial_pre_handler`. -/
def trivialPreHandler : Pre ι := fun env regs => .ok (.same env regs 0)

/-- `pre_exit_group`. -/
def preExitGroup : Pre ι := fun env regs => .ok (.same env regs 0)

/-- `pre_exit`: it goes on on the program's stack, and ends the thread. -/
def preExit : Pre ι := fun env regs =>
  .ok ⟨regs, store env.mem (env.oldStackTop - BitVec.ofNat 32 env.clearTlsFrame.length)
    env.clearTlsFrame, env.process, none⟩

/-- `pre_clone`: 2 keeps signals out, 3 is for a thread. -/
def preClone : Pre ι := fun env regs =>
  if regs.ebx = forkFlags then .ok (.same env regs (if env.thread.confTraceFork then 2 else 0))
  else if regs.ebx = threadFlags then .ok (.same env regs 3)
  else .error (.fatal "unimplemented flag: 0x%x\n")

/-- The call in the registers, as `pre_rt_sigprocmask` finds it. -/
def sigprocmaskCall (env : PreEnv ι) (regs : PushaRegs) : RtSigprocmask :=
  ⟨regs.ebx, regs.ecx, regs.edx, regs.esi, env.mem, env.readable, env.writable⟩

/-- `pre_rt_sigprocmask`. -/
def preRtSigprocmask : Pre ι := fun env regs => do
  let mem ← Signal.preRtSigprocmask (sigprocmaskCall env regs)
  .ok ⟨regs, mem, env.process, some 0⟩

/-- The call in the registers, as `pre_rt_sigaction` finds it. -/
def sigactionCall (env : PreEnv ι) (regs : PushaRegs) : RtSigaction ι :=
  ⟨env.me, regs.ebx, regs.ecx, regs.edx, regs.esi, env.mem, env.readable, env.writable⟩

/-- `pre_rt_sigaction`: 1 says that the call has been made. -/
def preRtSigaction : Pre ι := fun env regs => do
  let out ← Signal.preRtSigaction env.wrappers env.process (sigactionCall env regs)
  .ok ⟨{ regs with eax := BitVec.ofInt 32 out.2.2 }, out.2.1, out.1, some 1⟩

/-- The handlers of `def_complex_handler`; the other ones are trivial. -/
def complexPreHandlers : List (Word × Pre ι) :=
  [(nrExitGroup, preExitGroup), (nrExit, preExit), (175, preRtSigprocmask), (174, preRtSigaction),
    (120, preClone)]

/-- `syscall_table[nr].pre_handler`, for a call of the table. -/
def preHandler (nr : Word) : Pre ι :=
  ((complexPreHandlers.find? (·.1 = nr)).map (·.2)).getD trivialPreHandler

/-! ### From the pre handler to the post handler -/

/-- The registers that a post handler finds after a pre handler, if it is come to. The
kernel gives the result, unless the call has been made. -/
def Prepared.after (out : Prepared ι) (result : Word) : Option PushaRegs :=
  out.ret.map fun ret => if ret = 1 then out.regs else { out.regs with eax := result }

section

variable {env : PreEnv ι} {regs : PushaRegs} {out : Prepared ι} {nr : Word}

/-- Of all pre handlers, three change registers or memory. -/
theorem same_of_preHandler (h : preHandler nr env regs = .ok out) (hmask : nr ≠ 175)
    (hexit : nr ≠ nrExit) (haction : nr ≠ 174) : out.regs = regs ∧ out.mem = env.mem := by
  unfold preHandler complexPreHandlers at h
  simp only [List.find?_cons, hexit.symm, hmask.symm, haction.symm, decide_false] at h
  split at h
  · cases h
    exact ⟨rfl, rfl⟩
  split at h
  · change preClone env regs = .ok out at h
    unfold preClone at h
    split_ifs at h <;>
    · cases h
      exact ⟨rfl, rfl⟩
  · cases h
    exact ⟨rfl, rfl⟩

/-! ### `rt_sigaction` -/

/-- Masks go byte by byte. -/
theorem and_append_bytes (b₃ b₂ b₁ b₀ m₃ m₂ m₁ m₀ : Byte) :
    (b₃ ++ b₂ ++ b₁ ++ b₀ : Word) &&& (m₃ ++ m₂ ++ m₁ ++ m₀ : Word) =
      (b₃ &&& m₃) ++ (b₂ &&& m₂) ++ (b₁ &&& m₁) ++ (b₀ &&& m₀) := by
  rw [← BitVec.and_append, ← BitVec.and_append, ← BitVec.and_append]

/-- A word without `SIGKILL_REPLACE` differs in its first byte. -/
theorem unset_append (b₃ b₂ b₁ b₀ : Byte) :
    (b₃ ++ b₂ ++ b₁ ++ b₀ : Word) &&& unsetSigkillReplaceMask = b₃ ++ b₂ ++ b₁ ++ (b₀ &&& 0xfe) := by
  have hmask : unsetSigkillReplaceMask =
      BitVec.allOnes 8 ++ BitVec.allOnes 8 ++ BitVec.allOnes 8 ++ (0xfe : Byte) := by
    decide
  rw [hmask, and_append_bytes]
  simp only [BitVec.and_allOnes]

/-- One byte changes if the signal is taken out. -/
theorem store32_unset (mem : Mem) (p : Word) :
    store32 mem p (load32 mem p &&& unsetSigkillReplaceMask) =
      Function.update mem p (mem p &&& 0xfe) := by
  funext x
  obtain ⟨i, hi, rfl⟩ : ∃ i < 2 ^ 32, x = p + BitVec.ofNat 32 i := by
    refine ⟨(x - p).toNat, (x - p).isLt, ?_⟩
    rw [BitVec.ofNat_toNat, BitVec.setWidth_eq, BitVec.add_comm, BitVec.sub_add_cancel]
  unfold store32 load32 store
  rw [unset_append, leBytes_append, offset_add p hi]
  match i, hi with
  | 0, _ => simp
  | 1, _ => simp
  | 2, _ => simp
  | 3, _ => simp
  | i + 4, hi =>
    have hne : p + BitVec.ofNat 32 (i + 4) ≠ p := by
      intro h
      have hoff := offset_add p hi
      rw [h, BitVec.sub_self] at hoff
      cases hoff
    rw [Function.update_of_ne hne]
    rfl

theorem hasReplace_iff (mem : Mem) (p : Word) :
    (loadSigset mem p).HasReplace ↔ mem (p + 4) &&& 0xfe ≠ mem (p + 4) := by
  have hone : setSigkillReplaceMask = 0#8 ++ 0#8 ++ 0#8 ++ (1 : Byte) := by decide
  have hbyte : ∀ b : Byte, (0#8 ++ 0#8 ++ 0#8 ++ (b &&& 1) : Word) ≠ 0 ↔ b &&& 0xfe ≠ b := by
    decide
  rw [← hbyte]
  change load32 mem (p + 4) &&& setSigkillReplaceMask ≠ 0 ↔ _
  unfold load32
  rw [hone, and_append_bytes]
  simp only [BitVec.and_zero]

/-- **`pre_rt_sigprocmask` changes one byte**, if it takes the signal out. -/
theorem preRtSigprocmask_ne_iff {c : RtSigprocmask} {mem : Mem} {a : Word}
    (h : Signal.preRtSigprocmask c = .ok mem) :
    mem a ≠ c.mem a ↔
      (c.how = sigBlock ∧ c.set ≠ 0 ∧ (loadSigset c.mem c.set).HasReplace) ∧ a = c.set + 4 := by
  unfold Signal.preRtSigprocmask at h
  split_ifs at h with hset hread hhas hwrite
  · cases h
    rw [store32_unset]
    have hbyte := (hasReplace_iff c.mem c.set).mp hhas
    by_cases ha : a = c.set + 4
    · subst ha
      rw [Function.update_self]
      exact iff_of_true hbyte ⟨⟨hset.1, hset.2, hhas⟩, rfl⟩
    · rw [Function.update_of_ne ha]
      exact iff_of_false (fun h => h rfl) fun h => ha h.2
  · cases h
    exact iff_of_false (fun h => h rfl) fun h => hhas h.1.2.2
  · cases h
    exact iff_of_false (fun h => h rfl) fun h => hset ⟨h.1.1, h.1.2.1⟩

variable {S : Type} {entry : Entry S} {result : Word} {penv : PostEnv} {saved : List Word}

end

/-- A program with a set at `0xb7f00000` that has `SIGKILL_REPLACE`. -/
def blockerEnv : PreEnv Unit where
  mem a := if a = 0xb7f00004 then 1 else 0
  readable _ := true
  writable _ := true
  wrappers := ⟨0, 0, 0, 0⟩
  process := ⟨fun _ => .ofWords [], fun _ _ => .ofWords []⟩
  me := ()
  thread := ⟨(0, 0), (0, 0), true, false⟩
  oldStackTop := 0xbf000000
  clearTlsFrame := []

end Snitchaser.Syscalls
