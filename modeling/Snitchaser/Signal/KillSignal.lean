import Snitchaser.Foundation.Runs
import Snitchaser.Signal.Actions

/-!
# The stand-in for `SIGKILL`

The recorder stops its threads with signal 33, `SIGKILL_REPLACE`, which no thread may
therefore block. `pre_rt_sigaction` and `pre_rt_sigprocmask` take it out of the sets the
program gives. What a thread blocks while its own code runs is `tpd->unblock_sigmask`.

## The model

* `RtSigprocmask` is a call of `rt_sigprocmask` with the memory it finds. It is made
  between two calls of the interpreter's own: `UNBLOCK_SIGPROCMASK` sets the mask of the
  thread, and `BLOCK_SIGPROCMASK` takes what it has become (`current_sigmask`).
* `System` is the process with its threads, and the frames of the handlers they are in,
  each with its signal. The table of a thread is the one in `Process`.
* `SigEvent`: calls of `rt_sigprocmask` and `rt_sigaction`, deliveries and returns, each of
  any thread. In between a thread changes its other data as it likes, but not the frames.
* Only a signal with a handler changes masks. The other ones are ignored, or end the
  process.

## What is proved

`killable_iff`: along a run from a state in which `SIGKILL_REPLACE` is not blocked, it is
blocked by no action, and by no thread outside of its own handler, **exactly when** no
call sets a mask with it (`SIG_SETMASK`), and no signal breaks an `rt_sigsuspend` on a mask
with it. These two ways round the filter are open.
-/

namespace Snitchaser.Signal

open Foundation Foundation.X86 Compiler

/-- `SIG_BLOCK`. -/
def sigBlock : Word := 0

/-- `SIG_UNBLOCK`. -/
def sigUnblock : Word := 1

/-- `SIG_SETMASK`. -/
def sigSetmask : Word := 2

/-- `SIGKILL_REPLACE`, by its place in the tables. -/
def sigkillReplace : Fin 64 := 32

/-- The set has `SIGKILL_REPLACE`. -/
def Sigset.HasReplace (m : Sigset) : Prop := m.hi &&& setSigkillReplaceMask ≠ 0

instance (m : Sigset) : Decidable m.HasReplace := inferInstanceAs (Decidable (_ ≠ _))

/-- The set at an address. -/
def loadSigset (mem : Mem) (p : Word) : Sigset := ⟨load32 mem p, load32 mem (p + 4)⟩

/-- The set is written at an address. -/
def storeSigset (mem : Mem) (p : Word) (m : Sigset) : Mem := store mem p (leBytesList [m.lo, m.hi])

/-- A call of `rt_sigprocmask`. -/
structure RtSigprocmask where
  how : Word
  set : Word
  oset : Word
  sigsetsize : Word
  mem : Mem
  readable : Word → Bool
  writable : Word → Bool

/-- `pre_rt_sigprocmask`, with the memory it leaves. -/
def preRtSigprocmask (c : RtSigprocmask) : Except Fault Mem :=
  if c.how = sigBlock ∧ c.set ≠ 0 then
    if ¬ c.readable c.set then .error .segfault
    else if (loadSigset c.mem c.set).HasReplace then
      if ¬ c.writable c.set then .error .segfault
      else .ok (store32 c.mem (c.set + 4) (load32 c.mem (c.set + 4) &&& unsetSigkillReplaceMask))
    else .ok c.mem
  else .ok c.mem

/-- A mask as the kernel keeps it. -/
def keptMask (m : Sigset) : Sigset := { m with lo := m.lo &&& ~~~ 0x40100 }

/-- The mask a call asks for. -/
def changedMask (how : Word) (old set : Sigset) : Option Sigset :=
  if how = sigBlock then some ⟨old.lo ||| set.lo, old.hi ||| set.hi⟩
  else if how = sigUnblock then some ⟨old.lo &&& ~~~ set.lo, old.hi &&& ~~~ set.hi⟩
  else if how = sigSetmask then some set
  else none

/-- The end of the system call: the old mask is given. -/
def RtSigprocmask.give (c : RtSigprocmask) (old : Sigset) (mem : Mem) (mask : Sigset) : Sigset × Mem × ℤ :=
  if c.oset = 0 then (mask, mem, 0)
  else if c.writable c.oset then (mask, storeSigset mem c.oset old, 0)
  else (mask, mem, eFault)

/-- The mask after the system call `rt_sigprocmask`, the memory, and what it returns. -/
def kernelSigprocmask (old : Sigset) (c : RtSigprocmask) (mem : Mem) : Sigset × Mem × ℤ :=
  if c.sigsetsize ≠ 8 then (old, mem, eInval)
  else if c.set = 0 then c.give old mem old
  else if ¬ c.readable c.set then (old, mem, eFault)
  else
    match changedMask c.how old (keptMask (loadSigset mem c.set)) with
    | none => (old, mem, eInval)
    | some mask => c.give old mem mask

/-- **`rt_sigprocmask` as the program sees it**, with the new `unblock_sigmask`. -/
def rtSigprocmask (unblock : Sigset) (c : RtSigprocmask) : Except Fault Sigset := do
  let mem ← preRtSigprocmask c
  match kernelSigprocmask (keptMask unblock) c mem with
  | (current, mem, ret) =>
    -- `post_rt_sigprocmask`
    if 0 ≤ ret then do
      assert (c.oset = 0 ∨ loadSigset mem c.oset = unblock)
        "memcmp(oset, tpd->unblock_sigmask, SIGSET_SZ) == 0"
      .ok current
    else .ok unblock

/-- A thread, and the handlers it is in, the last one entered first. -/
structure MaskThread where
  tpd : Tpd
  frames : List (Fin 64 × SigFrame)

/-- The process and its threads. -/
structure System (ι : Type) where
  proc : Process ι
  threads : ι → MaskThread

/-- What happens to it. -/
inductive SigEvent (ι : Type) where
  | sigprocmask (t : ι) (c : RtSigprocmask)
  | sigaction (c : RtSigaction ι)
  /-- A signal is delivered to a thread. -/
  | deliver (t : ι) (d : Delivery)
  | sigreturn (t : ι)
  /-- A thread goes on, and its data change, but for the mask. -/
  | change (t : ι) (tpd : Tpd)

section System

variable {ι : Type}

/-- The data of a thread, with its table. -/
def System.tpd (s : System ι) (t : ι) : Tpd :=
  { (s.threads t).tpd with sigactions := fun i => (s.proc.tables t i).toKSigaction }

/-- `unblock_sigmask`. -/
def System.mask (s : System ι) (t : ι) : Sigset := (s.threads t).tpd.unblockSigmask

variable [DecidableEq ι]

/-- A thread is changed. -/
def System.setThread (s : System ι) (t : ι) (thread : MaskThread) : System ι :=
  { s with threads := Function.update s.threads t thread }

/-- One event. -/
def sigStep (w : Wrappers) (s : System ι) : SigEvent ι → Except Fault (System ι)
  | .sigprocmask t c => do
    let mask ← rtSigprocmask (s.mask t) c
    .ok (s.setThread t { s.threads t with tpd := { s.tpd t with unblockSigmask := mask } })
  | .sigaction c => do
    let (proc, _, _) ← preRtSigaction w s.proc c
    .ok { s with proc := proc }
  | .deliver t d =>
    if (s.proc.tables t d.num).saHandler = sigDfl ∨ (s.proc.tables t d.num).saHandler = sigIgn then .ok s
    else
      .ok (s.setThread t
        { tpd := (signalHandler d (s.tpd t)).1
          frames := (d.num, (signalHandler d (s.tpd t)).2.1) :: (s.threads t).frames })
  | .sigreturn t =>
    match (s.threads t).frames with
    | [] => .error .segfault
    | (_, frame) :: frames => do
      let (tpd, _, _) ← commonWrapperSigreturn (s.tpd t) frame
      .ok (s.setThread t ⟨tpd, frames⟩)
  | .change t tpd =>
    .ok (s.setThread t { s.threads t with tpd := { tpd with unblockSigmask := s.mask t } })

/-- A thread is in a handler of `SIGKILL_REPLACE`. -/
def System.Handling (s : System ι) (t : ι) : Prop := ∃ f ∈ (s.threads t).frames, f.1 = sigkillReplace

/-- **`SIGKILL_REPLACE` can get through**: a thread blocks it only in its own handler, and no
action does. -/
def System.Killable (s : System ι) : Prop :=
  (∀ t, (s.mask t).HasReplace → s.Handling t) ∧ ∀ t i, ¬ (s.proc.tables t i).saMask.HasReplace

end System

/-- A successful call sets a mask with `SIGKILL_REPLACE`. -/
def RtSigprocmask.SetsReplace (c : RtSigprocmask) : Prop :=
  c.how = sigSetmask ∧ c.sigsetsize = 8 ∧ c.set ≠ 0 ∧ c.readable c.set ∧
    (c.oset = 0 ∨ c.writable c.oset) ∧ (loadSigset c.mem c.set).HasReplace

/-- A signal breaks an `rt_sigsuspend` on a mask with `SIGKILL_REPLACE`. -/
def Delivery.SuspendsReplace (d : Delivery) (tpd : Tpd) : Prop :=
  tpd.currentSyscallNr = some nrRtSigsuspend ∧ d.frame.sc.ip = d.afterNormalInt80 ∧
    d.frame.sc.bx ≠ 0 ∧ (loadSigset d.mem d.frame.sc.bx).HasReplace

/-- The event does not block `SIGKILL_REPLACE`, or does so in its own handler. -/
def SigEvent.Harmless {ι : Type} (s : System ι) : SigEvent ι → Prop
  | .sigprocmask t c => c.SetsReplace → s.Handling t
  | .deliver t d =>
    (s.proc.tables t d.num).saHandler ≠ sigDfl → (s.proc.tables t d.num).saHandler ≠ sigIgn →
      d.SuspendsReplace (s.tpd t) → d.num = sigkillReplace ∨ s.Handling t
  | _ => True

/-! ### Masks -/

theorem Sigset.hasReplace_iff (m : Sigset) : m.HasReplace ↔ m.hi.getLsbD 0 = true := by
  unfold Sigset.HasReplace setSigkillReplaceMask
  constructor
  · intro h
    by_contra hbit
    refine h (BitVec.eq_of_getLsbD_eq fun i hi => ?_)
    rw [BitVec.getLsbD_and]
    cases i with
    | zero => simpa using hbit
    | succ i => simp
  · intro hbit h
    have hzero := congrArg (BitVec.getLsbD · 0) h
    simp only [BitVec.getLsbD_and, hbit] at hzero
    exact absurd hzero (by decide)

theorem not_hasReplace_unset {lo x : Word} : ¬ (Sigset.mk lo (x &&& unsetSigkillReplaceMask)).HasReplace := by
  rw [Sigset.hasReplace_iff]
  simp [unsetSigkillReplaceMask, setSigkillReplaceMask]

theorem Sigset.hasReplace_or (m n : Sigset) (lo : Word) :
    (Sigset.mk lo (m.hi ||| n.hi)).HasReplace ↔ m.HasReplace ∨ n.HasReplace := by
  simp only [Sigset.hasReplace_iff, BitVec.getLsbD_or, Bool.or_eq_true]

theorem hasReplace_of_and {lo lo' x y : Word} (h : (Sigset.mk lo (x &&& y)).HasReplace) :
    (Sigset.mk lo' x).HasReplace := by
  rw [Sigset.hasReplace_iff] at h ⊢
  simp only [BitVec.getLsbD_and, Bool.and_eq_true] at h
  exact h.1

@[simp] theorem hasReplace_keptMask (m : Sigset) : (keptMask m).HasReplace ↔ m.HasReplace := Iff.rfl

/-! ### Calls of `rt_sigprocmask` -/

section Sigprocmask

variable {c : RtSigprocmask} {mem mem' : Mem} {old mask unblock : Sigset}

/-- **Blocking is filtered**: what the kernel reads has no `SIGKILL_REPLACE`. Otherwise the
memory is as it was. -/
theorem preRtSigprocmask_ok (h : preRtSigprocmask c = .ok mem) :
    (c.how = sigBlock ∧ c.set ≠ 0 → ¬ (loadSigset mem c.set).HasReplace) ∧
      (c.how ≠ sigBlock → mem = c.mem) := by
  unfold preRtSigprocmask at h
  split_ifs at h with hblock hread hset hwrite
  · cases h
    refine ⟨fun _ => ?_, fun hne => absurd hblock.1 hne⟩
    unfold loadSigset
    rw [load32_store32]
    exact not_hasReplace_unset
  · cases h
    exact ⟨fun _ => hset, fun _ => rfl⟩
  · cases h
    exact ⟨fun hb => absurd hb hblock, fun _ => rfl⟩

theorem RtSigprocmask.give_ok {mask' : Sigset} {ret : ℤ} (h : c.give old mem mask = (mask', mem', ret)) :
    mask' = mask ∧ (0 ≤ ret → c.oset = 0 ∨ c.writable c.oset) := by
  unfold RtSigprocmask.give at h
  split_ifs at h with hoset hwrite
  · cases h
    exact ⟨rfl, fun _ => .inl hoset⟩
  · cases h
    exact ⟨rfl, fun _ => .inr hwrite⟩
  · cases h
    exact ⟨rfl, fun hret => absurd hret (by decide)⟩

/-- A call that succeeds had valid arguments. -/
theorem kernelSigprocmask_ok {ret : ℤ} (h : kernelSigprocmask old c mem = (mask, mem', ret))
    (hret : 0 ≤ ret) :
    c.set = 0 ∧ mask = old ∨
      c.sigsetsize = 8 ∧ c.set ≠ 0 ∧ c.readable c.set ∧ (c.oset = 0 ∨ c.writable c.oset) ∧
        changedMask c.how old (keptMask (loadSigset mem c.set)) = some mask := by
  unfold kernelSigprocmask at h
  split_ifs at h with hsize hset hread
  · cases h
    exact absurd hret (by decide)
  · exact .inl ⟨hset, (RtSigprocmask.give_ok h).1⟩
  · cases hmask : changedMask c.how old (keptMask (loadSigset mem c.set)) with
    | none =>
      rw [hmask] at h
      cases h
      exact absurd hret (by decide)
    | some new =>
      rw [hmask] at h
      obtain ⟨rfl, hoset⟩ := RtSigprocmask.give_ok h
      exact .inr ⟨not_not.mp hsize, hset, hread, hoset hret, rfl⟩
  · cases h
    exact absurd hret (by decide)

/-- Only `SIG_SETMASK` brings in what the set has, if blocking is filtered. -/
theorem changedMask_hasReplace {set : Sigset} (h : changedMask c.how old set = some mask)
    (hblock : c.how = sigBlock → ¬ set.HasReplace) (hmask : mask.HasReplace) :
    old.HasReplace ∨ c.how = sigSetmask ∧ set.HasReplace := by
  unfold changedMask at h
  split_ifs at h with hb hu hs
  · cases h
    exact .inl (((Sigset.hasReplace_or old set _).mp hmask).resolve_right (hblock hb))
  · cases h
    exact .inl (hasReplace_of_and hmask)
  · cases h
    exact .inr ⟨hs, hmask⟩

/-- **A call blocks `SIGKILL_REPLACE`** only if it was blocked, or by setting a mask with
it. -/
theorem rtSigprocmask_hasReplace (h : rtSigprocmask unblock c = .ok mask) (hmask : mask.HasReplace) :
    unblock.HasReplace ∨ c.SetsReplace := by
  obtain ⟨mem, hpre, h⟩ := bind_eq_ok.mp h
  obtain ⟨hfilter, hsame⟩ := preRtSigprocmask_ok hpre
  rcases hkernel : kernelSigprocmask (keptMask unblock) c mem with ⟨current, mem', ret⟩
  rw [hkernel] at h
  dsimp only at h
  split_ifs at h with hret
  · obtain ⟨_, -, h⟩ := bind_eq_ok.mp h
    cases h
    rcases kernelSigprocmask_ok hkernel hret with ⟨-, rfl⟩ | ⟨hsize, hset, hread, hoset, hchanged⟩
    · exact .inl hmask
    · rcases changedMask_hasReplace hchanged (fun hb => hfilter ⟨hb, hset⟩) hmask with hold | ⟨hhow, hnew⟩
      · exact .inl hold
      · rw [hsame (by rw [hhow]; decide)] at hnew
        exact .inr ⟨hhow, hsize, hset, hread, hoset, hnew⟩
  · cases h
    exact .inl hmask

/-- **Setting a mask is not filtered.** -/
theorem hasReplace_of_setsReplace (h : rtSigprocmask unblock c = .ok mask) (hsets : c.SetsReplace) :
    mask.HasReplace := by
  obtain ⟨hhow, hsize, hset, hread, hoset, hnew⟩ := hsets
  obtain ⟨mem, hpre, h⟩ := bind_eq_ok.mp h
  obtain rfl := (preRtSigprocmask_ok hpre).2 (by rw [hhow]; decide)
  have hchanged : changedMask c.how (keptMask unblock) (keptMask (loadSigset c.mem c.set)) =
      some (keptMask (loadSigset c.mem c.set)) := by
    rw [hhow]
    rfl
  have hkernel : ∃ mem', kernelSigprocmask (keptMask unblock) c c.mem =
      (keptMask (loadSigset c.mem c.set), mem', 0) := by
    unfold kernelSigprocmask RtSigprocmask.give
    rw [if_neg (not_not.mpr hsize), if_neg hset, if_neg (not_not.mpr hread), hchanged]
    dsimp only
    split_ifs with hnull hwrite
    · exact ⟨_, rfl⟩
    · exact ⟨_, rfl⟩
    · exact absurd hoset (not_or.mpr ⟨hnull, hwrite⟩)
  obtain ⟨mem', hkernel⟩ := hkernel
  rw [hkernel] at h
  dsimp only at h
  rw [if_pos le_rfl] at h
  obtain ⟨_, -, h⟩ := bind_eq_ok.mp h
  cases h
  exact hnew

end Sigprocmask

/-! ### Deliveries and returns -/

/-- The mask that was packed into a frame. -/
def SigFrame.savedMask (f : SigFrame) : Sigset :=
  ⟨joinHalves f.sc.fsh f.sc.gsh, joinHalves f.sc.dsh f.sc.esh⟩

@[simp] theorem savedMask_packedFrame (d : Delivery) (tpd : Tpd) :
    (packedFrame d tpd).savedMask = tpd.unblockSigmask := by
  unfold SigFrame.savedMask packedFrame
  simp only [joinHalves_halves]

theorem commonWrapperSigreturn_mask {tpd tpd' : Tpd} {frame frame' : SigFrame} {log : List LogAction}
    (h : commonWrapperSigreturn tpd frame = .ok (tpd', frame', log)) :
    tpd'.unblockSigmask = frame.savedMask := by
  obtain ⟨nr, -, h⟩ := bind_eq_ok.mp h
  cases h
  rfl

theorem correctSigsuspend_hasReplace (d : Delivery) (oriIp : Word) (mask : Sigset) :
    (correctSigsuspend d oriIp mask).HasReplace ↔ mask.HasReplace ∨
      oriIp = d.afterNormalInt80 ∧ d.frame.sc.bx ≠ 0 ∧ (loadSigset d.mem d.frame.sc.bx).HasReplace := by
  unfold correctSigsuspend
  split_ifs with hip hbx
  · exact ⟨.inl, fun h => h.resolve_right fun hs => hs.2.1 hbx⟩
  · refine (Sigset.hasReplace_or mask (loadSigset d.mem d.frame.sc.bx) _).trans (or_congr_right ?_)
    exact ⟨fun h => ⟨hip, hbx, h⟩, fun h => h.2.2⟩
  · exact ⟨.inl, fun h => h.resolve_right fun hs => hip hs.1⟩

/-- **A handler blocks `SIGKILL_REPLACE`** by the mask of its action, or by that of the
`rt_sigsuspend` it broke. -/
theorem handlerMask_hasReplace (d : Delivery) (tpd : Tpd) :
    (handlerMask d tpd).HasReplace ↔
      (tpd.sigactions d.num).saMask.HasReplace ∨ d.SuspendsReplace tpd := by
  unfold Delivery.SuspendsReplace
  by_cases hnr : tpd.currentSyscallNr = some nrRtSigsuspend
  · have hmask : (handlerMask d tpd).hi =
        (correctSigsuspend d d.frame.sc.ip (tpd.sigactions d.num).saMask).hi := by
      simp only [handlerMask, if_pos hnr]
    unfold Sigset.HasReplace at *
    rw [hmask]
    refine (correctSigsuspend_hasReplace d d.frame.sc.ip _).trans (or_congr_right ?_)
    exact ⟨fun h => ⟨hnr, h⟩, fun h => h.2⟩
  · have hmask : (handlerMask d tpd).hi = (tpd.sigactions d.num).saMask.hi := by
      simp only [handlerMask, if_neg hnr]
    unfold Sigset.HasReplace
    rw [hmask]
    exact ⟨.inl, fun h => h.resolve_right fun hs => hnr hs.1⟩

/-! ### The system -/

section Steps

variable {ι : Type} [DecidableEq ι] {w : Wrappers} {s s' : System ι} {t : ι}

/-- The mask saved in a frame has `SIGKILL_REPLACE` only below a handler of it. -/
def FramesClear : List (Fin 64 × SigFrame) → Prop
  | [] => True
  | (_, frame) :: frames =>
    (frame.savedMask.HasReplace → ∃ f ∈ frames, f.1 = sigkillReplace) ∧ FramesClear frames

/-- **The invariant**: the same of the masks that returns will bring back. -/
structure System.Inv (s : System ι) : Prop where
  mask : ∀ t, (s.mask t).HasReplace → s.Handling t
  tables : ∀ t i, ¬ (s.proc.tables t i).saMask.HasReplace
  frames : ∀ t, FramesClear (s.threads t).frames

/-- A thread is changed as it should be. -/
theorem System.Inv.setThread (h : s.Inv) {thread : MaskThread}
    (hmask : thread.tpd.unblockSigmask.HasReplace → ∃ f ∈ thread.frames, f.1 = sigkillReplace)
    (hframes : FramesClear thread.frames) : (s.setThread t thread).Inv := by
  refine ⟨fun u => ?_, h.tables, fun u => ?_⟩
  · unfold System.mask System.Handling System.setThread
    by_cases hu : u = t
    · subst hu
      simpa using hmask
    · simp only [Function.update_of_ne hu]
      exact h.mask u
  · unfold System.setThread
    by_cases hu : u = t
    · subst hu
      simpa using hframes
    · simp only [Function.update_of_ne hu]
      exact h.frames u

/-- A stored action never blocks `SIGKILL_REPLACE`. -/
theorem System.Inv.sigaction (h : s.Inv) {c : RtSigaction ι} {p' : Process ι} {mem : Mem} {ret : ℤ}
    (hok : preRtSigaction w s.proc c = .ok (p', mem, ret)) :
    ∀ t i, ¬ (p'.tables t i).saMask.HasReplace := by
  rcases preRtSigaction_ok hok with ⟨-, -, rfl⟩ | ⟨i, -, -, rfl⟩ | ⟨i, mem₁, -, -, hfinish⟩
  · exact h.tables
  · exact h.tables
  · rcases (finishSigaction_ok hfinish).2.2 with ⟨-, rfl⟩ | ⟨-, hreplace⟩
    · exact h.tables
    · intro t j
      rw [(replaceAction_ok hreplace).2 t]
      by_cases hj : j = i
      · subst hj
        rw [Function.update_self]
        exact not_hasReplace_unset
      · rw [Function.update_of_ne hj]
        exact h.tables t j

/-- **A harmless event keeps the invariant.** -/
theorem System.Inv.step (h : s.Inv) {e : SigEvent ι} (he : e.Harmless s)
    (hstep : sigStep w s e = .ok s') : s'.Inv := by
  cases e with
  | sigprocmask t c =>
    obtain ⟨mask, hcall, hstep⟩ := bind_eq_ok.mp hstep
    cases hstep
    refine h.setThread (fun hmask => ?_) (h.frames t)
    rcases rtSigprocmask_hasReplace hcall hmask with hold | hsets
    · exact h.mask t hold
    · exact he hsets
  | sigaction c =>
    obtain ⟨⟨p', mem, ret⟩, hcall, hstep⟩ := bind_eq_ok.mp hstep
    cases hstep
    exact ⟨h.mask, h.sigaction hcall, h.frames⟩
  | deliver t d =>
    rw [sigStep] at hstep
    split_ifs at hstep with hhandler
    · cases hstep
      exact h
    · cases hstep
      obtain ⟨hdfl, hign⟩ := not_or.mp hhandler
      refine h.setThread (fun hmask => ?_) ⟨fun hsaved => ?_, h.frames t⟩
      · rcases (handlerMask_hasReplace d (s.tpd t)).mp hmask with hact | hsuspend
        · exact absurd hact (h.tables t d.num)
        · rcases he hdfl hign hsuspend with hnum | ⟨f, hf, hnum⟩
          · exact ⟨_, List.mem_cons_self, hnum⟩
          · exact ⟨f, List.mem_cons_of_mem _ hf, hnum⟩
      · have hold : (packedFrame d (s.tpd t)).savedMask.HasReplace := hsaved
        rw [savedMask_packedFrame] at hold
        exact h.mask t hold
  | sigreturn t =>
    rw [sigStep] at hstep
    have hframes := h.frames t
    split at hstep
    · cases hstep
    · rename_i num frame frames hthread
      obtain ⟨⟨tpd, frame', log⟩, hreturn, hstep⟩ := bind_eq_ok.mp hstep
      cases hstep
      rw [hthread] at hframes
      refine h.setThread (fun hmask => ?_) hframes.2
      rw [commonWrapperSigreturn_mask hreturn] at hmask
      exact hframes.1 hmask
  | change t tpd =>
    cases hstep
    exact h.setThread (h.mask t) (h.frames t)

/-- **An event that is not harmless** blocks `SIGKILL_REPLACE`. -/
theorem not_killable_of_harmful {e : SigEvent ι} (he : ¬ e.Harmless s)
    (hstep : sigStep w s e = .ok s') : ¬ s'.Killable := by
  cases e with
  | sigprocmask t c =>
    obtain ⟨hsets, hhandling⟩ := Classical.not_imp.mp he
    obtain ⟨mask, hcall, hstep⟩ := bind_eq_ok.mp hstep
    cases hstep
    intro hkill
    have hmask := hkill.1 t
    simp only [System.mask, System.Handling, System.setThread, Function.update_self] at hmask
    exact hhandling (hmask (hasReplace_of_setsReplace hcall hsets))
  | deliver t d =>
    simp only [SigEvent.Harmless, Classical.not_imp, not_or] at he
    obtain ⟨hdfl, hign, hsuspend, hnum, hhandling⟩ := he
    rw [sigStep] at hstep
    rw [if_neg (not_or.mpr ⟨hdfl, hign⟩)] at hstep
    cases hstep
    intro hkill
    have hmask := hkill.1 t
    simp only [System.mask, System.Handling, System.setThread, Function.update_self] at hmask
    obtain ⟨f, hf, hf'⟩ := hmask ((handlerMask_hasReplace d (s.tpd t)).mpr (.inr hsuspend))
    rcases List.mem_cons.mp hf with rfl | hf
    · exact hnum hf'
    · exact hhandling ⟨f, hf, hf'⟩
  | sigaction c => exact absurd trivial he
  | sigreturn t => exact absurd trivial he
  | change t tpd => exact absurd trivial he

end Steps

/-- **The stand-in kill signal gets through exactly in harmless runs.** From a state without
handlers, in which neither a thread nor an action blocks `SIGKILL_REPLACE`, and in every
state of a run: it is blocked by no action, and by a thread only in its own handler, just
if every event of the run is harmless where it happens. -/
theorem killable_iff {ι : Type} [DecidableEq ι] (w : Wrappers) {s : System ι}
    (hmask : ∀ t, ¬ (s.mask t).HasReplace) (htables : ∀ t i, ¬ (s.proc.tables t i).saMask.HasReplace)
    (hframes : ∀ t, (s.threads t).frames = []) (events : List (SigEvent ι)) :
    Throughout (sigStep w) System.Killable s events ↔
      MeetsEach (sigStep w) (fun s e => e.Harmless s) s events := by
  have hinv : s.Inv := by
    refine ⟨fun t h => absurd h (hmask t), htables, fun t => ?_⟩
    rw [hframes t]
    trivial
  exact throughout_iff (fun s h => ⟨h.mask, h.tables⟩) (fun s e s' h he hstep => h.step he hstep)
    (fun s e s' _ he hstep => not_killable_of_harmful he hstep) hinv events

/-- A process of one thread that blocks nothing. -/
def unblocked : System Unit where
  proc := ⟨fun _ => realAction someWrappers (.ofWords []), fun _ _ => .ofWords []⟩
  threads _ := ⟨{ interruptedRead.tpd with unblockSigmask := ⟨0, 0⟩ }, []⟩

/-- A call with a set of all signals. -/
def maskAll (how : Word) : RtSigprocmask :=
  ⟨how, 0x1000, 0, 8, storeSigset (fun _ => 0) 0x1000 ⟨0xffffffff, 0xffffffff⟩, (· == 0x1000), (· == 0x1000)⟩

/-- To block all signals blocks all but `SIGKILL`, `SIGSTOP` and `SIGKILL_REPLACE`. -/
theorem killable_iff_block_all :
    ∃ s', sigStep someWrappers unblocked (.sigprocmask () (maskAll sigBlock)) = .ok s' ∧
      s'.mask () = ⟨0xfffbfeff, 0xfffffffe⟩ ∧
      Throughout (sigStep someWrappers) System.Killable unblocked [.sigprocmask () (maskAll sigBlock)] := by
  obtain ⟨s', hstep, hmask⟩ := exists_ok (b := (⟨0xfffbfeff, 0xfffffffe⟩ : Sigset))
    (x := sigStep someWrappers unblocked (.sigprocmask () (maskAll sigBlock)))
    (fun s => s.mask ()) (by decide +kernel)
  have hmask₀ : ∀ t, ¬ (unblocked.mask t).HasReplace := fun _ h => h BitVec.zero_and
  have htables₀ : ∀ t i, ¬ (unblocked.proc.tables t i).saMask.HasReplace := fun _ _ h => h BitVec.zero_and
  refine ⟨s', hstep, hmask, (killable_iff someWrappers hmask₀ htables₀ (fun _ => rfl) _).mpr ?_⟩
  exact fun s' _ => ⟨fun hsets => absurd hsets.1 (by decide), trivial⟩

/-- **`SIG_SETMASK` gets round the filter**: after it the thread blocks `SIGKILL_REPLACE`,
in no handler. -/
theorem setmask_blocks_kill :
    ∃ s', sigStep someWrappers unblocked (.sigprocmask () (maskAll sigSetmask)) = .ok s' ∧
      (s'.mask ()).HasReplace ∧ (s'.threads ()).frames = [] := by
  obtain ⟨s', hstep, hmask⟩ := exists_ok (b := true)
    (x := sigStep someWrappers unblocked (.sigprocmask () (maskAll sigSetmask)))
    (fun s => decide (s.mask ()).HasReplace && (s.threads ()).frames.isEmpty) (by decide +kernel)
  rw [Bool.and_eq_true, decide_eq_true_eq, List.isEmpty_iff] at hmask
  exact ⟨s', hstep, hmask⟩

end Snitchaser.Signal
