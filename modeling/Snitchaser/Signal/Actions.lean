import Mathlib.Logic.Function.Basic
import Snitchaser.Foundation.X86State
import Snitchaser.Signal.Unwind

/-!
# Signal actions

The program's signal actions are kept in the interpreter's tables, one for each thread;
in the kernel the interpreter's own wrapper is installed for every signal.
`pre_rt_sigaction` makes the program's call and then undoes its effect: it gives the
program the old action of the table, and installs the wrapper again.

## The model

* `SigAction` is `struct k_sigaction` with all its fields; `Process` has the kernel's
  actions and the tables of the live threads, of any number.
* `RtSigaction` is a call with the memory it finds, and what of it may be read and
  written. Between calls the program changes its memory as it likes.
* `kernelSigaction` is the system call: it checks the arguments and reads `act`, installs
  it, then writes `oact`, and fails with `-EFAULT` if that write does. A failed write
  leaves the memory as it was.
* The calls of a run all return: the copy of an unreadable `act` faults in the interpreter
  itself, where the kernel would have returned an error.

## What is proved

`virtualised_iff`: after every call of a run the tables agree, the wrapper is installed,
and a successful call gave the last action set, **exactly when** no call sets an action and
has it refused for an `oact` that cannot be written. The kernel has installed the
program's own action then, and `pre_rt_sigaction` returns at once.
-/

namespace Snitchaser.Signal

open Foundation Foundation.X86 Compiler

/-- `struct k_sigaction`. -/
structure SigAction extends KSigaction where
  saFlags : Word
  saRestorer : Word
  deriving DecidableEq, Repr

/-- The structure as it lies in memory. -/
def SigAction.words (a : SigAction) : List Word :=
  [a.saHandler, a.saFlags, a.saRestorer, a.saMask.lo, a.saMask.hi]

/-- The structure of five words. -/
def SigAction.ofWords (ws : List Word) : SigAction where
  saHandler := ws.getD 0 0
  saFlags := ws.getD 1 0
  saRestorer := ws.getD 2 0
  saMask := ⟨ws.getD 3 0, ws.getD 4 0⟩

/-- The structure at an address. -/
def loadAction (mem : Mem) (p : Word) : SigAction := .ofWords (loadWords mem p 5)

/-- The structure is written at an address. -/
def storeAction (mem : Mem) (p : Word) (a : SigAction) : Mem := store mem p (leBytesList a.words)

@[simp] theorem loadAction_storeAction (mem : Mem) (p : Word) (a : SigAction) :
    loadAction (storeAction mem p a) p = a := by
  have hload : loadWords (storeAction mem p a) p 5 = a.words :=
    loadWords_store mem p a.words (show 20 ≤ 2 ^ 32 by decide)
  unfold loadAction
  rw [hload]
  rfl

/-- `SA_SIGINFO`. -/
def saSiginfo : Word := 0x00000004

/-- `SA_RESTORER`. -/
def saRestorerFlag : Word := 0x04000000

/-- `SA_ONSTACK`. -/
def saOnstack : Word := 0x08000000

/-- `RECORD_PROCMASK`. -/
def recordProcmask : Sigset := ⟨0x7ffbfa77, 0xdffffffe⟩

/-- `SET_SIGKILL_REPLACE_MASK`, for the upper half of a set. -/
def setSigkillReplaceMask : Word := 1

/-- `UNSET_SIGKILL_REPLACE_MASK`. -/
def unsetSigkillReplaceMask : Word := ~~~ setSigkillReplaceMask

/-- A set without `SIGKILL_REPLACE`. -/
def Sigset.unsetReplace (m : Sigset) : Sigset := { m with hi := m.hi &&& unsetSigkillReplaceMask }

/-- An action that does not block `SIGKILL_REPLACE`. -/
def SigAction.unsetReplace (a : SigAction) : SigAction := { a with saMask := a.saMask.unsetReplace }

/-- The interpreter's handlers and restorers. -/
structure Wrappers where
  archWrapperSighandler : Word
  archWrapperRtSighandler : Word
  archWrapperSigreturn : Word
  archWrapperRtSigreturn : Word

/-- `real_action`: the wrapper for an action of the program. -/
def realAction (w : Wrappers) (a : SigAction) : SigAction where
  saHandler :=
    if a.saFlags &&& saSiginfo ≠ 0 then w.archWrapperRtSighandler else w.archWrapperSighandler
  saFlags := a.saFlags ||| saRestorerFlag
  saRestorer :=
    if a.saFlags &&& saSiginfo ≠ 0 then w.archWrapperRtSigreturn else w.archWrapperSigreturn
  saMask := recordProcmask

/-- A call of `rt_sigaction`, the memory it finds, and the addresses where the structure
may be read or written. -/
structure RtSigaction (ι : Type) where
  thread : ι
  sig : Word
  act : Word
  oact : Word
  sigsetsize : Word
  mem : Mem
  readable : Word → Bool
  writable : Word → Bool

/-- The actions in the kernel, and the tables of the live threads, by the signal number
less one. -/
structure Process (ι : Type) where
  kernel : Fin 64 → SigAction
  /-- `sigactions`. -/
  tables : ι → Fin 64 → SigAction

/-! ### The system call -/

/-- `-EINVAL`. -/
def eInval : ℤ := -22

/-- `-EFAULT`. -/
def eFault : ℤ := -14

/-- The place of a signal in the tables. -/
def sigIndex (sig : Word) : Option (Fin 64) :=
  if h : 1 ≤ sig.toNat ∧ sig.toNat ≤ 64 then some ⟨sig.toNat - 1, by omega⟩ else none

/-- `SIGKILL` and `SIGSTOP`, whose action cannot be set. -/
def kernelOnly (i : Fin 64) : Prop := i = 8 ∨ i = 18

instance (i : Fin 64) : Decidable (kernelOnly i) := inferInstanceAs (Decidable (_ ∨ _))

/-- An action as the kernel keeps it: `SIGKILL` and `SIGSTOP` are never blocked. -/
def kept (a : SigAction) : SigAction :=
  { a with saMask := { a.saMask with lo := a.saMask.lo &&& ~~~ 0x40100 } }

section Call

variable {ι : Type}

/-- The action a call sets. -/
def RtSigaction.newAction (c : RtSigaction ι) : SigAction := loadAction c.mem c.act

/-- The arguments are valid, up to `oact`. -/
def RtSigaction.Accepted (c : RtSigaction ι) (i : Fin 64) : Prop :=
  c.sigsetsize = 8 ∧ (c.act = 0 ∨ c.readable c.act) ∧ sigIndex c.sig = some i ∧
    (c.act = 0 ∨ ¬ kernelOnly i)

/-- The kernel's actions when the new one is set. -/
def RtSigaction.applied (c : RtSigaction ι) (kernel : Fin 64 → SigAction) (i : Fin 64) :
    Fin 64 → SigAction :=
  if c.act = 0 then kernel else Function.update kernel i (kept c.newAction)

/-- The second half of the system call: the action is set, then the old one given. -/
def doSigaction (kernel : Fin 64 → SigAction) (c : RtSigaction ι) (i : Fin 64) :
    (Fin 64 → SigAction) × Mem × ℤ :=
  if c.oact = 0 then (c.applied kernel i, c.mem, 0)
  else if c.writable c.oact then (c.applied kernel i, storeAction c.mem c.oact (kernel i), 0)
  else (c.applied kernel i, c.mem, eFault)

/-- The system call `rt_sigaction`. -/
def kernelSigaction (kernel : Fin 64 → SigAction) (c : RtSigaction ι) :
    (Fin 64 → SigAction) × Mem × ℤ :=
  if c.sigsetsize ≠ 8 then (kernel, c.mem, eInval)
  else if c.act ≠ 0 ∧ ¬ c.readable c.act then (kernel, c.mem, eFault)
  else
    match sigIndex c.sig with
    | none => (kernel, c.mem, eInval)
    | some i => if c.act ≠ 0 ∧ kernelOnly i then (kernel, c.mem, eInval) else doSigaction kernel c i

theorem kernelSigaction_of_accepted {kernel : Fin 64 → SigAction} {c : RtSigaction ι} {i : Fin 64}
    (h : c.Accepted i) : kernelSigaction kernel c = doSigaction kernel c i := by
  obtain ⟨hsize, hread, hsig, honly⟩ := h
  unfold kernelSigaction
  rw [if_neg (not_not.mpr hsize), if_neg (by tauto), hsig]
  exact if_neg (by tauto)

theorem doSigaction_of_writable {c : RtSigaction ι} (h : c.oact = 0 ∨ c.writable c.oact)
    (kernel : Fin 64 → SigAction) (i : Fin 64) :
    ∃ mem, doSigaction kernel c i = (c.applied kernel i, mem, 0) := by
  unfold doSigaction
  split_ifs with hoact hwrite
  · exact ⟨_, rfl⟩
  · exact ⟨_, rfl⟩
  · exact absurd h (not_or.mpr ⟨hoact, hwrite⟩)

/-- The action is set even if the old one cannot be given. -/
theorem doSigaction_of_not_writable {c : RtSigaction ι} (h : ¬ (c.oact = 0 ∨ c.writable c.oact))
    (kernel : Fin 64 → SigAction) (i : Fin 64) :
    doSigaction kernel c i = (c.applied kernel i, c.mem, eFault) := by
  obtain ⟨hoact, hwrite⟩ := not_or.mp h
  unfold doSigaction
  rw [if_neg hoact, if_neg hwrite]

/-- A call with invalid arguments changes nothing. -/
theorem kernelSigaction_of_not_accepted {c : RtSigaction ι} (h : ∀ i, ¬ c.Accepted i)
    (kernel : Fin 64 → SigAction) : ∃ e ≠ 0, kernelSigaction kernel c = (kernel, c.mem, e) := by
  unfold kernelSigaction
  split_ifs with hsize hread
  · exact ⟨eInval, by decide, rfl⟩
  · exact ⟨eFault, by decide, rfl⟩
  · cases hsig : sigIndex c.sig with
    | none => exact ⟨eInval, by decide, rfl⟩
    | some i =>
      refine ⟨eInval, by decide, if_pos ?_⟩
      by_contra hset
      exact h i ⟨not_not.mp hsize, by tauto, hsig, by tauto⟩

end Call

/-! ### The interpreter's part -/

section Interp

variable {ι : Type} [DecidableEq ι]

/-- `sync_sighandler`. -/
def syncSighandler (tables : ι → Fin 64 → SigAction) (me : ι) (i : Fin 64) : ι → Fin 64 → SigAction :=
  fun t => if t ≠ me then Function.update (tables t) i (tables me i) else tables t

/-- `pre_rt_sigaction` after the program's call has set an action: it is kept in the
tables, and the wrapper is installed. -/
def replaceAction (w : Wrappers) (p : Process ι) (thread : ι) (i : Fin 64) (backup : SigAction) :
    Except Fault (Process ι) :=
  if backup.saFlags &&& saRestorerFlag ≠ 0 then
    .error (.fatal "doesn't support target reset restorer\n")
  else if backup.saFlags &&& saOnstack ≠ 0 then .error (.fatal "doesn't support signal stack\n")
  else
    let backup := backup.unsetReplace
    .ok
      { kernel := Function.update p.kernel i (kept (realAction w backup))
        tables := syncSighandler
          (Function.update p.tables thread (Function.update (p.tables thread) i backup)) thread i }

/-- `pre_rt_sigaction` after a successful call: the program gets the action of the table. -/
def finishSigaction (w : Wrappers) (p : Process ι) (c : RtSigaction ι) (i : Fin 64) (mem : Mem) :
    Except Fault (Process ι × Mem × ℤ) :=
  let mem := if c.oact ≠ 0 then storeAction mem c.oact (p.tables c.thread i) else mem
  if c.act = 0 then .ok (p, mem, 0)
  else do
    let p ← replaceAction w p c.thread i c.newAction
    .ok (p, mem, 0)

/-- **`pre_rt_sigaction`**, with the memory it leaves and the value it returns. -/
def preRtSigaction (w : Wrappers) (p : Process ι) (c : RtSigaction ι) :
    Except Fault (Process ι × Mem × ℤ) :=
  -- the backup of `*act` is the interpreter's own read
  if c.act ≠ 0 ∧ ¬ c.readable c.act then .error .segfault
  else
    match kernelSigaction p.kernel c with
    | (kernel, mem, ret) =>
      if ret ≠ 0 then .ok ({ p with kernel := kernel }, mem, ret)
      else
        match sigIndex c.sig with
        | none => .error .segfault
        | some i => finishSigaction w { p with kernel := kernel } c i mem

/-- Calls one after the other. -/
def runSigactions (w : Wrappers) (p : Process ι) (calls : List (RtSigaction ι)) :
    Except Fault (Process ι) :=
  calls.foldlM (fun p c => return (← preRtSigaction w p c).1) p

/-- All threads have the same table. -/
def Process.Agree (p : Process ι) : Prop := ∀ s t, p.tables s = p.tables t

/-- The wrapper is installed for every action that can be set. -/
def Process.Wrapped (w : Wrappers) (p : Process ι) : Prop :=
  ∀ t i, ¬ kernelOnly i → p.kernel i = realAction w (p.tables t i)

/-- What a call returned is the action set last, up to `SIGKILL_REPLACE`. -/
def RtSigaction.Gives (c : RtSigaction ι) (last : Fin 64 → SigAction) (mem : Mem) (ret : ℤ) : Prop :=
  ret = 0 → c.oact ≠ 0 → ∀ i, sigIndex c.sig = some i →
    (loadAction mem c.oact).unsetReplace = (last i).unsetReplace

/-- The actions set last, after a call. -/
def RtSigaction.setLast (c : RtSigaction ι) (last : Fin 64 → SigAction) (ret : ℤ) : Fin 64 → SigAction :=
  match sigIndex c.sig with
  | some i => if ret = 0 ∧ c.act ≠ 0 then Function.update last i c.newAction else last
  | none => last

/-- **Signal actions are virtualised** along a run: after each call, what it gave, the
tables and the kernel are as they should be. -/
def Virtualised (w : Wrappers) : Process ι → (Fin 64 → SigAction) → List (RtSigaction ι) → Prop
  | _, _, [] => True
  | p, last, c :: calls =>
    match preRtSigaction w p c with
    | .error _ => True
    | .ok (p', mem, ret) =>
      c.Gives last mem ret ∧ p'.Agree ∧ p'.Wrapped w ∧ Virtualised w p' (c.setLast last ret) calls

/-- A call that sets an action can write the old one. -/
def RtSigaction.Safe (c : RtSigaction ι) : Prop :=
  ∀ i, c.Accepted i → c.act ≠ 0 → c.oact = 0 ∨ c.writable c.oact

/-- The action a call sets has flags the interpreter supports. -/
def RtSigaction.Plain (c : RtSigaction ι) : Prop :=
  c.act ≠ 0 → c.newAction.saFlags &&& saRestorerFlag = 0 ∧ c.newAction.saFlags &&& saOnstack = 0

variable {w : Wrappers} {p p' : Process ι} {c : RtSigaction ι} {last : Fin 64 → SigAction}

@[simp] theorem kept_realAction (w : Wrappers) (a : SigAction) :
    kept (realAction w a) = realAction w a := by
  have hmask : recordProcmask.lo &&& ~~~ 0x40100 = recordProcmask.lo := by decide
  unfold kept realAction
  simp only [hmask]

/-- An action that is replaced is in all tables, and its wrapper in the kernel. -/
theorem replaceAction_ok {thread : ι} {i : Fin 64} {backup : SigAction}
    (h : replaceAction w p thread i backup = .ok p') :
    p'.kernel = Function.update p.kernel i (realAction w backup.unsetReplace) ∧
      ∀ t, p'.tables t = Function.update (p.tables t) i backup.unsetReplace := by
  unfold replaceAction at h
  split_ifs at h
  cases h
  refine ⟨by simp only [kept_realAction], fun t => ?_⟩
  unfold syncSighandler
  by_cases ht : t = thread
  · subst ht
    simp
  · simp [ht]

theorem finishSigaction_ok {i : Fin 64} {mem mem' : Mem} {ret : ℤ}
    (h : finishSigaction w p c i mem = .ok (p', mem', ret)) :
    ret = 0 ∧ (c.oact ≠ 0 → loadAction mem' c.oact = p.tables c.thread i) ∧
      (c.act = 0 ∧ p' = p ∨ c.act ≠ 0 ∧ replaceAction w p c.thread i c.newAction = .ok p') := by
  have hgives : c.oact ≠ 0 → loadAction (if c.oact ≠ 0 then
      storeAction mem c.oact (p.tables c.thread i) else mem) c.oact = p.tables c.thread i := by
    intro hoact
    rw [if_pos hoact, loadAction_storeAction]
  unfold finishSigaction at h
  by_cases hact : c.act = 0
  · rw [if_pos hact] at h
    cases h
    exact ⟨rfl, hgives, .inl ⟨hact, rfl⟩⟩
  · rw [if_neg hact] at h
    obtain ⟨p₁, hreplace, h⟩ := bind_eq_ok.mp h
    cases h
    exact ⟨rfl, hgives, .inr ⟨hact, hreplace⟩⟩

/-- **What `pre_rt_sigaction` does**: it fails and changes nothing; it fails after the kernel
has set the action; or it succeeds, and gives the action of the table. -/
theorem preRtSigaction_ok {mem : Mem} {ret : ℤ} (h : preRtSigaction w p c = .ok (p', mem, ret)) :
    ret ≠ 0 ∧ c.Safe ∧ p' = p ∨
      (∃ i, c.Accepted i ∧ ¬ c.Safe ∧ p' = { p with kernel := c.applied p.kernel i }) ∨
      ∃ i mem₁, c.Accepted i ∧ c.Safe ∧
        finishSigaction w { p with kernel := c.applied p.kernel i } c i mem₁ = .ok (p', mem, ret) := by
  unfold preRtSigaction at h
  by_cases hread : c.act ≠ 0 ∧ ¬ c.readable c.act
  · rw [if_pos hread] at h
    cases h
  rw [if_neg hread] at h
  by_cases hacc : ∃ i, c.Accepted i
  · obtain ⟨i, hacc⟩ := hacc
    rw [kernelSigaction_of_accepted hacc] at h
    by_cases hwrite : c.oact = 0 ∨ c.writable c.oact
    · obtain ⟨mem₁, hkernel⟩ := doSigaction_of_writable hwrite p.kernel i
      rw [hkernel, hacc.2.2.1] at h
      exact .inr (.inr ⟨i, mem₁, hacc, fun _ _ _ => hwrite, h⟩)
    · rw [doSigaction_of_not_writable hwrite] at h
      by_cases hact : c.act = 0
      · cases h
        refine .inl ⟨by decide, fun _ _ hset => absurd hact hset, ?_⟩
        rw [RtSigaction.applied, if_pos hact]
      · cases h
        exact .inr (.inl ⟨i, hacc, fun hsafe => hwrite (hsafe i hacc hact), rfl⟩)
  · have hnone : ∀ i, ¬ c.Accepted i := fun i hi => hacc ⟨i, hi⟩
    obtain ⟨e, he, hkernel⟩ := kernelSigaction_of_not_accepted hnone p.kernel
    rw [hkernel] at h
    dsimp only at h
    rw [if_pos he] at h
    cases h
    exact .inl ⟨he, fun i hi => absurd hi (hnone i), rfl⟩

/-- **What the calls of a run find**: the tables agree, they hold the actions set last, and
their wrappers are installed. -/
structure Process.Consistent (w : Wrappers) (p : Process ι) (last : Fin 64 → SigAction) : Prop where
  agree : p.Agree
  wrapped : p.Wrapped w
  known : ∀ t i, (p.tables t i).unsetReplace = (last i).unsetReplace

@[simp] theorem SigAction.unsetReplace_unsetReplace (a : SigAction) :
    a.unsetReplace.unsetReplace = a.unsetReplace := by
  unfold SigAction.unsetReplace Sigset.unsetReplace
  simp only [BitVec.and_assoc, BitVec.and_self]

/-- An action set in all tables and its wrapper in the kernel. -/
theorem Process.Consistent.replace (h : p.Consistent w last) {thread : ι} {i : Fin 64} {a b : SigAction}
    (hok : replaceAction w { p with kernel := Function.update p.kernel i b } thread i a = .ok p') :
    p'.Consistent w (Function.update last i a) := by
  obtain ⟨hkernel, htables⟩ := replaceAction_ok hok
  refine ⟨fun s t => ?_, fun t j hj => ?_, fun t j => ?_⟩
  · rw [htables s, htables t]
    exact congrArg (Function.update · i _) (h.agree s t)
  · rw [hkernel, htables]
    by_cases hij : j = i
    · subst hij
      simp
    · simp only [Function.update_of_ne hij]
      exact h.wrapped t j hj
  · rw [htables]
    by_cases hij : j = i
    · subst hij
      simp
    · simp only [Function.update_of_ne hij]
      exact h.known t j

omit [DecidableEq ι] in
theorem RtSigaction.setLast_of_ne {ret : ℤ} (h : ¬ (ret = 0 ∧ c.act ≠ 0)) : c.setLast last ret = last := by
  unfold RtSigaction.setLast
  split
  · rw [if_neg h]
  · rfl

omit [DecidableEq ι] in
theorem RtSigaction.setLast_of_accepted {i : Fin 64} (h : c.Accepted i) (hact : c.act ≠ 0) :
    c.setLast last 0 = Function.update last i c.newAction := by
  unfold RtSigaction.setLast
  rw [h.2.2.1]
  exact if_pos ⟨rfl, hact⟩

/-- **A safe call** gives the action set last, and leaves all consistent. -/
theorem Process.Consistent.call (h : p.Consistent w last) (hsafe : c.Safe) {mem : Mem} {ret : ℤ}
    (hok : preRtSigaction w p c = .ok (p', mem, ret)) :
    c.Gives last mem ret ∧ p'.Consistent w (c.setLast last ret) := by
  rcases preRtSigaction_ok hok with ⟨hret, -, rfl⟩ | ⟨i, -, hnot, -⟩ | ⟨i, mem₁, hacc, -, hfinish⟩
  · rw [RtSigaction.setLast_of_ne fun hset => hret hset.1]
    exact ⟨fun hzero => absurd hzero hret, h⟩
  · exact absurd hsafe hnot
  · obtain ⟨rfl, hgives, hset⟩ := finishSigaction_ok hfinish
    refine ⟨fun _ hoact j hj => ?_, ?_⟩
    · obtain rfl : i = j := Option.some.inj (hacc.2.2.1.symm.trans hj)
      rw [hgives hoact]
      exact h.known c.thread i
    · rcases hset with ⟨hact, rfl⟩ | ⟨hact, hreplace⟩
      · rw [RtSigaction.setLast_of_ne fun hset => hset.2 hact, RtSigaction.applied, if_pos hact]
        exact h
      · rw [RtSigaction.setLast_of_accepted hacc hact]
        rw [RtSigaction.applied, if_neg hact] at hreplace
        exact h.replace hreplace

/-- **A call that is not safe** leaves the program's own action installed. -/
theorem not_wrapped_of_not_safe (hnot : ¬ c.Safe) (hplain : c.Plain) {mem : Mem} {ret : ℤ}
    (hok : preRtSigaction w p c = .ok (p', mem, ret)) : ¬ p'.Wrapped w := by
  rcases preRtSigaction_ok hok with ⟨-, hsafe, -⟩ | ⟨i, hacc, -, rfl⟩ | ⟨i, mem₁, -, hsafe, -⟩
  · exact absurd hsafe hnot
  · have hact : c.act ≠ 0 := by
      intro hact
      exact hnot fun _ _ hset => absurd hact hset
    intro hwrapped
    have hkernel := hwrapped c.thread i (hacc.2.2.2.resolve_left hact)
    simp only [RtSigaction.applied, if_neg hact, Function.update_self] at hkernel
    have hflags : c.newAction.saFlags = (p.tables c.thread i).saFlags ||| saRestorerFlag :=
      congrArg SigAction.saFlags hkernel
    have hrestorer := (hplain hact).1
    rw [hflags] at hrestorer
    have hbit := congrArg (BitVec.getLsbD · 26) hrestorer
    simp [saRestorerFlag] at hbit
  · exact absurd hsafe hnot

end Interp

/-! ### The first actions -/

/-- One signal of `arch_init_signal`: the action found goes to the table, and its wrapper to
the kernel. -/
def initAction (w : Wrappers) (st : (Fin 64 → SigAction) × (Fin 64 → SigAction)) (i : Fin 64) :
    Except Fault ((Fin 64 → SigAction) × (Fin 64 → SigAction)) :=
  if kernelOnly i then .ok st
  else if (st.1 i).saFlags &&& saRestorerFlag ≠ 0 then
    .error (.fatal "doesn't support target reset restorer\n")
  else if (st.1 i).saFlags &&& saOnstack ≠ 0 then .error (.fatal "doesn't support signal stack\n")
  else .ok (Function.update st.1 i (kept (realAction w (st.1 i))), Function.update st.2 i (st.1 i))

/-- `arch_init_signal`, on the kernel's actions and the table of the first thread. -/
def archInitSignal (w : Wrappers) (kernel table : Fin 64 → SigAction) :
    Except Fault ((Fin 64 → SigAction) × (Fin 64 → SigAction)) :=
  (List.finRange 64).foldlM (initAction w) (kernel, table)

/-- The signals that were gone through have their wrapper, and keep it. -/
theorem initAction_foldlM {w : Wrappers} {is : List (Fin 64)}
    {st st' : (Fin 64 → SigAction) × (Fin 64 → SigAction)} (hnodup : is.Nodup)
    (h : is.foldlM (initAction w) st = .ok st') (j : Fin 64) :
    (j ∈ is → ¬ kernelOnly j → st'.1 j = realAction w (st'.2 j)) ∧
      (j ∉ is → st'.1 j = st.1 j ∧ st'.2 j = st.2 j) := by
  induction is generalizing st with
  | nil =>
    cases h
    exact ⟨fun hj => absurd hj List.not_mem_nil, fun _ => ⟨rfl, rfl⟩⟩
  | cons i is ih =>
    obtain ⟨hi, hnodup⟩ := List.nodup_cons.mp hnodup
    obtain ⟨st₁, hstep, h⟩ := bind_eq_ok.mp h
    obtain ⟨hin, hout⟩ := ih hnodup h
    unfold initAction at hstep
    split_ifs at hstep with honly
    · cases hstep
      refine ⟨fun hj hset => ?_, fun hj => hout fun hmem => hj (List.mem_cons_of_mem i hmem)⟩
      rcases List.mem_cons.mp hj with rfl | hj
      · exact absurd honly hset
      · exact hin hj hset
    · cases hstep
      refine ⟨fun hj hset => ?_, fun hj => ?_⟩
      · rcases List.mem_cons.mp hj with rfl | hj
        · obtain ⟨hkernel, htable⟩ := hout hi
          rw [hkernel, htable]
          simp
        · exact hin hj hset
      · obtain ⟨hne, hj⟩ := not_or.mp (mt List.mem_cons.mpr hj)
        obtain ⟨hkernel, htable⟩ := hout hj
        rw [hkernel, htable]
        simp [Function.update_of_ne hne]

/-- **A process starts consistent**; a new thread has the table of the thread that made it. -/
theorem archInitSignal_consistent {ι : Type} {w : Wrappers} {kernel table : Fin 64 → SigAction}
    {st : (Fin 64 → SigAction) × (Fin 64 → SigAction)} (h : archInitSignal w kernel table = .ok st) :
    Process.Consistent w ⟨st.1, fun _ : ι => st.2⟩ st.2 where
  agree _ _ := rfl
  wrapped _ i hi := (initAction_foldlM (List.nodup_finRange 64) h i).1 (List.mem_finRange i) hi
  known _ _ := rfl

/-- **Signal actions are virtualised exactly by safe calls**: in a run of calls that all
return, with flags the interpreter supports, each call gives the action set last by any
thread, and leaves the tables equal and the wrapper installed, just if no call sets an
action with an `oact` that cannot be written. -/
theorem virtualised_iff {ι : Type} [DecidableEq ι] (w : Wrappers) {p p' : Process ι}
    {last : Fin 64 → SigAction} (h : p.Consistent w last) {calls : List (RtSigaction ι)}
    (hplain : ∀ c ∈ calls, c.Plain) (hrun : runSigactions w p calls = .ok p') :
    Virtualised w p last calls ↔ ∀ c ∈ calls, c.Safe := by
  induction calls generalizing p last with
  | nil => exact iff_of_true trivial fun c hc => absurd hc List.not_mem_nil
  | cons c calls ih =>
    obtain ⟨p₁, hstep, hrun⟩ := bind_eq_ok.mp hrun
    obtain ⟨⟨p₁', mem, ret⟩, hcall, hstep⟩ := bind_eq_ok.mp hstep
    cases hstep
    rw [Virtualised, hcall, List.forall_mem_cons]
    by_cases hsafe : c.Safe
    · obtain ⟨hgives, hnext⟩ := h.call hsafe hcall
      have hrest := ih hnext (fun d hd => hplain d (List.mem_cons_of_mem c hd)) hrun
      constructor
      · rintro ⟨-, -, -, hvirtual⟩
        exact ⟨hsafe, hrest.mp hvirtual⟩
      · rintro ⟨-, hcalls⟩
        exact ⟨hgives, hnext.agree, hnext.wrapped, hrest.mpr hcalls⟩
    · have hwrapped := not_wrapped_of_not_safe hsafe (hplain c List.mem_cons_self) hcall
      refine iff_of_false ?_ fun hall => hsafe hall.1
      rintro ⟨-, -, hwrap, -⟩
      exact hwrapped hwrap

/-- Some addresses of the wrappers. -/
def someWrappers : Wrappers := ⟨0x70000010, 0x70000020, 0x70000030, 0x70000040⟩

/-- A process of two threads in which nothing was set yet. -/
def fresh : Process Bool where
  kernel _ := realAction someWrappers (.ofWords [])
  tables _ _ := .ofWords []

/-- A handler of the program that blocks `SIGKILL_REPLACE` and more. -/
def someAction : SigAction := .ofWords [0x8048100, saSiginfo, 0, 0x200, 0x3]

/-- The action of `SIGUSR1` is set by one thread, the old one to the same place. -/
def setSame : RtSigaction Bool :=
  ⟨true, 10, 0x1000, 0x1000, 8, storeAction (fun _ => 0) 0x1000 someAction, (· == 0x1000), (· == 0x1000)⟩

/-- It is asked for by the other. -/
def askOther : RtSigaction Bool := ⟨false, 10, 0, 0x2000, 8, fun _ => 0, fun _ => false, (· == 0x2000)⟩

theorem fresh_consistent : fresh.Consistent someWrappers fun _ => .ofWords [] :=
  ⟨fun _ _ => rfl, fun _ _ _ => rfl, fun _ _ => rfl⟩

theorem virtualised_iff_two_threads :
    ∃ p', runSigactions someWrappers fresh [setSame, askOther] = .ok p' ∧
      (p'.tables false 9).saHandler = 0x8048100 ∧
      Virtualised someWrappers fresh (fun _ => .ofWords []) [setSame, askOther] := by
  obtain ⟨p', hrun, hhandler⟩ := exists_ok (b := (0x8048100 : Word))
    (x := runSigactions someWrappers fresh [setSame, askOther])
    (fun p => (p.tables false 9).saHandler) (by decide +kernel)
  have hplain : ∀ c ∈ [setSame, askOther], c.Plain := by
    simp only [List.forall_mem_cons, List.not_mem_nil, false_implies, implies_true, and_true]
    exact ⟨fun _ => by decide +kernel, fun hact => absurd rfl hact⟩
  refine ⟨p', hrun, hhandler, (virtualised_iff someWrappers fresh_consistent hplain hrun).mpr ?_⟩
  simp only [List.forall_mem_cons, List.not_mem_nil, false_implies, implies_true, and_true]
  exact ⟨fun _ _ _ => .inr rfl, fun _ _ hact => absurd rfl hact⟩

/-- The same call, but the old action cannot be written. -/
def setUnwritable : RtSigaction Bool :=
  { setSame with oact := 0x2000, writable := fun _ => false }

/-- **The program's own action stays installed** when `oact` cannot be written: the call
fails, and the wrapper is gone. -/
theorem sigaction_unwrapped :
    ∃ p' mem, preRtSigaction someWrappers fresh setUnwritable = .ok (p', mem, eFault) ∧
      p'.kernel 9 = someAction ∧ p'.kernel 9 ≠ realAction someWrappers (p'.tables true 9) := by
  have hcall : preRtSigaction someWrappers fresh setUnwritable = .ok
      ({ fresh with kernel := setUnwritable.applied fresh.kernel 9 }, setUnwritable.mem, eFault) := rfl
  exact ⟨_, _, hcall, by decide +kernel, by decide +kernel⟩

end Snitchaser.Signal
