import Mathlib.Data.Set.Lattice
import Mathlib.Order.CompletePartialOrder
import Snitchaser.Compiler.Transparent
import Snitchaser.Syscalls.Footprint

/-!
# The way into the kernel and back

`int80_syscall_entry` of `logger.S`, where the patch of a system call jumps to: the call is
logged before and after (`pre_log_syscall_entry`, `post_log_syscall_entry`), and what the first
of them returns says how it is issued. A normal call is made with the program's signal mask,
which is set and reset around it with calls of the interpreter's own; these save the registers
on the stack of the program.

## The model

* `Routine` is a C function with the stack it uses, which may be the program's. It is entered
  behind `pusha`, `pushf`, and with default flags. It leaves the registers saved there alone, and
  what it may write of the program's memory is said by these registers (`touches`).
* Before a call that is issued this is one byte of the set of an `rt_sigprocmask` that blocks
  signals (`preTouches`): that the pre handlers write nothing else is `preHandler_touches`, of all
  handlers of the table. `pre_rt_sigaction`, which writes more, has made its call itself.
* The kernel is a function on the processor that keeps the stack pointer. Of `rt_sigprocmask` is
  known that it returns in `eax` and writes to the interpreter's memory.
* The comparisons with the code returned set flags that are popped over; they are left out. So
  is what the child of `clone` does.

## What is proved

`syscall_entry_seen`: the kernel finds registers, flags and memory as the program has left them,
and the program as the kernel has left them, but for what the pre handler writes, and for some
bytes below the stack pointer. These are 24 for a normal call, none if signals are not let in;
behind a `clone` the interpreter goes on on the stack of the program, with all that its C functions
use of it.
-/

namespace Snitchaser.Compiler

open Foundation Foundation.X86 Syscalls

/-! ### The model -/

/-- Registers and flags are saved where the stack pointer is. -/
def Machine.saved (m : Machine) : Machine :=
  m.on fun c => ((c.pusha.pushf).push [defaultEflags]).popf

/-- They are restored, and the stack pointer is that of the program. -/
def Machine.left (m : Machine) : Machine :=
  let m := m.on fun c => c.popf.popa
  m.on fun c => c.setReg .esp (m.tls .oldStackTop)

/-- A C function that is called with registers and flags saved on top of the stack. It uses
`depth` bytes of the stack, and leaves memory outside `hidden` alone, but for what it writes by the
registers saved. -/
structure Routine (hidden : Set Word) (depth : ℕ) (touches : (Reg → Word) → Set Word) where
  call : Machine → Machine
  esp_call (m : Machine) : (call m).esp = m.esp
  mem_call (m : Machine) :
    Set.EqOn (call m).mem m.mem (hidden ∪ below m.esp depth ∪ touches m.left.regs)ᶜ
  /-- The flags and registers its caller has pushed. -/
  frame_call (m : Machine) : ∀ i < 36, m.esp + BitVec.ofNat 32 i ∉ touches m.left.regs →
    (call m).mem (m.esp + BitVec.ofNat 32 i) = m.mem (m.esp + BitVec.ofNat 32 i)
  tls_call (m : Machine) : ∀ field, field ≠ .logBufferCurrent → (call m).tls field = m.tls field

/-- It writes nothing of the program's. -/
def untouched : (Reg → Word) → Set Word := fun _ => ∅

/-- `__NR_rt_sigprocmask`. -/
def nrRtSigprocmask : Word := 175

/-- `__NR_rt_sigaction`. -/
def nrRtSigaction : Word := 174

/-- What a pre handler may write of the program's memory, and of the registers saved: a byte of the
set that `rt_sigprocmask(SIG_BLOCK, set, ..)` points to. The handler of `rt_sigaction` makes the
call itself; nothing is said of it. -/
def handlerTouches (nr how set : Word) : Set Word :=
  { x | nr = nrRtSigaction ∨ nr = nrRtSigprocmask ∧ how = Signal.sigBlock ∧ set ≠ 0 ∧ x = set + 4 }

/-- The same, by the registers of the call. -/
def preTouches (regs : Reg → Word) : Set Word := handlerTouches (regs .eax) (regs .ebx) (regs .ecx)

/-- `rt_sigprocmask`, in the kernel. -/
structure MaskCall (hidden : Set Word) where
  call : Cpu → Cpu
  regs_call (c : Cpu) : ∀ r, r ≠ .eax → (call c).regs r = c.regs r
  mem_call (c : Cpu) : Set.EqOn (call c).mem c.mem hiddenᶜ

/-- What a system call is made with. -/
structure SyscallEnv (hidden : Set Word) (depth : ℕ) where
  preLogSyscallEntry : Routine hidden depth preTouches
  postLogSyscallEntry : Routine hidden depth untouched
  clonePostParent : Routine hidden depth untouched
  /-- The call itself. -/
  kernel : Cpu → Cpu
  esp_kernel (c : Cpu) : (kernel c).esp = c.esp
  /-- The calls around it. -/
  mask : MaskCall hidden
  /-- `%fs:OFFSET_TLS_BASE`. -/
  tlsBase : Word
  offsetUnblockSigmask : Word
  offsetBlockSigmask : Word
  offsetCurrentSigmask : Word

/-- `SIG_SETMASK`. -/
def sigSetmask : Word := 2

/-- What is saved around it. -/
def maskOrder : List Reg := [.eax, .ebx, .ecx, .edx, .esi]

/-- `RESET_SIGPROCMASK`, up to the call: `edx` is `NULL` or points to a mask. -/
def maskEntered (tlsBase mask : Word) (oset : Option Word) (c : Cpu) : Cpu :=
  let c := c.pushf
  -- `subl $20, %esp` and five stores
  let c := { c.push (maskOrder.map c.regs) with flags := subFlags c.esp 20 }
  let c := (c.setReg .eax nrRtSigprocmask).setReg .ebx sigSetmask
  let c := { c.setReg .ecx (mask + tlsBase) with flags := addFlags mask tlsBase }
  let c := match oset with
    | none => c.setReg .edx 0
    | some offset => { c.setReg .edx (offset + tlsBase) with flags := addFlags offset tlsBase }
  c.setReg .esi 8

/-- `RESET_SIGPROCMASK`, from the call on. -/
def maskLeft (c : Cpu) : Cpu :=
  let saved := fun r => load32 c.mem (c.esp + BitVec.ofNat 32 (4 * maskOrder.idxOf r))
  let c := { c with regs := fun r => if r ∈ maskOrder then saved r else c.regs r }
  let c := { c.setReg .esp (c.esp + 20) with flags := addFlags c.esp 20 }
  c.popf

/-- `RESET_SIGPROCMASK`. -/
def resetSigprocmask (call : Cpu → Cpu) (tlsBase mask : Word) (oset : Option Word) (c : Cpu) : Cpu :=
  maskLeft (call (maskEntered tlsBase mask oset c))

/-- Where the entry is left to. -/
inductive SyscallExit where
  /-- To `real_branch`. -/
  | realBranch (m : Machine)
  /-- To `tpd->target`, in the program. -/
  | untraced (m : Machine)
  /-- To the child's side of `clone`. -/
  | child (m : Machine)
  /-- To `exit`. -/
  | exit

/-- `post_processing`. -/
def postProcessing {hidden : Set Word} {depth : ℕ} (env : SyscallEnv hidden depth) (m : Machine) :
    SyscallExit :=
  let m := env.postLogSyscallEntry.call m
  if m.regs .eax = 1 then .untraced m.left else .realBranch m.left

/-- `int80_syscall_entry` and `vdso_syscall_entry`, which are the same. -/
def syscallEntry {hidden : Set Word} {depth : ℕ} (env : SyscallEnv hidden depth) (m : Machine) :
    SyscallExit :=
  let m := env.preLogSyscallEntry.call m.entered
  if m.regs .eax = 0 then
    let m := m.left.on (resetSigprocmask env.mask.call env.tlsBase env.offsetUnblockSigmask none)
    let m := m.on env.kernel
    let m := m.on (resetSigprocmask env.mask.call env.tlsBase env.offsetBlockSigmask
      (some env.offsetCurrentSigmask))
    postProcessing env m.entered
  else if m.regs .eax = 1 then postProcessing env m
  else if m.regs .eax = 2 then postProcessing env (m.left.on env.kernel).entered
  else if m.regs .eax = 3 then
    let m := (m.left.on env.kernel).on fun c => c.pushf.popf
    if (m.regs .eax).slt 0 then postProcessing env m.saved
    else if m.regs .eax ≠ 0 then postProcessing env (env.clonePostParent.call m.saved)
    else .child m
  else .exit

/-! ### The calls around it -/

theorem regs_maskEntered (tlsBase mask : Word) (oset : Option Word) (c : Cpu) {r : Reg}
    (hr : r ∉ maskOrder) :
    (maskEntered tlsBase mask oset c).regs r = (c.pushf.push (maskOrder.map c.regs)).regs r := by
  cases oset <;> cases r <;> first | rfl | exact absurd (by decide) hr

theorem mem_maskEntered (tlsBase mask : Word) (oset : Option Word) (c : Cpu) :
    (maskEntered tlsBase mask oset c).mem = (c.push (maskOrder.map c.regs ++ [c.flags.toWord])).mem := by
  rw [← Cpu.push_push]
  cases oset <;> rfl

/-- The words saved around the call. -/
def maskSaved (c : Cpu) : List Word := maskOrder.map c.regs ++ [c.flags.toWord]

theorem esp_maskEntered (tlsBase mask : Word) (oset : Option Word) (c : Cpu) :
    (maskEntered tlsBase mask oset c).esp = (c.push (maskSaved c)).esp := by
  rw [maskSaved, ← Cpu.push_push]
  exact regs_maskEntered tlsBase mask oset c (by decide)

/-- Registers and flags come back from where they were saved. -/
theorem maskLeft_eq (c c' : Cpu) (hesp : c'.esp = (c.push (maskSaved c)).esp)
    (hmem : ∀ i < 24, c'.mem (c'.esp + BitVec.ofNat 32 i) =
      (c.push (maskSaved c)).mem (c'.esp + BitVec.ofNat 32 i))
    (hregs : ∀ r ∉ maskOrder, r ≠ .esp → c'.regs r = c.regs r) :
    maskLeft c' = ⟨c.regs, c.flags, c'.mem⟩ := by
  have hlen : (maskSaved c).length = 6 := rfl
  have hload : ∀ i < 6, load32 c'.mem (c'.esp + BitVec.ofNat 32 (4 * i)) = (maskSaved c).getD i 0 := by
    intro i hi
    rw [← Cpu.load32_push c (by rw [hlen]; decide) (hlen.symm ▸ hi), ← hesp]
    apply load32_congr
    intro j hj
    rw [BitVec.add_assoc, ← BitVec.ofNat_add, hmem _ (by omega)]
  have hrest : ∀ r, (maskLeft c').regs r =
      if r = .esp then c'.esp + 20 + 4
      else if r ∈ maskOrder then load32 c'.mem (c'.esp + BitVec.ofNat 32 (4 * maskOrder.idxOf r))
      else c'.regs r := by
    intro r
    cases r <;> rfl
  refine Cpu.ext (funext fun r => ?_) ?_ rfl
  · rw [hrest]
    split_ifs with hr hin
    · rw [hr, hesp, Cpu.esp_push, hlen, add_assoc]
      exact BitVec.sub_add_cancel _ _
    · simp only [maskOrder, List.mem_cons, List.not_mem_nil, or_false] at hin
      rcases hin with rfl | rfl | rfl | rfl | rfl
      · exact hload 0 (by decide)
      · exact hload 1 (by decide)
      · exact hload 2 (by decide)
      · exact hload 3 (by decide)
      · exact hload 4 (by decide)
    · exact hregs r hin hr
  · show Flags.ofWord (load32 c'.mem (c'.esp + 20)) = c.flags
    have hflags : load32 c'.mem (c'.esp + 20) = c.flags.toWord := hload 5 (by decide)
    rw [hflags, Flags.ofWord_toWord]

/-- **The mask is set behind the program's back**, but for 24 bytes below its stack pointer. -/
theorem resetSigprocmask_agree {hidden : Set Word} (k : MaskCall hidden) (tlsBase mask : Word)
    (oset : Option Word) (c : Cpu) (hstack : Disjoint (below c.esp 24) hidden) :
    (resetSigprocmask k.call tlsBase mask oset c).Agree (hidden ∪ below c.esp 24)ᶜ c := by
  have hentered := esp_maskEntered tlsBase mask oset c
  have hesp : (k.call (maskEntered tlsBase mask oset c)).esp = (c.push (maskSaved c)).esp :=
    (k.regs_call _ _ (by decide)).trans hentered
  have hmem : Set.EqOn (k.call (maskEntered tlsBase mask oset c)).mem (c.push (maskSaved c)).mem hiddenᶜ := by
    rw [maskSaved, ← mem_maskEntered tlsBase mask oset c]
    exact k.mem_call _
  have hleft : maskLeft (k.call (maskEntered tlsBase mask oset c)) =
      ⟨c.regs, c.flags, (k.call (maskEntered tlsBase mask oset c)).mem⟩ := by
    refine maskLeft_eq c _ hesp (fun i hi => hmem ?_) fun r hr hne => ?_
    · rw [hesp, Cpu.esp_push]
      exact Set.disjoint_left.mp hstack (c.mem_below_push (maskSaved c) hi)
    · have heax : r ≠ .eax := by
        rintro rfl
        exact hr (by decide)
      rw [k.regs_call _ _ heax, regs_maskEntered _ _ _ _ hr]
      exact (Function.update_of_ne hne _ _).trans (Function.update_of_ne hne _ _)
  unfold resetSigprocmask
  rw [hleft]
  refine ⟨rfl, rfl, fun x hx => ?_⟩
  rw [Set.mem_compl_iff, Set.mem_union, not_or] at hx
  exact (hmem hx.1).trans (c.push_eqOn (maskSaved c) hx.2)

theorem pushf_popf_agree (c : Cpu) : c.pushf.popf.Agree (below c.esp 4)ᶜ c := by
  have hword : load32 c.pushf.mem (c.pushf.esp + BitVec.ofNat 32 (4 * 0)) = c.flags.toWord :=
    Cpu.load32_push c (show 4 * [c.flags.toWord].length ≤ 2 ^ 32 from Nat.le_of_ble_eq_true rfl)
      Nat.zero_lt_one
  refine ⟨?_, ?_, c.push_eqOn [c.flags.toWord]⟩
  · funext r
    by_cases hr : r = .esp
    · rw [hr]
      show c.pushf.popf.esp = c.esp
      rw [Cpu.esp_popf, Cpu.pushf, Cpu.esp_push]
      exact BitVec.sub_add_cancel _ _
    · exact (Function.update_of_ne hr _ _).trans (Function.update_of_ne hr _ _)
  · show Flags.ofWord (load32 c.pushf.mem c.pushf.esp) = c.flags
    rw [Nat.mul_zero, BitVec.add_zero] at hword
    rw [hword, Flags.ofWord_toWord]

/-! ### The functions called -/

/-- **Of all pre handlers of the table**, one that returns writes what `handlerTouches` says. -/
theorem preHandler_touches {ι : Type} [DecidableEq ι] {nr : Word} {env : PreEnv ι} {regs : PushaRegs}
    {out : Prepared ι} (h : preHandler nr env regs = .ok out) {code : Word}
    (hret : out.ret = some code) :
    Set.EqOn out.mem env.mem (handlerTouches nr regs.ebx regs.ecx)ᶜ := by
  intro x hx
  by_cases haction : nr = nrRtSigaction
  · exact absurd (.inl haction) hx
  by_cases hmask : nr = nrRtSigprocmask
  · subst hmask
    obtain ⟨mem, hmem, hout⟩ := bind_eq_ok.mp (show preRtSigprocmask env regs = .ok out from h)
    cases hout
    by_contra hne
    obtain ⟨⟨hhow, hset, -⟩, hx'⟩ := (preRtSigprocmask_ne_iff hmem).mp hne
    exact hx (.inr ⟨rfl, hhow, hset, hx'⟩)
  by_cases hexit : nr = nrExit
  · -- the thread ends in the handler
    subst hexit
    cases (show preExit env regs = .ok out from h)
    cases hret
  · rw [(same_of_preHandler h hmask hexit haction).2]

section Routine

variable {hidden : Set Word} {depth : ℕ} {touches : (Reg → Word) → Set Word}

/-- One function after the other, with the same registers saved. -/
def Routine.andThen (f g : Routine hidden depth untouched) : Routine hidden depth untouched where
  call m := g.call (f.call m)
  esp_call m := (g.esp_call _).trans (f.esp_call m)
  mem_call m := by
    have hg := g.mem_call (f.call m)
    rw [f.esp_call] at hg
    exact hg.trans (f.mem_call m)
  frame_call m i hi h := by
    have hg := g.frame_call (f.call m) i hi id
    rw [f.esp_call] at hg
    exact hg.trans (f.frame_call m i hi h)
  tls_call m field hfield := (g.tls_call _ field hfield).trans (f.tls_call m field hfield)

/-- What is pushed to save the registers. -/
theorem Machine.mem_saved (m : Machine) : m.saved.mem =
    (m.toCpu.push (defaultEflags :: m.flags.toWord :: pushaOrder.map m.regs)).mem := by
  show ((m.toCpu.pusha.pushf).push [defaultEflags]).mem = _
  unfold Cpu.pushf Cpu.pusha
  rw [Cpu.push_push, Cpu.push_push]
  rfl

theorem Machine.esp_saved (m : Machine) : m.saved.esp = m.toCpu.pusha.pushf.esp := by
  show (((m.toCpu.pusha.pushf).push [defaultEflags]).popf).esp = _
  rw [Cpu.esp_popf, Cpu.esp_push]
  exact BitVec.sub_add_cancel _ _

theorem Machine.esp_saved_eq (m : Machine) : m.saved.esp = m.esp - BitVec.ofNat 32 36 := by
  rw [m.esp_saved]
  unfold Cpu.pushf Cpu.pusha
  rw [Cpu.push_push, Cpu.esp_push]
  rfl

/-- Registers and flags are on top of the stack. -/
theorem Machine.frame_saved (m : Machine) {i : ℕ} (hi : i < 36) :
    m.saved.mem (m.saved.esp + BitVec.ofNat 32 i) =
      m.toCpu.pusha.pushf.mem (m.saved.esp + BitVec.ofNat 32 i) := by
  rw [m.esp_saved]
  apply Cpu.push_mem_above
  simp only [List.length_singleton]
  omega

/-- The registers a function finds saved are those of the program. -/
theorem Machine.regs_left_saved (m : Machine) :
    m.saved.left.regs = (m.toCpu.setReg .esp (m.tls .oldStackTop)).regs := by
  have hpop := Cpu.popa_popf m.toCpu m.saved.toCpu m.esp_saved fun i hi => m.frame_saved hi
  have hleft : m.saved.left.toCpu = m.saved.toCpu.popf.popa.setReg .esp (m.tls .oldStackTop) := rfl
  rw [hleft, hpop]
  rfl

/-- **Save, call, restore**: the program finds its registers, its flags, and its memory but for
what was used of the stack and what the function writes for it. -/
theorem Routine.left_saved (f : Routine hidden depth touches) (m : Machine)
    (hfree : ∀ i < 36, m.saved.esp + BitVec.ofNat 32 i ∉ touches m.saved.left.regs) :
    (f.call m.saved).left.Agree (hidden ∪ below m.esp (40 + depth) ∪ touches m.saved.left.regs)ᶜ
      (m.toCpu.setReg .esp (m.tls .oldStackTop)) := by
  have hesp : (f.call m.saved).esp = m.toCpu.pusha.pushf.esp := (f.esp_call _).trans m.esp_saved
  have hframe : ∀ i < 36, (f.call m.saved).mem ((f.call m.saved).esp + BitVec.ofNat 32 i) =
      m.toCpu.pusha.pushf.mem ((f.call m.saved).esp + BitVec.ofNat 32 i) := by
    intro i hi
    rw [f.esp_call, f.frame_call _ i hi (hfree i hi), m.frame_saved hi]
  have hpop := Cpu.popa_popf _ _ hesp hframe
  have hold : (f.call m.saved).tls .oldStackTop = m.tls .oldStackTop := f.tls_call _ _ (by decide)
  have hleft : (f.call m.saved).left.toCpu =
      (f.call m.saved).toCpu.popf.popa.setReg .esp ((f.call m.saved).tls .oldStackTop) := rfl
  rw [hleft, hpop, hold]
  refine ⟨rfl, rfl, fun x hx => ?_⟩
  rw [Set.mem_compl_iff, Set.mem_union, Set.mem_union, not_or, not_or] at hx
  obtain ⟨⟨hhidden, hbelow⟩, htouches⟩ := hx
  have hdeep : x ∉ below m.saved.esp depth := by
    intro h
    rw [m.esp_saved_eq] at h
    exact hbelow (below_mono _ (by omega) (below_sub _ _ _ h))
  refine (f.mem_call m.saved fun h => h.elim (fun h => h.elim hhidden hdeep) htouches).trans ?_
  rw [m.mem_saved]
  exact m.toCpu.push_eqOn _ fun h => hbelow (below_mono _ (Nat.le_add_right 40 depth) h)

/-- A function that writes nothing of the program's. -/
theorem Routine.left_saved_untouched (f : Routine hidden depth untouched) (m : Machine) :
    (f.call m.saved).left.Agree (hidden ∪ below m.esp (40 + depth))ᶜ
      (m.toCpu.setReg .esp (m.tls .oldStackTop)) := by
  have h := f.left_saved m fun _ _ => id
  rwa [untouched, Set.union_empty] at h

theorem Routine.tls_left_saved (f : Routine hidden depth touches) (m : Machine) {field : TlsField}
    (hfield : field ≠ .logBufferCurrent) : (f.call m.saved).left.tls field = m.tls field :=
  f.tls_call m.saved field hfield

/-- The machine on the stack of the interpreter. -/
theorem Machine.entered_eq (m : Machine) :
    m.entered = ((m.setTls .oldStackTop m.esp).on fun c => c.setReg .esp (m.tls .stackTop)).saved := rfl

theorem setReg_esp_back (c : Cpu) (top : Word) : (c.setReg .esp top).setReg .esp c.esp = c := by
  unfold Cpu.setReg
  rw [Function.update_idem]
  exact congrArg (fun regs => Cpu.mk regs c.flags c.mem) (Function.update_eq_self .esp c.regs)

theorem Machine.regs_left_entered (m : Machine) : m.entered.left.regs = m.regs := by
  rw [m.entered_eq, Machine.regs_left_saved]
  exact congrArg Cpu.regs (setReg_esp_back m.toCpu (m.tls .stackTop))

/-- The registers are saved on the stack of the interpreter. -/
theorem Machine.frame_entered (m : Machine) {i : ℕ} (hi : i < 36) :
    m.entered.esp + BitVec.ofNat 32 i ∈ below (m.tls .stackTop) 36 := by
  have hpush := (m.toCpu.setReg .esp (m.tls .stackTop)).mem_below_push
    (m.flags.toWord :: pushaOrder.map m.regs) (i := i) hi
  rw [m.entered_eq, Machine.esp_saved_eq]
  exact hpush

/-- On the stack of the interpreter. -/
theorem Routine.left_entered (f : Routine hidden depth touches) {m : Machine}
    (hstack : below (m.tls .stackTop) (40 + depth) ⊆ hidden)
    (htouches : Disjoint (touches m.regs) hidden) :
    (f.call m.entered).left.Agree (hidden ∪ touches m.regs)ᶜ m.toCpu := by
  have hfree : ∀ i < 36, m.entered.esp + BitVec.ofNat 32 i ∉ touches m.entered.left.regs := by
    intro i hi h
    rw [m.regs_left_entered] at h
    exact Set.disjoint_left.mp htouches h (hstack (below_mono _ (by omega) (m.frame_entered hi)))
  have h := f.left_saved ((m.setTls .oldStackTop m.esp).on fun c => c.setReg .esp (m.tls .stackTop)) hfree
  have hset : hidden ∪ below (m.tls .stackTop) (40 + depth) = hidden := Set.union_eq_left.mpr hstack
  have hview : (f.call m.entered).left.Agree
    (hidden ∪ below (m.tls .stackTop) (40 + depth) ∪ touches m.entered.left.regs)ᶜ
    ((m.toCpu.setReg .esp (m.tls .stackTop)).setReg .esp m.esp) := h
  rwa [hset, setReg_esp_back, m.regs_left_entered] at hview

theorem Routine.left_entered_untouched (f : Routine hidden depth untouched) {m : Machine}
    (hstack : below (m.tls .stackTop) (40 + depth) ⊆ hidden) :
    (f.call m.entered).left.Agree hiddenᶜ m.toCpu := by
  have h := f.left_entered hstack (Set.empty_disjoint hidden)
  rwa [untouched, Set.union_empty] at h

theorem Routine.tls_left_entered (f : Routine hidden depth touches) (m : Machine) {field : TlsField}
    (hfield : field ≠ .logBufferCurrent) (hne : field ≠ .oldStackTop) :
    (f.call m.entered).left.tls field = m.tls field :=
  (f.tls_call m.entered field hfield).trans (Function.update_of_ne hne _ _)

theorem Routine.oldStackTop_left_entered (f : Routine hidden depth touches) (m : Machine) :
    (f.call m.entered).left.tls .oldStackTop = m.esp :=
  f.tls_call m.entered .oldStackTop (by decide)

end Routine

/-! ### The entry -/

/-- How many bytes below the stack pointer of the program are written, by the code that
`pre_log_syscall_entry` returns. -/
def scratch (depth : ℕ) (code : Word) : ℕ :=
  if code = 0 then 24 else if code = 3 then 40 + depth else 0

section Entry

variable {hidden : Set Word} {depth : ℕ} (env : SyscallEnv hidden depth)

/-- The entry goes on to `m'` behind `post_log_syscall_entry`, in the code cache or out of it. -/
def GoesOn (e : SyscallExit) (m' : Machine) : Prop :=
  ∃ m, m' = (env.postLogSyscallEntry.call m).left ∧
    e = if (env.postLogSyscallEntry.call m).regs .eax = 1 then .untraced m' else .realBranch m'

theorem postProcessing_goesOn (m : Machine) :
    GoesOn env (postProcessing env m) (env.postLogSyscallEntry.call m).left := ⟨m, rfl, rfl⟩

/-- **The program goes on in `m'`** with what the kernel has left in `c`, but for `n` bytes below
its stack pointer. -/
structure Returned (m : Machine) (n : ℕ) (c : Cpu) (m' : Machine) : Prop where
  goesOn : GoesOn env (syscallEntry env m) m'
  agree : m'.Agree (hidden ∪ below m.esp n)ᶜ c
  target : m'.tls .target = m.tls .target
  stackTop : m'.tls .stackTop = m.tls .stackTop

theorem agree_mono {s s' : Set Word} (h : s' ⊆ s) {c c' : Cpu} (hc : c.Agree s c') : c.Agree s' c' :=
  ⟨hc.regs, hc.flags, hc.mem.mono h⟩

/-- Behind a call issued on the stack of the interpreter. -/
theorem postProcessing_entered {m : Machine} (hstack : below (m.tls .stackTop) (40 + depth) ⊆ hidden) :
    ∃ m', GoesOn env (postProcessing env m.entered) m' ∧ m'.Agree hiddenᶜ m.toCpu ∧
      m'.tls .target = m.tls .target ∧ m'.tls .stackTop = m.tls .stackTop :=
  ⟨_, postProcessing_goesOn env _, env.postLogSyscallEntry.left_entered_untouched hstack,
    env.postLogSyscallEntry.tls_left_entered m (by decide) (by decide),
    env.postLogSyscallEntry.tls_left_entered m (by decide) (by decide)⟩

/-- Before a call is issued. -/
structure Issued (hidden : Set Word) (m m₁ : Machine) : Prop where
  agree : m₁.Agree (hidden ∪ preTouches m.regs)ᶜ m.toCpu
  target : m₁.tls .target = m.tls .target
  stackTop : m₁.tls .stackTop = m.tls .stackTop
  oldStackTop : m₁.tls .oldStackTop = m.esp

theorem issued {m : Machine} (hstack : below (m.tls .stackTop) (40 + depth) ⊆ hidden)
    (htouches : Disjoint (preTouches m.regs) hidden) :
    Issued hidden m (env.preLogSyscallEntry.call m.entered).left :=
  ⟨env.preLogSyscallEntry.left_entered hstack htouches,
    env.preLogSyscallEntry.tls_left_entered m (by decide) (by decide),
    env.preLogSyscallEntry.tls_left_entered m (by decide) (by decide),
    env.preLogSyscallEntry.oldStackTop_left_entered m⟩

theorem compl_subset (s : Set Word) : (hidden ∪ s)ᶜ ⊆ hiddenᶜ :=
  Set.compl_subset_compl.mpr Set.subset_union_left

/-- Outside of three sets is outside of the first and the last. -/
theorem compl_subset_outer (s t : Set Word) : (hidden ∪ s ∪ t)ᶜ ⊆ (hidden ∪ t)ᶜ :=
  Set.compl_subset_compl.mpr (Set.union_subset_union_left t Set.subset_union_left)

/-- **A normal call**, with the program's mask. -/
theorem syscallEntry_normal {m : Machine} (hstack : below (m.tls .stackTop) (40 + depth) ⊆ hidden)
    (htouches : Disjoint (preTouches m.regs) hidden) (hbelow : Disjoint (below m.esp 24) hidden)
    (hcode : (env.preLogSyscallEntry.call m.entered).regs .eax = 0) :
    ∃ c m', c.Agree (hidden ∪ below m.esp 24 ∪ preTouches m.regs)ᶜ m.toCpu ∧
      Returned env m 24 (env.kernel c) m' := by
  have h := issued env hstack htouches
  have hentry : syscallEntry env m = postProcessing env
      ((((env.preLogSyscallEntry.call m.entered).left.on (resetSigprocmask env.mask.call env.tlsBase
        env.offsetUnblockSigmask none)).on env.kernel).on (resetSigprocmask env.mask.call env.tlsBase
        env.offsetBlockSigmask (some env.offsetCurrentSigmask))).entered := if_pos hcode
  generalize (env.preLogSyscallEntry.call m.entered).left = m₁ at h hentry
  have hbefore := resetSigprocmask_agree env.mask env.tlsBase env.offsetUnblockSigmask none m₁.toCpu
  rw [h.agree.esp] at hbefore
  have hesp : (env.kernel (resetSigprocmask env.mask.call env.tlsBase env.offsetUnblockSigmask none
      m₁.toCpu)).esp = m.esp :=
    ((env.esp_kernel _).trans (hbefore hbelow).esp).trans h.agree.esp
  have hafter := resetSigprocmask_agree env.mask env.tlsBase env.offsetBlockSigmask
    (some env.offsetCurrentSigmask) (env.kernel (resetSigprocmask env.mask.call env.tlsBase
      env.offsetUnblockSigmask none m₁.toCpu))
  rw [hesp] at hafter
  obtain ⟨m', hon, hagree, htarget, htop⟩ := postProcessing_entered env
    (m := ((m₁.on (resetSigprocmask env.mask.call env.tlsBase env.offsetUnblockSigmask none)).on
      env.kernel).on (resetSigprocmask env.mask.call env.tlsBase env.offsetBlockSigmask
      (some env.offsetCurrentSigmask))) (show below (m₁.tls .stackTop) _ ⊆ _ by rwa [h.stackTop])
  refine ⟨_, m', (agree_mono (compl_subset _) (hbefore hbelow)).trans
    (agree_mono (compl_subset_outer _ _) h.agree), ?_, (agree_mono (compl_subset _) hagree).trans
    (hafter hbelow), htarget.trans h.target, htop.trans h.stackTop⟩
  rwa [hentry]

/-- **A call that no signal may break.** -/
theorem syscallEntry_noSignal {m : Machine} (hstack : below (m.tls .stackTop) (40 + depth) ⊆ hidden)
    (htouches : Disjoint (preTouches m.regs) hidden)
    (hcode : (env.preLogSyscallEntry.call m.entered).regs .eax = 2) :
    ∃ c m', c.Agree (hidden ∪ below m.esp 0 ∪ preTouches m.regs)ᶜ m.toCpu ∧
      Returned env m 0 (env.kernel c) m' := by
  have h := issued env hstack htouches
  have hentry : syscallEntry env m = postProcessing env
      ((env.preLogSyscallEntry.call m.entered).left.on env.kernel).entered := by
    unfold syscallEntry
    simp only
    rw [hcode, if_neg (by decide), if_neg (by decide), if_pos rfl]
  generalize (env.preLogSyscallEntry.call m.entered).left = m₁ at h hentry
  obtain ⟨m', hon, hagree, htarget, htop⟩ := postProcessing_entered env (m := m₁.on env.kernel)
    (show below (m₁.tls .stackTop) _ ⊆ _ by rwa [h.stackTop])
  refine ⟨m₁.toCpu, m', agree_mono (compl_subset_outer _ _) h.agree, ?_,
    agree_mono (compl_subset _) hagree, htarget.trans h.target, htop.trans h.stackTop⟩
  rwa [hentry]

/-- Behind a `clone`, on the stack of the program. -/
theorem cloneProcessing {m m₁ : Machine} (h : Issued hidden m m₁) (f : Routine hidden depth untouched) :
    (f.call (((m₁.on env.kernel).on fun c => c.pushf.popf).saved)).left.Agree
      (hidden ∪ below m.esp (40 + depth))ᶜ (env.kernel m₁.toCpu) := by
  have hflags := pushf_popf_agree (env.kernel m₁.toCpu)
  have hesp : (env.kernel m₁.toCpu).esp = m.esp := (env.esp_kernel _).trans h.agree.esp
  have hesp' : (env.kernel m₁.toCpu).pushf.popf.esp = m.esp := hflags.esp.trans hesp
  have hleft : (f.call (((m₁.on env.kernel).on fun c => c.pushf.popf).saved)).left.Agree
      (hidden ∪ below (env.kernel m₁.toCpu).pushf.popf.esp (40 + depth))ᶜ
      ((env.kernel m₁.toCpu).pushf.popf.setReg .esp (m₁.tls .oldStackTop)) :=
    f.left_saved_untouched ((m₁.on env.kernel).on fun c => c.pushf.popf)
  have hself : (env.kernel m₁.toCpu).pushf.popf.setReg .esp (m₁.tls .oldStackTop) =
      (env.kernel m₁.toCpu).pushf.popf := by
    rw [h.oldStackTop, ← hesp']
    unfold Cpu.setReg Cpu.esp
    rw [Function.update_eq_self]
  rw [hself, hesp'] at hleft
  rw [hesp] at hflags
  refine hleft.trans (agree_mono ?_ hflags)
  refine Set.compl_subset_compl.mpr ((below_mono _ ?_).trans Set.subset_union_right)
  omega

/-- **A `clone`**, on the side of the parent, or one that fails. -/
theorem syscallEntry_clone {m : Machine} (hstack : below (m.tls .stackTop) (40 + depth) ⊆ hidden)
    (htouches : Disjoint (preTouches m.regs) hidden)
    (hcode : (env.preLogSyscallEntry.call m.entered).regs .eax = 3) :
    ∃ c, c.Agree (hidden ∪ below m.esp (40 + depth) ∪ preTouches m.regs)ᶜ m.toCpu ∧
      ((env.kernel c).regs .eax ≠ 0 → ∃ m', Returned env m (40 + depth) (env.kernel c) m') := by
  have h := issued env hstack htouches
  have hentry : syscallEntry env m =
      let m₂ := ((env.preLogSyscallEntry.call m.entered).left.on env.kernel).on fun c => c.pushf.popf
      if (m₂.regs .eax).slt 0 then postProcessing env m₂.saved
      else if m₂.regs .eax ≠ 0 then postProcessing env (env.clonePostParent.call m₂.saved)
      else .child m₂ := by
    unfold syscallEntry
    simp only
    rw [hcode, if_neg (by decide), if_neg (by decide), if_neg (by decide), if_pos rfl]
  generalize (env.preLogSyscallEntry.call m.entered).left = m₁ at h hentry
  refine ⟨m₁.toCpu, agree_mono (compl_subset_outer _ _) h.agree, fun hparent => ?_⟩
  have heax : ((m₁.on env.kernel).on fun c => c.pushf.popf).regs .eax ≠ 0 := by
    show (env.kernel m₁.toCpu).pushf.popf.regs .eax ≠ 0
    rwa [(pushf_popf_agree _).regs]
  simp only [if_pos heax] at hentry
  -- `post_log_syscall_entry` is called, with or without `clone_post_parent` before it
  have hreturned : ∀ f : Routine hidden depth untouched, ∀ x : Machine, syscallEntry env m = postProcessing env x →
      env.postLogSyscallEntry.call x = f.call (((m₁.on env.kernel).on fun c => c.pushf.popf).saved) →
      ∃ m', Returned env m (40 + depth) (env.kernel m₁.toCpu) m' := by
    intro f x hx hf
    have hon := postProcessing_goesOn env x
    rw [hf, ← hx] at hon
    refine ⟨_, hon, cloneProcessing env h f, ?_, ?_⟩
    · exact (f.tls_left_saved _ (by decide)).trans h.target
    · exact (f.tls_left_saved _ (by decide)).trans h.stackTop
  split_ifs at hentry
  · exact hreturned env.postLogSyscallEntry _ hentry rfl
  · exact hreturned (env.clonePostParent.andThen env.postLogSyscallEntry) _ hentry rfl

/-- **The kernel finds what the program has left, and the program what the kernel has left**, but
for the bytes below the stack pointer that `scratch` says, and before the call for what the pre
handler writes. This holds of the three ways to issue a call; of `clone`, on the side of the
parent. -/
theorem syscall_entry_seen {m : Machine} (hstack : below (m.tls .stackTop) (40 + depth) ⊆ hidden)
    (htouches : Disjoint (preTouches m.regs) hidden) (hbelow : Disjoint (below m.esp 24) hidden)
    {code : Word} (hcode : (env.preLogSyscallEntry.call m.entered).regs .eax = code)
    (hissued : code = 0 ∨ code = 2 ∨ code = 3) :
    ∃ c, c.Agree (hidden ∪ below m.esp (scratch depth code) ∪ preTouches m.regs)ᶜ m.toCpu ∧
      ((code = 3 → (env.kernel c).regs .eax ≠ 0) →
        ∃ m', Returned env m (scratch depth code) (env.kernel c) m') := by
  rcases hissued with rfl | rfl | rfl
  · obtain ⟨c, m', hc, h⟩ := syscallEntry_normal env hstack htouches hbelow hcode
    exact ⟨c, hc, fun _ => ⟨m', h⟩⟩
  · obtain ⟨c, m', hc, h⟩ := syscallEntry_noSignal env hstack htouches hcode
    exact ⟨c, hc, fun _ => ⟨m', h⟩⟩
  · obtain ⟨c, hc, h⟩ := syscallEntry_clone env hstack htouches hcode
    exact ⟨c, hc, fun hparent => h (hparent rfl)⟩

end Entry

/-! ### A call -/

/-- A C function that does nothing but return. -/
def Routine.returning {touches : (Reg → Word) → Set Word} (hidden : Set Word) (depth : ℕ) (v : Word) :
    Routine hidden depth touches where
  call m := m.on fun c => c.setReg .eax v
  esp_call _ := rfl
  mem_call _ _ _ := rfl
  frame_call _ _ _ _ := rfl
  tls_call _ _ _ := rfl

/-- The registers saved on top of the stack, as a handler finds them. -/
def Machine.pushaRegs (m : Machine) : PushaRegs :=
  let regs := m.left.regs
  ⟨m.left.flags.toWord, regs .edi, regs .esi, regs .ebp, load32 m.mem (m.esp + 16), regs .ebx,
    regs .edx, regs .ecx, regs .eax⟩

/-- `syscall_table[nr].pre_handler(regs)`: memory behind it, and what it returns. A handler that
ends the thread or the process is left out. -/
def Machine.preHandled {ι : Type} [DecidableEq ι] (env : PreEnv ι) (m : Machine) : Mem × Word :=
  match preHandler (m.left.regs .eax)
    { env with mem := m.mem, oldStackTop := m.tls .oldStackTop } m.pushaRegs with
  | .ok ⟨_, mem, _, some code⟩ => (mem, code)
  | _ => (m.mem, 1)

theorem Machine.preHandled_eqOn {ι : Type} [DecidableEq ι] (env : PreEnv ι) (m : Machine) :
    Set.EqOn (m.preHandled env).1 m.mem (preTouches m.left.regs)ᶜ := by
  unfold Machine.preHandled
  split
  · rename_i hout
    exact preHandler_touches hout rfl
  · exact fun _ _ => rfl

/-- `pre_log_syscall_entry`, but for the log. -/
def Routine.preHandled {ι : Type} [DecidableEq ι] (env : PreEnv ι) (hidden : Set Word) (depth : ℕ) :
    Routine hidden depth preTouches where
  call m := { m with mem := (m.preHandled env).1 }.on fun c => c.setReg .eax (m.preHandled env).2
  esp_call _ := rfl
  mem_call m _ hx := m.preHandled_eqOn env fun h => hx (.inr h)
  frame_call m _ _ h := m.preHandled_eqOn env h
  tls_call _ _ _ := rfl

/-- A normal call, to which the kernel answers with a number. -/
def someSyscallEnv : SyscallEnv someEnv.hidden 0x100 where
  preLogSyscallEntry := .preHandled blockerEnv _ _
  postLogSyscallEntry := .returning _ _ 0
  clonePostParent := .returning _ _ 0
  kernel c := c.setReg .eax 42
  esp_kernel _ := rfl
  mask := ⟨fun c => c.setReg .eax 0, fun _ _ hr => Function.update_of_ne hr _ _, fun _ _ _ => rfl⟩
  tlsBase := 0x50008000
  offsetUnblockSigmask := 0x100
  offsetBlockSigmask := 0x108
  offsetCurrentSigmask := 0x110

/-- `rt_sigprocmask(SIG_BLOCK, 0x8049000, ..)`, of a set with `SIGKILL_REPLACE`. -/
def blockingMachine : Machine :=
  { someMachine true with
    regs := fun
      | .esp => 0xbffff000
      | .eax => 175
      | .ebx => 0
      | .ecx => 0x8049000
      | _ => 0
    mem := fun a => if a = 0x8049004 then 1 else 0 }

theorem toNat_of_mem_below {a x : Word} {n : ℕ} (hn : n ≤ a.toNat) (h : x ∈ below a n) :
    a.toNat - n ≤ x.toNat ∧ x.toNat < a.toNat := by
  obtain ⟨i, hpos, hi, rfl⟩ := h
  have hlt := a.isLt
  rw [BitVec.toNat_sub, BitVec.toNat_ofNat]
  omega

theorem someMachine_stack :
    below ((someMachine true).tls .stackTop) (40 + 0x100) ⊆ someEnv.hidden := by
  intro x hx
  have h := toNat_of_mem_below (show 40 + 0x100 ≤ (0x50003000 : Word).toNat by decide) hx
  have htop : (0x50003000 : Word).toNat = 0x50003000 := rfl
  exact ⟨by omega, by omega⟩

theorem preTouches_blocking : preTouches blockingMachine.regs = {0x8049004} := by
  ext x
  constructor
  · rintro (hnr | ⟨-, -, -, hx⟩)
    · exact absurd hnr (by decide)
    · exact hx
  · exact fun hx => .inr ⟨rfl, rfl, by decide, hx⟩

/-- The kernel finds the registers of the call, and the word of the set that is not written. The
program finds the answer, with the flags it had. -/
theorem syscall_entry_seen_blocking :
    ∃ (c : Cpu) (m' : Machine), c.regs = blockingMachine.regs ∧ c.mem 0x8049000 = blockingMachine.mem 0x8049000 ∧
      GoesOn someSyscallEnv (syscallEntry someSyscallEnv blockingMachine) m' ∧
      m'.regs .eax = 42 ∧ m'.flags = blockingMachine.flags := by
  have htop : (0xbffff000 : Word).toNat = 0xbffff000 := rfl
  have hset : (0x8049000 : Word).toNat = 0x8049000 := rfl
  have hbyte : (0x8049004 : Word).toNat = 0x8049004 := rfl
  have hstack : ∀ x ∈ below blockingMachine.esp 24, 0xbfffefe8 ≤ x.toNat := fun x hx => by
    have h := toNat_of_mem_below (show 24 ≤ (0xbffff000 : Word).toNat by decide) hx
    omega
  have htouches : Disjoint (preTouches blockingMachine.regs) someEnv.hidden := by
    rw [preTouches_blocking, Set.disjoint_singleton_left]
    intro hhidden
    have hstart : 0x50000000 ≤ (0x8049004 : Word).toNat := hhidden.1
    omega
  have hbelow : Disjoint (below blockingMachine.esp 24) someEnv.hidden := by
    refine Set.disjoint_left.mpr fun x hx hhidden => ?_
    have hend : x.toNat < 0x60000000 := hhidden.2
    have h := hstack x hx
    omega
  obtain ⟨c, hc, hon⟩ := syscall_entry_seen someSyscallEnv (m := blockingMachine)
    someMachine_stack htouches hbelow rfl (.inl rfl)
  obtain ⟨m', h⟩ := hon fun h => absurd h (by decide)
  refine ⟨c, m', hc.regs, hc.mem ?_, h.goesOn, congrFun h.agree.regs .eax,
    h.agree.flags.trans hc.flags⟩
  rw [preTouches_blocking]
  rintro ((hhidden | hx) | hx)
  · have hstart : 0x50000000 ≤ (0x8049000 : Word).toNat := hhidden.1
    omega
  · have h := hstack _ hx
    omega
  · exact absurd hx (by decide)

end Snitchaser.Compiler
