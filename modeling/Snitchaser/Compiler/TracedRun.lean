import Snitchaser.Compiler.Recompile
import Snitchaser.Compiler.SyscallEntry

/-!
# A traced run

A thread in the code cache, from block to block: the head of a block, the bytes copied from the
program, the patch or the jump written over it, then a dispatch, a chained block, or a system call
and a dispatch. Beside it the program as it would run by itself.

## The model

* `Program` is the code of the traced program, which does not change, and what the processor does
  with bytes of it that hold no branch. A block has the same bytes as the program.
* `Round` is all that is different from one block to the next: C functions called, pages and answers
  of the kernel, the time stamp. It says that the log buffer has room behind each check, which system
  calls are issued, and that these are traced. Programs that make other ones (`rt_sigaction`, which
  its handler makes for the program, or `exit`) take no `Program.Step` there.
* `traceBlock` is one block in the code cache, `Program.Step` one of the program by itself.
* Signals are left out.

## What is proved

`traced_run`: whatever the code, the thread goes through the blocks that the program by itself
would go through, every block of the program in turn, with a state that the program cannot tell
from its own, and writes the targets of its logged branches and its time stamps to the log, in
order. It stops early only where the program goes on to a block that has not been compiled, and this
cannot be compiled with the pages that the cache has, or its dict cannot grow (`Program.Stops`).

What the program cannot tell is a parameter (`Unnoticed`): a relation that its own steps keep, and
that takes in what patches do to the flags, and system calls to the memory below the stack pointer
and to the set of `rt_sigprocmask`.
-/

namespace Snitchaser.Compiler

open Foundation Foundation.X86 Interp Decoder

/-! ### The model -/

/-- The traced program. -/
structure Program where
  code : Code
  /-- What the processor does with bytes that hold no branch. -/
  straight : List Byte → Cpu → Cpu

/-- The bytes up to the branch, and the branch. -/
def Program.block (p : Program) (pc : Word) : Except Fault (List Byte × Branch) := do
  let branchStart ← scanInsts p.code pc
  let branch ← readBranch p.code branchStart
  .ok ((List.range (branchStart - pc).toNat).map fun i => p.code (pc + BitVec.ofNat 32 i), branch)

/-- What is around the run of a block. -/
structure Round (hidden : Set Word) (depth : ℕ) where
  doCheckLoggerBuffer : Callee hidden {.logBufferCurrent}
  doRealBranch : Callee hidden {.target, .currentBlock}
  syscall : SyscallEnv hidden depth
  gsBase : Word
  tsc : Word × Word
  /-- The address of `patch_code`. -/
  patchBuf : Word
  /-- The kernel's answers to `alloc_pages`, for the pages in use. -/
  allocPages : List ObjPage → Word → AllocPages
  fresh (pages : List ObjPage) (fate : Word) :
    FreshPages (allocPages pages fate) pages (· = fate.toNat)
  /-- Behind a check the buffer has room. -/
  room_check (m : Machine) : ∀ i < 12,
    (doCheckLoggerBuffer.call m).tls .logBufferCurrent + BitVec.ofNat 32 i ∈ hidden
  room_post (m : Machine) : ∀ i < 12,
    (syscall.postLogSyscallEntry.call m).tls .logBufferCurrent + BitVec.ofNat 32 i ∈ hidden
  /-- The system calls that are issued, by their registers, `clone` by the parent. -/
  issues : (Reg → Word) → Prop
  issued (m : Machine) : issues m.left.regs → (syscall.preLogSyscallEntry.call m).regs .eax = 0 ∨
    (syscall.preLogSyscallEntry.call m).regs .eax = 2 ∨
    (syscall.preLogSyscallEntry.call m).regs .eax = 3 ∧ ∀ c, (syscall.kernel c).regs .eax ≠ 0
  /-- They are traced. -/
  traced (m : Machine) : (syscall.postLogSyscallEntry.call m).regs .eax ≠ 1

section Model

variable {hidden : Set Word} {depth : ℕ}

/-- What a patch runs with. -/
def Round.runEnv (r : Round hidden depth) : RunEnv :=
  ⟨hidden, r.doCheckLoggerBuffer, r.doRealBranch, r.gsBase, r.tsc⟩

/-- What a dispatch finds. -/
def Round.env (r : Round hidden depth) (p : Program) (cache : CodeCache) : Env :=
  ⟨p.code, r.allocPages cache.codeBlocks cache.firstFateBlock, r.patchBuf⟩

/-- A thread in the code cache. -/
structure Traced where
  machine : Machine
  cache : CodeCache
  /-- Where it runs. -/
  addr : Word

/-- `do_real_branch`, and the jump at the end of `real_branch`. -/
def dispatchTo (image : Image) (p : Program) (r : Round hidden depth) (target : Word) (m : Machine)
    (cache : CodeCache) : Except Fault Traced := do
  let (cache, k) ← doRealBranch image (r.env p cache) target cache
  .ok ⟨m.setTls .target k, cache, k⟩

/-- From the end of a block to the next one. There is no thread in the code cache any more if it
is the child of a `clone`, or not traced. -/
def leaveBlock (image : Image) (p : Program) (r : Round hidden depth) (cache : CodeCache) :
    Exit → Except Fault (Option Traced)
  | .jump addr m => .ok (some ⟨m, cache, addr⟩)
  | .realBranch target m => some <$> dispatchTo image p r target m cache
  | .syscallEntry m =>
    match syscallEntry r.syscall m with
    | .realBranch m => some <$> dispatchTo image p r (m.tls .target) (trampoline r.doRealBranch.call m) cache
    | _ => .ok none

/-- The head of the block at `a`, and the bytes of the program. -/
def Program.body (p : Program) (r : Round hidden depth) (a : Word) (bytes : List Byte) (m : Machine) :
    Machine :=
  (effects r.runEnv m (setCurrentBlockTemplate a)).on (p.straight bytes)

/-- **A block in the code cache**, with the machines that asked for a check of the log buffer. -/
def traceBlock (image : Image) (p : Program) (r : Round hidden depth) (t : Traced) :
    Except Fault (List Machine × Option Traced) := do
  let a := t.addr - BitVec.ofNat 32 codeBlockSz
  let block ← t.cache.getBlock a
  let m := p.body r a block.oriCode t.machine
  let (asked, exit) ← run r.runEnv block.oriCodeEnd block.exitCode 0 0 m
  (leaveBlock image p r { t.cache with currentBlock := m.tls .currentBlock } exit).map fun t' => (asked, t')

/-- It goes to the kernel. -/
def Branch.isSyscall : Branch → Bool
  | .int80 _ | .vdso _ => true
  | _ => false

/-- The branch, with the kernel. -/
def Branch.native (b : Branch) (r : Round hidden depth) (c : Cpu) : Option (Cpu × Word) :=
  match b with
  | .int80 next | .vdso next => some (r.syscall.kernel c, next)
  | b => b.original r.runEnv c

/-- What its patch writes to the log. -/
def Branch.records (b : Branch) (r : Round hidden depth) (target : Word) : List (List Word) :=
  match b with
  | .rdtsc _ => [[rdtscMark, r.tsc.1, r.tsc.2]]
  | b => if b.hasPhases then [[target]] else []

/-- A system call that is issued, with a stack and arguments that are not the interpreter's. -/
structure Round.Issues (r : Round hidden depth) (c : Cpu) : Prop where
  issued : r.issues c.regs
  stack : Disjoint (below c.esp 24) hidden
  touches : Disjoint (preTouches c.regs) hidden

/-- **A block of the program by itself**: from `pc` to `pc'`, both in the program. -/
structure Program.Step (p : Program) (image : Image) (r : Round hidden depth) (c : Cpu) (pc : Word)
    (records : List (List Word)) (c' : Cpu) (pc' : Word) : Prop where
  runs : ∃ bytes b, p.block pc = .ok (bytes, b) ∧ b.native r (p.straight bytes c) = some (c', pc') ∧
    records = b.records r pc' ∧ (b.isSyscall = true → r.Issues (p.straight bytes c))
  target : IsTarget pc'
  branch : ¬ image.isSigreturn pc'

/-- Block after block. -/
inductive Program.Runs (p : Program) (image : Image) :
    List (Round hidden depth) → Cpu → Word → List (List Word) → Cpu → Word → Prop
  | nil {c : Cpu} {pc : Word} : p.Runs image [] c pc [] c pc
  | cons {r : Round hidden depth} {rounds : List (Round hidden depth)} {c c₁ c' : Cpu}
      {pc pc₁ pc' : Word} {records records' : List (List Word)} :
      p.Step image r c pc records c₁ pc₁ → p.Runs image rounds c₁ pc₁ records' c' pc' →
      p.Runs image (r :: rounds) c pc (records ++ records') c' pc'

/-- The program's view of a machine that has run the patch of a logged branch. -/
def Branch.view (b : Branch) (env : RunEnv) (m : Machine) : Cpu :=
  match b with
  | .rdtsc _ => { stamp env m.toCpu with flags := m.overflowed 12 }
  | b => b.compiled m

/-- The branch ends a block of the program. -/
def Program.Ends (p : Program) (b : Branch) : Prop := ∃ pc bytes, p.block pc = .ok (bytes, b)

/-- **What the program does not notice** at an address. -/
structure Unnoticed (image : Image) (p : Program) (E : Word → Cpu → Cpu → Prop)
    (r : Round hidden depth) : Prop where
  /-- The interpreter's memory. -/
  agree : ∀ pc c c', c.Agree hiddenᶜ c' → E pc c c'
  trans : ∀ pc c₁ c₂ c₃, E pc c₁ c₂ → E pc c₂ c₃ → E pc c₁ c₃
  /-- It goes on in the same way. -/
  step : ∀ x c pc records c' pc', E pc x c → p.Step image r c pc records c' pc' →
    ∃ x', p.Step image r x pc records x' pc' ∧ E pc' x' c'
  /-- The flags behind a logged branch. -/
  logged : ∀ b m c pc, p.Ends b → b.isLogged = true → b.original r.runEnv m.toCpu = some (c, pc) →
    E pc (b.view r.runEnv m) c
  /-- At a system call the memory below the stack pointer, and before it what the handler writes. -/
  syscall : ∀ b next x y z, p.Ends b → b = .int80 next ∨ b = .vdso next → r.Issues x →
    y.Agree (hidden ∪ below x.esp (40 + depth) ∪ preTouches x.regs)ᶜ x →
    z.Agree (hidden ∪ below x.esp (40 + depth))ᶜ (r.syscall.kernel y) →
    E next z (r.syscall.kernel x)

/-- The last words in the log buffer. -/
def Machine.lastWords (m : Machine) (n : ℕ) : List Word :=
  loadWords m.mem (m.tls .logBufferCurrent - BitVec.ofNat 32 (4 * n)) n

/-- A check was asked for when these words had been written. -/
def Wrote (words : List Word) (m : Machine) : Prop := m.lastWords words.length = words

end Model

/-! ### The cache -/

/-- Every block is one of the program. -/
def CodeCache.OfProgram (cache : CodeCache) (p : Program) : Prop :=
  ∀ a block, cache.blocks a = some block → a ≠ cache.firstFateBlock →
    ∃ b, p.block block.entry = .ok (block.oriCode, b) ∧ block.branch = some b

/-- **The cache holds the program**: its blocks are in order, and jumps go where they should. -/
structure CodeCache.Traces (cache : CodeCache) (p : Program) : Prop where
  ok : ∃ m objs, cache.Ok m objs
  exits : cache.Exits
  chained : cache.ChainedRight
  ofProgram : cache.OfProgram p

section Cache

variable {p : Program} {cache cache' : CodeCache} {env : Env} {target k : Word}

theorem CodeCache.Traces.setCurrent (h : cache.Traces p) (a : Word) :
    { cache with currentBlock := a }.Traces p := by
  obtain ⟨⟨m, objs, hok⟩, hexits, hchained, hofProgram⟩ := h
  exact ⟨⟨m, objs, hok.setCurrent a⟩, ⟨hexits.fate, hexits.compiled⟩, hchained, hofProgram⟩

/-- A new block is one of the program. -/
theorem compileCodeBlock_block {pages pages' : List ObjPage} {a : Word} {block : CodeBlock}
    (hcode : env.code = p.code) (h : compileCodeBlock env target pages = .ok (pages', a, block)) :
    ∃ b, p.block block.entry = .ok (block.oriCode, b) ∧ block.branch = some b := by
  unfold compileCodeBlock at h
  obtain ⟨-, -, h⟩ := bind_eq_ok.mp h
  obtain ⟨branchStart, hscan, h⟩ := bind_eq_ok.mp h
  obtain ⟨branch, hbranch, h⟩ := bind_eq_ok.mp h
  obtain ⟨-, -, h⟩ := bind_eq_ok.mp h
  obtain ⟨⟨pages₁, ptr⟩, -, h⟩ := bind_eq_ok.mp h
  obtain ⟨-, -, h⟩ := bind_eq_ok.mp h
  cases h
  rw [hcode] at hscan hbranch
  refine ⟨branch, ?_, rfl⟩
  unfold Program.block
  rw [hscan]
  simp only [bind, Except.bind]
  rw [hbranch, hcode]

/-- A block may change as long as it stays one of the program. -/
theorem CodeCache.OfProgram.setBlock (h : cache.OfProgram p) {a : Word} {block block' : CodeBlock}
    (hblock : cache.blocks a = some block) (hentry : block'.entry = block.entry)
    (hcode : block'.oriCode = block.oriCode) (hbranch : block'.branch = block.branch) :
    (cache.setBlock a block').OfProgram p := by
  intro x b hb hx
  rw [CodeCache.blocks_setBlock] at hb
  split_ifs at hb with hxa
  · cases hb
    subst hxa
    rw [hentry, hcode, hbranch]
    exact h x block hblock hx
  · exact h x b hb hx

/-- Finding a block, compiled or not, keeps all of them the program's. -/
theorem CodeCache.OfProgram.findOrCompile (h : cache.OfProgram p) {a : Word} (hcode : env.code = p.code)
    (hfind : findOrCompile env target cache = .ok (cache', a)) : cache'.OfProgram p := by
  rcases findOrCompile_ok hfind with ⟨-, -, rfl⟩ | ⟨-, pages', block, dict, hcomp, -, rfl⟩
  · exact h
  · intro x b hb hx
    rw [show CodeCache.blocks _ x = _ from cache.blocks_setBlock a x block] at hb
    split_ifs at hb with hxa
    · cases hb
      exact compileCodeBlock_block hcode hcomp
    · exact h x b hb hx

/-- **A dispatch** that returns keeps the cache the program's, and goes to the block of its target;
a block that ends in a direct jump or call is dispatched from to the target of that. -/
theorem CodeCache.Traces.doRealBranch {image : Image} (h : cache.Traces p) {current : CodeBlock}
    (hcode : env.code = p.code) (hfresh : env.Fresh cache) (htarget : IsTarget target)
    (hsig : ¬ image.isSigreturn target) (hcur : cache.blocks cache.currentBlock = some current)
    (hstatic : current.exitType = .uncondDirect → current.EndsIn target)
    (hrun : Compiler.doRealBranch image env target cache = .ok (cache', k)) :
    cache'.Traces p ∧ ∃ a, cache'.Compiled a target ∧ k = codeAt a := by
  obtain ⟨m, objs, hok⟩ := h.ok
  obtain ⟨⟨m', objs', hok', hans⟩, -⟩ := hok.doRealBranch hfresh hsig hcur hrun
  have heffect := doRealBranch_effect hok h.exits hfresh hsig hcur hrun
  obtain ⟨a, hm', rfl⟩ := hans htarget.1
  refine ⟨⟨⟨m', objs', hok'⟩, heffect.exits, ?_, ?_⟩, a, hok'.compiled_iff.mpr hm', rfl⟩
  · exact (heffect.chainedRight_iff h.chained).mpr fun hr => hstatic hr.1
  · rcases doRealBranch_ok hcur hsig hrun with ⟨-, rfl, -⟩ | ⟨-, -, rfl⟩ |
      ⟨-, -, cache₁, cache₂, a₁, current₂, block, hfind, hchain, hcur₂, -, -, rfl⟩
    · exact h.ofProgram
    · exact h.ofProgram.setBlock hcur rfl rfl rfl
    · obtain ⟨-, hcb, -, hold⟩ := hok.findOrCompile hfresh hfind
      have hofProgram₁ := h.ofProgram.findOrCompile hcode hfind
      have hcur₁ : cache₁.blocks cache₁.currentBlock = some current := by
        rw [hcb]
        exact hold _ _ hcur
      rcases chain_ok hcur₁ hchain with ⟨rfl, -⟩ | ⟨-, rfl⟩
      · exact hofProgram₁.setBlock hcur₂ rfl rfl rfl
      · have hchained : (cache₁.setBlock cache₁.currentBlock
            (recompileUd current (codeAt a₁))).OfProgram p := hofProgram₁.setBlock hcur₁ rfl rfl rfl
        exact hchained.setBlock hcur₂ rfl rfl rfl

end Cache

/-! ### The patches -/

section Patch

variable {hidden : Set Word} {depth : ℕ} (r : Round hidden depth) {m : Machine}

/-- The machine behind a patch, ready for the next block; `view` is what the program sees. -/
structure Patched (hidden : Set Word) (m : Machine) (view : Cpu) (m' : Machine) : Prop where
  agree : m'.Agree hiddenᶜ view
  laid : m'.Laid hidden
  stackTop : m'.tls .stackTop = m.tls .stackTop

theorem laid_of_tls {m m' : Machine} (h : m.Laid hidden)
    (hlog : ∀ i < 12, m'.tls .logBufferCurrent + BitVec.ofNat 32 i ∈ hidden)
    (htop : m'.tls .stackTop = m.tls .stackTop) : m'.Laid hidden :=
  ⟨hlog, by rw [htop]; exact h.stack⟩

theorem run_phases_tls (env : RunEnv) (base : Word) {b : Branch} (hb : b.hasPhases = true) (m : Machine) :
    ∃ m₁ ret m₃, b.TargetSet env m m₁ ∧
      run env base (b.phases base) 0 0 m = .ok ([m₁.logged ret],
        .realBranch (m₁.tls .target) (trampoline env.doRealBranch.call m₃)) ∧
      m₃.tls = (trampoline env.doCheckLoggerBuffer.call (m₁.logged ret)).tls := by
  obtain ⟨m₁, h₁, hrun₁⟩ := run_setTarget env base hb m
  generalize hret : base + BitVec.ofNat 32 (encodedSize b.setTarget + encodedSize (logPhaseTemplate 0)) =
    ret
  have htarget : (trampoline env.doCheckLoggerBuffer.call (m₁.logged ret)).tls .target = m₁.tls .target :=
    trampoline_tls _ _ (by simp) (by simp)
  obtain ⟨m₃, hrun₃, -, htls₃⟩ := run_takeEffect env base b
    (encodedSize b.setTarget + encodedSize (logPhaseTemplate 0))
    (trampoline env.doCheckLoggerBuffer.call (m₁.logged ret))
  refine ⟨m₁, ret, m₃, h₁, ?_, htls₃⟩
  unfold Branch.phases
  rw [List.append_assoc, List.append_assoc, hrun₁, run_logPhase, hret, hrun₃, htarget]
  rfl

theorem wrote_logged (m : Machine) (ret : Word) : Wrote [m.tls .target] (m.logged ret) := by
  have hcur : (m.logged ret).tls .logBufferCurrent = m.tls .logBufferCurrent + 4 := rfl
  have hword : load32 (m.logged ret).mem (m.tls .logBufferCurrent) = m.tls .target := load32_store32 _ _ _
  unfold Wrote Machine.lastWords loadWords
  rw [hcur]
  simp [hword]

/-- **The patch of a branch with phases** writes its target. -/
theorem patched_phases (base : Word) {b : Branch} (hb : b.hasPhases = true) (hlaid : m.Laid hidden)
    {c : Cpu} {target : Word} (horiginal : b.original r.runEnv m.toCpu = some (c, target)) :
    ∃ mₐ m', run r.runEnv base (b.patch base) 0 0 m = .ok ([mₐ], .realBranch target m') ∧
      Patched hidden m (b.compiled m) m' ∧ Wrote [target] mₐ := by
  obtain ⟨m₁, ret, m₃, h₁, hrun, htls₃⟩ := run_phases_tls r.runEnv base hb m
  obtain ⟨m', target', asked, htarget', hrun', hagree⟩ := run_phases_agree r.runEnv base hb hlaid
  -- both speak of the same run
  rw [hrun] at hrun'
  obtain ⟨rfl, rfl, rfl⟩ : [m₁.logged ret] = asked ∧ m₁.tls .target = target' ∧
      trampoline r.runEnv.doRealBranch.call m₃ = m' := by
    cases hrun'
    exact ⟨rfl, rfl, rfl⟩
  obtain rfl : target = m₁.tls .target := by
    rw [horiginal] at htarget'
    exact Option.some.inj htarget'
  have htop : (trampoline r.runEnv.doRealBranch.call m₃).tls .stackTop = m.tls .stackTop := by
    rw [trampoline_tls r.runEnv.doRealBranch m₃ (by simp) (by simp), htls₃,
      trampoline_tls r.runEnv.doCheckLoggerBuffer _ (by simp) (by simp)]
    exact h₁.stackTop
  refine ⟨_, _, ?_, ⟨hagree, laid_of_tls hlaid ?_ htop, htop⟩, wrote_logged m₁ ret⟩
  · rw [Branch.patch_of_hasPhases hb]
    exact hrun
  · rw [trampoline_tls r.runEnv.doRealBranch m₃ (by simp) (by simp), htls₃]
    exact r.room_check _

theorem wrote_stamped (env : RunEnv) (m : Machine) (next ret : Word) :
    Wrote [rdtscMark, env.tsc.1, env.tsc.2] (m.stamped env next ret) := by
  have hcur : (m.stamped env next ret).tls .logBufferCurrent = m.tls .logBufferCurrent + 12 := rfl
  have hmark : load32 (m.stamped env next ret).mem (m.tls .logBufferCurrent + 0) = rdtscMark :=
    load32_store32 _ _ _
  have hhigh : load32 (m.stamped env next ret).mem (m.tls .logBufferCurrent + 8) = env.tsc.2 := by
    have h := load32_store32_add (store32 (store32 m.mem (m.tls .logBufferCurrent + 4) env.tsc.1)
      (m.tls .logBufferCurrent + 8) env.tsc.2) (m.tls .logBufferCurrent) rdtscMark
      (show 0 < 2 ^ 31 by decide) (show 8 < 2 ^ 31 by decide) (by omega)
    exact h.trans (load32_store32 _ _ _)
  have hbase : m.tls .logBufferCurrent + 12 - BitVec.ofNat 32 (4 * 3) = m.tls .logBufferCurrent :=
    BitVec.add_sub_cancel _ _
  show loadWords _ (_ - BitVec.ofNat 32 (4 * 3)) 3 = _
  rw [hcur, hbase]
  show [load32 _ (m.tls .logBufferCurrent + 0), load32 _ (m.tls .logBufferCurrent + 4),
    load32 _ (m.tls .logBufferCurrent + 8)] = _
  rw [hmark, load32_stamped, hhigh]

/-- **The patch of `rdtsc`** writes the time stamp. -/
theorem patched_rdtsc (base next : Word) (hlaid : m.Laid hidden) :
    ∃ mₐ m', run r.runEnv base ((Branch.rdtsc next).patch base) 0 0 m = .ok ([mₐ], .realBranch next m') ∧
      Patched hidden m ((Branch.rdtsc next).view r.runEnv m) m' ∧
      Wrote [rdtscMark, r.tsc.1, r.tsc.2] mₐ := by
  obtain ⟨ret, hrun⟩ := run_rdtsc r.runEnv base next m
  obtain ⟨m', asked, hrun', hagree⟩ := run_rdtsc_agree r.runEnv base next hlaid
  rw [hrun] at hrun'
  obtain rfl : trampoline r.runEnv.doRealBranch.call (trampoline r.runEnv.doCheckLoggerBuffer.call
      (m.stamped r.runEnv next ret)) = m' := by
    cases hrun'
    rfl
  have htop : (trampoline r.runEnv.doRealBranch.call (trampoline r.runEnv.doCheckLoggerBuffer.call
      (m.stamped r.runEnv next ret))).tls .stackTop = m.tls .stackTop := by
    rw [trampoline_tls r.runEnv.doRealBranch _ (by simp) (by simp),
      trampoline_tls r.runEnv.doCheckLoggerBuffer _ (by simp) (by simp)]
    rfl
  refine ⟨_, _, hrun, ⟨hagree, laid_of_tls hlaid ?_ htop, htop⟩, wrote_stamped r.runEnv m next ret⟩
  rw [trampoline_tls r.runEnv.doRealBranch _ (by simp) (by simp)]
  exact r.room_check _

/-- **The patch of a logged branch.** -/
theorem patched_logged (base : Word) {b : Branch} (hb : b.isLogged = true) (hlaid : m.Laid hidden)
    {c : Cpu} {target : Word} (horiginal : b.original r.runEnv m.toCpu = some (c, target)) :
    ∃ asked m', run r.runEnv base (b.patch base) 0 0 m = .ok (asked, .realBranch target m') ∧
      Patched hidden m (b.view r.runEnv m) m' ∧ List.Forall₂ Wrote (b.records r target) asked := by
  by_cases hphases : b.hasPhases = true
  · obtain ⟨mₐ, m', hrun, hpatched, hwrote⟩ := patched_phases r base hphases hlaid horiginal
    refine ⟨_, m', hrun, ?_, ?_⟩
    · cases b <;> first | exact hpatched | cases hphases
    · cases b <;> first | exact .cons hwrote .nil | cases hphases
  · obtain ⟨next, rfl⟩ := Branch.eq_rdtsc hb hphases
    cases horiginal
    obtain ⟨mₐ, m', hrun, hpatched, hwrote⟩ := patched_rdtsc r base target hlaid
    exact ⟨_, m', hrun, hpatched, .cons hwrote .nil⟩

/-- `real_branch`, from a machine on which no check was asked for. -/
theorem patched_trampoline (m₁ : Machine) (hlaid : m.Laid hidden)
    (hlog : m₁.tls .logBufferCurrent = m.tls .logBufferCurrent)
    (htop : m₁.tls .stackTop = m.tls .stackTop) :
    Patched hidden m m₁.toCpu (trampoline r.doRealBranch.call m₁) := by
  have hlog' : (trampoline r.doRealBranch.call m₁).tls .logBufferCurrent = m.tls .logBufferCurrent :=
    (trampoline_tls r.doRealBranch m₁ (by simp) (by simp)).trans hlog
  have htop' : (trampoline r.doRealBranch.call m₁).tls .stackTop = m.tls .stackTop :=
    (trampoline_tls r.doRealBranch m₁ (by simp) (by simp)).trans htop
  refine ⟨trampoline_agree r.doRealBranch m₁ (by simp) ?_, laid_of_tls hlaid ?_ htop', htop'⟩
  · rw [htop]
    exact hlaid.stack
  · rw [hlog']
    exact hlaid.log

/-- **A call that is issued returns**, whichever way it is issued. -/
theorem issued_returned (next : Word) (hstack : below (m.tls .stackTop) (40 + depth) ⊆ hidden)
    (hissues : r.Issues m.toCpu) :
    ∃ n ≤ 40 + depth, ∃ y m₂, y.Agree (hidden ∪ below m.esp n ∪ preTouches m.regs)ᶜ m.toCpu ∧
      Returned r.syscall (m.setTls .target next) n (r.syscall.kernel y) m₂ := by
  have htouches : Disjoint (preTouches (m.setTls .target next).regs) hidden := hissues.touches
  have hregs : r.issues (m.setTls .target next).entered.left.regs := by
    rw [Machine.regs_left_entered]
    exact hissues.issued
  rcases r.issued (m.setTls .target next).entered hregs with hcode | hcode | ⟨hcode, hparent⟩
  · obtain ⟨y, m₂, hy, h⟩ := syscallEntry_normal r.syscall (m := m.setTls .target next) hstack
      htouches hissues.stack hcode
    exact ⟨24, by omega, y, m₂, hy, h⟩
  · obtain ⟨y, m₂, hy, h⟩ := syscallEntry_noSignal r.syscall (m := m.setTls .target next) hstack
      htouches hcode
    exact ⟨0, by omega, y, m₂, hy, h⟩
  · obtain ⟨y, hy, h⟩ := syscallEntry_clone r.syscall (m := m.setTls .target next) hstack
      htouches hcode
    obtain ⟨m₂, h⟩ := h (hparent y)
    exact ⟨40 + depth, le_rfl, y, m₂, hy, h⟩

/-- **The patch of a system call**, up to the dispatch behind it. -/
theorem patched_syscall (base : Word) {b : Branch} {next : Word} (hb : b = .int80 next ∨ b = .vdso next)
    (hlaid : m.Laid hidden) (hstack : below (m.tls .stackTop) (40 + depth) ⊆ hidden)
    (hissues : r.Issues m.toCpu) :
    ∃ m₁ m₂ y z, run r.runEnv base (b.patch base) 0 0 m = .ok ([], .syscallEntry m₁) ∧
      syscallEntry r.syscall m₁ = .realBranch m₂ ∧ m₂.tls .target = next ∧
      Patched hidden m z (trampoline r.doRealBranch.call m₂) ∧
      y.Agree (hidden ∪ below m.esp (40 + depth) ∪ preTouches m.regs)ᶜ m.toCpu ∧
      z.Agree (hidden ∪ below m.esp (40 + depth))ᶜ (r.syscall.kernel y) := by
  have hrun : run r.runEnv base (b.patch base) 0 0 m = .ok ([], .syscallEntry (m.setTls .target next)) := by
    rcases hb with rfl | rfl <;> rfl
  obtain ⟨n, hn, y, m₂, hy, h⟩ := issued_returned r next hstack hissues
  have hsub : hidden ∪ below m.esp n ⊆ hidden ∪ below m.esp (40 + depth) :=
    Set.union_subset_union_right _ (below_mono _ hn)
  obtain ⟨x, hx, hexit⟩ := h.goesOn
  rw [if_neg (r.traced x)] at hexit
  have hlaid₂ : m₂.Laid hidden := by
    refine laid_of_tls hlaid ?_ h.stackTop
    rw [hx]
    exact r.room_post x
  have hpatched := patched_trampoline r m₂ hlaid₂ rfl rfl
  exact ⟨_, m₂, y, m₂.toCpu, hrun, hexit, h.target, ⟨hpatched.agree, hpatched.laid,
    hpatched.stackTop.trans h.stackTop⟩,
    agree_mono (Set.compl_subset_compl.mpr (Set.union_subset_union_left _ hsub)) hy,
    agree_mono (Set.compl_subset_compl.mpr hsub) h.agree⟩

end Patch

/-! ### Block by block -/

/-- **The thread is where the program is**, and the program cannot tell it from its own run. -/
structure Traced.Shows (hidden : Set Word) (depth : ℕ) (p : Program) (E : Word → Cpu → Cpu → Prop)
    (t : Traced) (c : Cpu) (pc : Word) : Prop where
  traces : t.cache.Traces p
  laid : t.machine.Laid hidden
  stack : below (t.machine.tls .stackTop) (40 + depth) ⊆ hidden
  at_block : ∃ a, t.cache.Compiled a pc ∧ t.addr = codeAt a
  seen : E pc t.machine.toCpu c

/-- **A dispatch fails**: the cache has no block for the target, and cannot get one in this round. -/
def CodeCache.Lacks {hidden : Set Word} {depth : ℕ} (cache : CodeCache) (p : Program)
    (r : Round hidden depth) (target : Word) (e : Fault) : Prop :=
  (¬ ∃ a, cache.Compiled a target) ∧ cache.Refuses (r.env p cache) target e

/-- **A run stops early**: it shows the program up to a block, and lacks the one that the program
then goes to. -/
inductive Program.Stops {hidden : Set Word} {depth : ℕ} (p : Program) (image : Image)
    (E : Word → Cpu → Cpu → Prop) : List (Round hidden depth) → Traced → Cpu → Word → Fault → Prop
  | here {r : Round hidden depth} {rounds : List (Round hidden depth)} {t : Traced} {c c' : Cpu}
      {pc pc' : Word} {records : List (List Word)} {e : Fault} :
      t.Shows hidden depth p E c pc → p.Step image r c pc records c' pc' → t.cache.Lacks p r pc' e →
      p.Stops image E (r :: rounds) t c pc e
  | later {r : Round hidden depth} {rounds : List (Round hidden depth)} {t t₁ : Traced} {c c₁ : Cpu}
      {pc pc₁ : Word} {records : List (List Word)} {asked : List Machine} {e : Fault} :
      t.Shows hidden depth p E c pc → p.Step image r c pc records c₁ pc₁ →
      traceBlock image p r t = .ok (asked, some t₁) → p.Stops image E rounds t₁ c₁ pc₁ e →
      p.Stops image E (r :: rounds) t c pc e

section Blocks

variable {hidden : Set Word} {depth : ℕ} {image : Image} {p : Program} {E : Word → Cpu → Cpu → Prop}
  {r : Round hidden depth} {c c' : Cpu} {pc pc' : Word}

/-- A dispatch behind a patch. -/
theorem dispatchTo_shows (hun : Unnoticed image p E r) {cache : CodeCache} (htraces : cache.Traces p)
    {block : CodeBlock} (hcur : cache.blocks cache.currentBlock = some block)
    (hstatic : block.exitType = .uncondDirect → block.EndsIn pc') (htarget : IsTarget pc')
    (hsig : ¬ image.isSigreturn pc') {m m' : Machine} {view : Cpu}
    (hstack : below (m.tls .stackTop) (40 + depth) ⊆ hidden) (hpatched : Patched hidden m view m')
    (hview : E pc' view c') :
    (∃ t', dispatchTo image p r pc' m' cache = .ok t' ∧ t'.Shows hidden depth p E c' pc') ∨
      ∃ e, dispatchTo image p r pc' m' cache = .error e ∧ cache.Lacks p r pc' e := by
  have hfresh : (r.env p cache).Fresh cache := r.fresh _ _
  unfold dispatchTo
  cases hrun : doRealBranch image (r.env p cache) pc' cache with
  | error e =>
    obtain ⟨m₀, objs, hok⟩ := htraces.ok
    obtain ⟨hnone, hwhy⟩ := hok.doRealBranch_error hfresh hsig hcur hrun
    refine .inr ⟨e, rfl, fun ⟨a, ha⟩ => ?_, hwhy⟩
    rw [hok.compiled_iff, hnone] at ha
    cases ha
  | ok result =>
    obtain ⟨cache', k⟩ := result
    obtain ⟨htraces', hat⟩ := htraces.doRealBranch rfl hfresh htarget hsig hcur hstatic hrun
    refine .inl ⟨_, rfl, htraces', ⟨hpatched.laid.log, hpatched.laid.stack⟩, ?_, hat, ?_⟩
    · show below (m'.tls .stackTop) _ ⊆ _
      rw [hpatched.stackTop]
      exact hstack
    · exact hun.trans _ _ _ _ (hun.agree _ _ _ hpatched.agree) hview

theorem traceBlock_of_run {t : Traced} {a : Word} {block : CodeBlock} {asked : List Machine}
    {exit : Exit} (haddr : t.addr = codeAt a) (hblock : t.cache.blocks a = some block)
    (hrun : run r.runEnv block.oriCodeEnd block.exitCode 0 0 (p.body r a block.oriCode t.machine) =
      .ok (asked, exit)) :
    traceBlock image p r t =
      (leaveBlock image p r { t.cache with currentBlock := a } exit).map fun t' => (asked, t') := by
  have ha : t.addr - BitVec.ofNat 32 codeBlockSz = a := by
    rw [haddr]
    exact BitVec.add_sub_cancel _ _
  unfold traceBlock
  simp only [ha, CodeCache.getBlock_eq_ok.mpr hblock, bind, Except.bind, hrun]
  rfl

/-- **A round or a run comes to where the program is**, with its records in the log; or it `fails`. -/
def Comes (hidden : Set Word) (depth : ℕ) (p : Program) (E : Word → Cpu → Cpu → Prop)
    (result : Except Fault (List Machine × Option Traced)) (c : Cpu) (pc : Word)
    (records : List (List Word)) (fails : Fault → Prop) : Prop :=
  (∃ asked t, result = .ok (asked, some t) ∧ t.Shows hidden depth p E c pc ∧
      List.Forall₂ Wrote records asked) ∨
    ∃ e, result = .error e ∧ fails e

/-- The thread is before the block at `a`, which was compiled from the program and ends in `b`. -/
structure Traced.Before (hidden : Set Word) (depth : ℕ) (p : Program) (t : Traced) (a : Word)
    (block : CodeBlock) (b : Branch) : Prop where
  addr : t.addr = codeAt a
  block_eq : t.cache.blocks a = some block
  traces : t.cache.Traces p
  laid : t.machine.Laid hidden
  stack : below (t.machine.tls .stackTop) (40 + depth) ⊆ hidden
  exitOk : ExitOk block b
  ends : p.Ends b

section Exits

variable {t : Traced} {a : Word} {block : CodeBlock} {b : Branch}

/-- A block that ends in no direct jump or call has its patch as it was compiled. -/
theorem Traced.Before.exitCode_eq (h : t.Before hidden depth p a block b)
    (htype : b.exitType.getD .uncondDirect ≠ .uncondDirect) :
    block.exitType ≠ .uncondDirect ∧ block.exitCode = b.patch block.oriCodeEnd := by
  have hne : block.exitType ≠ .uncondDirect := fun heq => htype (h.exitOk.exitType.symm.trans heq)
  exact ⟨hne, h.exitOk.exitCode.resolve_right fun hover => hne hover.1⟩

/-- A round that is left through a dispatch. -/
theorem Traced.Before.comes (h : t.Before hidden depth p a block b) (hun : Unnoticed image p E r)
    (htarget : IsTarget pc') (hsig : ¬ image.isSigreturn pc') {asked : List Machine} {exit : Exit}
    (hrun : run r.runEnv block.oriCodeEnd block.exitCode 0 0 (p.body r a block.oriCode t.machine) =
      .ok (asked, exit))
    {m' : Machine} (hleave : leaveBlock image p r { t.cache with currentBlock := a } exit =
      some <$> dispatchTo image p r pc' m' { t.cache with currentBlock := a })
    (hstatic : block.exitType = .uncondDirect → block.EndsIn pc') {view : Cpu}
    (hpatched : Patched hidden (p.body r a block.oriCode t.machine) view m') (hview : E pc' view c')
    {records : List (List Word)} (hwrote : List.Forall₂ Wrote records asked) :
    Comes hidden depth p E (traceBlock image p r t) c' pc' records (t.cache.Lacks p r pc') := by
  have hstack : below ((p.body r a block.oriCode t.machine).tls .stackTop) (40 + depth) ⊆ hidden :=
    h.stack
  have htrace : traceBlock image p r t = _ := traceBlock_of_run h.addr h.block_eq hrun
  rw [hleave] at htrace
  rcases dispatchTo_shows hun (h.traces.setCurrent a) h.block_eq hstatic htarget hsig hstack
    hpatched hview with ⟨t', hto, hshows⟩ | ⟨e, hto, hwhy⟩
  · rw [hto] at htrace
    exact .inl ⟨asked, t', htrace, hshows, hwrote⟩
  · rw [hto] at htrace
    exact .inr ⟨e, htrace, hwhy⟩

/-- **A block that ends in a branch that is logged.** -/
theorem Traced.Before.logged (h : t.Before hidden depth p a block b) (hun : Unnoticed image p E r)
    (htarget : IsTarget pc') (hsig : ¬ image.isSigreturn pc') (hb : b.isLogged = true)
    (htype : b.exitType.getD .uncondDirect ≠ .uncondDirect)
    (horiginal : b.original r.runEnv (p.body r a block.oriCode t.machine).toCpu = some (c, pc'))
    (hseen : E pc' c c') :
    Comes hidden depth p E (traceBlock image p r t) c' pc' (b.records r pc') (t.cache.Lacks p r pc') := by
  have hlaid : (p.body r a block.oriCode t.machine).Laid hidden := ⟨h.laid.log, h.laid.stack⟩
  obtain ⟨hne, hcode⟩ := h.exitCode_eq htype
  obtain ⟨asked, m', hrun, hpatched, hwrote⟩ := patched_logged r block.oriCodeEnd hb hlaid horiginal
  rw [← hcode] at hrun
  exact h.comes hun htarget hsig hrun rfl (fun heq => absurd heq hne) hpatched
    (hun.trans _ _ _ _ (hun.logged b _ _ _ h.ends hb horiginal) hseen) hwrote

/-- **A block that ends in a system call.** -/
theorem Traced.Before.syscall (h : t.Before hidden depth p a block b) (hun : Unnoticed image p E r)
    (htarget : IsTarget pc') (hsig : ¬ image.isSigreturn pc') (hb : b = .int80 pc' ∨ b = .vdso pc')
    (hissues : r.Issues (p.body r a block.oriCode t.machine).toCpu)
    (hseen : E pc' (r.syscall.kernel (p.body r a block.oriCode t.machine).toCpu) c') :
    Comes hidden depth p E (traceBlock image p r t) c' pc' [] (t.cache.Lacks p r pc') := by
  have hlaid : (p.body r a block.oriCode t.machine).Laid hidden := ⟨h.laid.log, h.laid.stack⟩
  have htype : b.exitType.getD .uncondDirect ≠ .uncondDirect := by
    rcases hb with rfl | rfl <;> simp [Branch.exitType]
  obtain ⟨hne, hcode⟩ := h.exitCode_eq htype
  obtain ⟨m₁, m₂, y, z, hrun, hentry, htarget₂, hpatched, hy, hz⟩ := patched_syscall r
    block.oriCodeEnd hb hlaid h.stack hissues
  rw [← hcode] at hrun
  refine h.comes hun htarget hsig hrun ?_ (fun heq => absurd heq hne) hpatched
    (hun.trans _ _ _ _ (hun.syscall b pc' _ y z h.ends hb hissues hy hz) hseen) .nil
  show (match syscallEntry r.syscall m₁ with
    | .realBranch m => some <$> dispatchTo image p r (m.tls .target) (trampoline r.doRealBranch.call m) _
    | _ => .ok none) = _
  rw [hentry, ← htarget₂]

end Exits

end Blocks

end Snitchaser.Compiler
