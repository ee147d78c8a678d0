import Snitchaser.Compiler.CodeCache

/-!
# Blocks that are written over

`recompile_ud` writes a jump over the end of a block that leaves by a direct jump or
call, so that the next time control goes straight on to the block it went to.

## What is proved

`CodeBlock.jumps` are the destinations of the direct jumps behind `ori_code_end`. A patch
has none (`jumpsFrom_patch`), so a block has one exactly if `recompile_ud` wrote it, and
then it goes where the last dispatch went (`ExitOk.jumps_recompileUd`).
`doRealBranch_exits` says what a dispatch does to the ends of all blocks: only the
current one is written over, and only if its exit type is that of a direct jump and
neither shortcut applies (`Recompiles`).
-/

namespace Snitchaser.Compiler

open Interp

/-! ### Jumps in exit code -/

/-- Where the direct jumps of code at `a` go. -/
def jumpsFrom : Word → List Insn → List Word
  | _, [] => []
  | a, .jmpRel rel :: code => (a + 5 + rel) :: jumpsFrom (a + 5) code
  | a, i :: code => jumpsFrom (a + BitVec.ofNat 32 i.size) code

/-- Where the direct jumps at the end of a block go. -/
def CodeBlock.jumps (block : CodeBlock) : List Word := jumpsFrom block.oriCodeEnd block.exitCode

theorem jumpsFrom_eq_nil {code : List Insn} (h : ∀ i ∈ code, ∀ rel, i ≠ .jmpRel rel) (a : Word) :
    jumpsFrom a code = [] := by
  induction code generalizing a with
  | nil => rfl
  | cons i code ih =>
    have hcode : ∀ a, jumpsFrom a code = [] := ih fun j hj => h j (List.mem_cons_of_mem _ hj)
    cases i with
    | jmpRel rel => exact absurd rfl (h _ List.mem_cons_self rel)
    | _ => exact hcode _

theorem Operand.setTarget_ne_jmpRel (op : Operand) : ∀ i ∈ op.setTarget, ∀ rel, i ≠ .jmpRel rel := by
  cases op <;> simp [Operand.setTarget]

theorem Branch.setTarget_ne_jmpRel (b : Branch) : ∀ i ∈ b.setTarget, ∀ rel, i ≠ .jmpRel rel := by
  cases b with
  | callIndirect op next => exact op.setTarget_ne_jmpRel
  | jmpIndirect op => exact op.setTarget_ne_jmpRel
  | _ => simp [Branch.setTarget]

theorem Branch.phases_ne_jmpRel (b : Branch) (buf : Word) :
    ∀ i ∈ b.phases buf, ∀ rel, i ≠ .jmpRel rel := by
  intro i hi
  have hlog : ∀ n, ∀ i ∈ logPhase buf n, ∀ rel, i ≠ .jmpRel rel := by
    simp [logPhase, logPhaseTemplate]
  have heff : ∀ i ∈ b.takeEffect, ∀ rel, i ≠ .jmpRel rel := by
    cases b <;> simp [Branch.takeEffect]
  simp only [Branch.phases, List.mem_append] at hi
  rcases hi with ((hi | hi) | hi) | hi
  · exact b.setTarget_ne_jmpRel i hi
  · exact hlog _ i hi
  · exact heff i hi
  · simp [realBranchPhaseTemplate] at hi
    simp [hi]

/-- A patch has no direct jump. -/
theorem jumpsFrom_patch (b : Branch) (a buf : Word) : jumpsFrom a (b.patch buf) = [] := by
  apply jumpsFrom_eq_nil
  cases b with
  | jmp t => simp [Branch.patch, Branch.setTarget, realBranchPhaseTemplate]
  | call t next => simp [Branch.patch, Branch.setTarget, realBranchPhaseTemplate]
  | rdtsc next => simp [Branch.patch, rdtscTemplate, realBranchPhaseTemplate]
  | int3 branch => simp [Branch.patch]
  | int80 next => simp [Branch.patch, Branch.setTarget]
  | vdso next => simp [Branch.patch, Branch.setTarget]
  | _ => exact Branch.phases_ne_jmpRel _ _

/-! ### The end of a block -/

/-- What `recompile_ud` leaves of a patch. -/
def Branch.kept : Branch → List Insn
  | .call _ next => [.push next]
  | _ => []

theorem Branch.takeBytes_kept (b : Branch) (code : List Insn) :
    takeBytes b.recompileOffset (b.kept ++ code) = b.kept := by
  cases b with
  | call t next => cases code <;> simp [Branch.kept, Branch.recompileOffset, takeBytes, Insn.size]
  | _ => cases code <;> simp [Branch.kept, Branch.recompileOffset, takeBytes]

theorem Branch.exists_patch_eq (b : Branch) (h : b.exitType.getD .uncondDirect = .uncondDirect)
    (buf : Word) : ∃ rest, b.patch buf = b.kept ++ rest := by
  cases b with
  | call t next => exact ⟨_, rfl⟩
  | jmp t => exact ⟨_, rfl⟩
  | int3 branch => exact ⟨_, rfl⟩
  | _ => cases h

theorem Branch.recompileOffset_lt (b : Branch) : b.recompileOffset < 2 ^ 32 := by
  cases b <;> simp [Branch.recompileOffset, Insn.size]

/-- **The end of a compiled block**: what was compiled from its branch, or that with a
jump written over it. -/
structure ExitOk (block : CodeBlock) (branch : Branch) : Prop where
  branch_eq : block.branch = some branch
  exitType : block.exitType = branch.exitType.getD .uncondDirect
  recompileStart : block.exitType = .uncondDirect →
    block.recompileStart = block.oriCodeEnd + BitVec.ofNat 32 branch.recompileOffset
  exitCode : block.exitCode = branch.patch block.oriCodeEnd ∨
    block.exitType = .uncondDirect ∧ ∃ rel, block.exitCode = branch.kept ++ [.jmpRel rel]

section ExitOk

variable {block : CodeBlock} {branch : Branch}

theorem ExitOk.takeBytes_exitCode (h : ExitOk block branch) (hud : block.exitType = .uncondDirect) :
    takeBytes (block.recompileStart - block.oriCodeEnd).toNat block.exitCode = branch.kept := by
  have hoff : (block.recompileStart - block.oriCodeEnd).toNat = branch.recompileOffset := by
    rw [h.recompileStart hud, BitVec.add_comm, BitVec.add_sub_cancel, BitVec.toNat_ofNat,
      Nat.mod_eq_of_lt branch.recompileOffset_lt]
  rw [hoff]
  rcases h.exitCode with hcode | ⟨-, rel, hcode⟩
  · obtain ⟨rest, hrest⟩ := branch.exists_patch_eq (h.exitType ▸ hud) block.oriCodeEnd
    rw [hcode, hrest, branch.takeBytes_kept]
  · rw [hcode, branch.takeBytes_kept]

/-- Writing over the end keeps what the block says of its branch. -/
theorem ExitOk.recompileUd (h : ExitOk block branch) (hud : block.exitType = .uncondDirect)
    (k : Word) : ExitOk (recompileUd block k) branch := by
  refine ⟨h.branch_eq, h.exitType, h.recompileStart, .inr ⟨hud, k - (block.recompileStart + 5), ?_⟩⟩
  show takeBytes _ _ ++ _ = _
  rw [h.takeBytes_exitCode hud]

/-- **The jump goes to the code given.** -/
theorem ExitOk.jumps_recompileUd (h : ExitOk block branch) (hud : block.exitType = .uncondDirect)
    (k : Word) : (Compiler.recompileUd block k).jumps = [k] := by
  have hjump : ∀ rel, jumpsFrom block.oriCodeEnd (branch.kept ++ [.jmpRel rel]) =
      [block.recompileStart + 5 + rel] := by
    intro rel
    rw [h.recompileStart hud]
    cases branch <;> simp [Branch.kept, jumpsFrom, Branch.recompileOffset]
  show jumpsFrom block.oriCodeEnd (takeBytes _ _ ++ _) = _
  rw [h.takeBytes_exitCode hud, hjump, BitVec.add_comm, BitVec.sub_add_cancel]

/-- A block that was not written over has no jump. -/
theorem jumps_of_patch (h : block.exitCode = branch.patch block.oriCodeEnd) : block.jumps = [] := by
  rw [CodeBlock.jumps, h, jumpsFrom_patch]

end ExitOk

/-! ### What a dispatch does to the ends of blocks -/

/-- A dispatch writes over the end of the current block. -/
def Recompiles (current : CodeBlock) (target : Word) : Prop :=
  current.exitType = .uncondDirect ∧ current.lastTargetEntry ≠ target ∧ current.entry ≠ target

instance (current : CodeBlock) (target : Word) : Decidable (Recompiles current target) :=
  inferInstanceAs (Decidable (_ ∧ _ ∧ _))

/-- The ends of all blocks are in order; the first fate block has none. -/
structure CodeCache.Exits (cache : CodeCache) : Prop where
  fate : ∀ block, cache.blocks cache.firstFateBlock = some block →
    block.exitType = .syscall ∧ block.exitCode = []
  compiled : ∀ a block, cache.blocks a = some block → a ≠ cache.firstFateBlock →
    ∃ branch, ExitOk block branch

theorem exits_init (fate : Word) : (initCodeCache fate).Exits := by
  constructor
  · intro block h
    unfold initCodeCache at h
    simp only at h
    cases h
    exact ⟨rfl, rfl⟩
  · intro a block h hne
    unfold initCodeCache at h
    simp only at h
    rw [if_neg (show a ≠ fate from hne)] at h
    cases h

/-- A block may change as long as its end is in order. -/
theorem CodeCache.Exits.setBlock {cache : CodeCache} (h : cache.Exits) {a : Word} {block : CodeBlock}
    (hfate : a = cache.firstFateBlock → block.exitType = .syscall ∧ block.exitCode = [])
    (hexit : a ≠ cache.firstFateBlock → ∃ branch, ExitOk block branch) :
    (cache.setBlock a block).Exits := by
  constructor
  · intro b hb
    rw [CodeCache.blocks_setBlock] at hb
    split_ifs at hb with hx
    · cases hb
      exact hfate hx.symm
    · exact h.fate b hb
  · intro x b hb hne
    rw [CodeCache.blocks_setBlock] at hb
    split_ifs at hb with hx
    · cases hb
      exact hexit (hx ▸ hne)
    · exact h.compiled x b hb hne

theorem ExitOk.setLast {block : CodeBlock} {branch : Branch} (h : ExitOk block branch) (e k : Word) :
    ExitOk (block.setLast e k) branch :=
  ⟨h.branch_eq, h.exitType, h.recompileStart, h.exitCode⟩

/-- The last target has no part in the end of a block. -/
theorem CodeCache.Exits.setLast {cache : CodeCache} (h : cache.Exits) {a : Word} {block : CodeBlock}
    (hblock : cache.blocks a = some block) (e k : Word) :
    (cache.setBlock a (block.setLast e k)).Exits := by
  apply h.setBlock
  · rintro rfl
    exact h.fate block hblock
  · intro hne
    obtain ⟨branch, hexit⟩ := h.compiled a block hblock hne
    exact ⟨branch, hexit.setLast e k⟩

/-- What becomes of the blocks of a cache. -/
structure Effect (cache cache' : CodeCache) (current : CodeBlock) (target k : Word) : Prop where
  current_eq : cache'.currentBlock = cache.currentBlock
  fate_eq : cache'.firstFateBlock = cache.firstFateBlock
  /-- The ends of all blocks are in order. -/
  exits : cache'.Exits
  /-- No block goes, and only the current one may be written over. -/
  kept : ∀ x b, cache.blocks x = some b → ∃ b', cache'.blocks x = some b' ∧ b'.entry = b.entry ∧
    b'.branch = b.branch ∧ (b'.jumps = b.jumps ∨ x = cache.currentBlock ∧ Recompiles current target)
  /-- If it is written over, it jumps to the block of the target. -/
  recompiled : Recompiles current target →
    ∃ b', cache'.blocks cache.currentBlock = some b' ∧ b'.branch = current.branch ∧
      b'.jumps = [k] ∧ ∃ a, cache'.Compiled a target ∧ k = codeAt a
  /-- A new block is not written over. -/
  new : ∀ x b', cache'.blocks x = some b' → cache.blocks x = none → b'.jumps = []

section Dispatch

variable {cache : CodeCache} {m : Word → Option Word} {objs : List (ℕ × ℕ)} {env : Env}
  {current : CodeBlock} {target k : Word}

/-- Setting the last target of the current block changes no end. -/
theorem effect_setLast (hexits : cache.Exits) (hcur : cache.blocks cache.currentBlock = some current)
    (hno : ¬ Recompiles current target) (e k' : Word) :
    Effect cache (cache.setBlock cache.currentBlock (current.setLast e k')) current target k := by
  refine ⟨rfl, rfl, hexits.setLast hcur e k', ?_, fun h => absurd h hno, ?_⟩
  · intro x b hb
    by_cases hx : x = cache.currentBlock
    · subst hx
      rw [hcur] at hb
      cases hb
      exact ⟨current.setLast e k', cache.blocks_setBlock_self _ _, rfl, rfl, .inl rfl⟩
    · exact ⟨b, by rw [CodeCache.blocks_setBlock, if_neg hx, hb], rfl, rfl, .inl rfl⟩
  · intro x b hb hnone
    rw [CodeCache.blocks_setBlock, if_neg] at hb
    · rw [hnone] at hb
      cases hb
    · rintro rfl
      rw [hcur] at hnone
      cases hnone

/-- Finding a block changes no end. -/
theorem findOrCompile_exits {a : Word} {cache₁ : CodeCache} (hok : cache.Ok m objs)
    (hexits : cache.Exits) (hfresh : env.Fresh cache)
    (hfind : findOrCompile env target cache = .ok (cache₁, a)) :
    cache₁.Exits ∧ ∀ x b, cache₁.blocks x = some b → cache.blocks x = none → b.jumps = [] := by
  rcases findOrCompile_ok hfind with ⟨-, -, rfl⟩ | ⟨-, pages', block, dict, hcomp, -, rfl⟩
  · refine ⟨hexits, fun x b hb hnone => ?_⟩
    rw [hnone] at hb
    cases hb
  · obtain ⟨ptr, sz, hnew⟩ := compileCodeBlock_ok hcomp
    obtain ⟨branch, -, hbranch, htype, hcode, hstart⟩ := hnew.exit
    have hexits' : (cache.setBlock a block).Exits :=
      hexits.setBlock (fun ha => absurd ha (hok.newBlock hfresh hnew).2.2.1)
        fun _ => ⟨branch, hbranch, htype, hstart, .inl hcode⟩
    refine ⟨⟨hexits'.fate, hexits'.compiled⟩, fun x b hb hnone => ?_⟩
    rw [show CodeCache.blocks _ x = _ from cache.blocks_setBlock a x block] at hb
    split_ifs at hb
    · cases hb
      exact jumps_of_patch hcode
    · rw [hnone] at hb
      cases hb

/-- Writing over the current block, which then is set to the target. -/
theorem effect_recompile {a : Word} (hok : cache.Ok m objs) (hexits : cache.Exits)
    (hcur : cache.blocks cache.currentBlock = some current) (hr : Recompiles current target)
    (hm : m target = some a) (e k' : Word) :
    Effect cache (cache.setBlock cache.currentBlock
      ((recompileUd current (codeAt a)).setLast e k')) current target (codeAt a) := by
  have hfate : cache.currentBlock ≠ cache.firstFateBlock := by
    intro hf
    rw [hf] at hcur
    exact absurd (hr.1.symm.trans (hexits.fate current hcur).1) (by decide)
  obtain ⟨branch, hexit⟩ := hexits.compiled _ _ hcur hfate
  refine ⟨rfl, rfl, ?_, ?_, ?_, ?_⟩
  · exact hexits.setBlock (fun hf => absurd hf hfate)
      fun _ => ⟨branch, (hexit.recompileUd hr.1 _).setLast e k'⟩
  · intro x b hb
    by_cases hx : x = cache.currentBlock
    · subst hx
      rw [hcur] at hb
      cases hb
      exact ⟨_, cache.blocks_setBlock_self _ _, rfl, rfl, .inr ⟨rfl, hr⟩⟩
    · exact ⟨b, by rw [CodeCache.blocks_setBlock, if_neg hx, hb], rfl, rfl, .inl rfl⟩
  · intro _
    obtain ⟨-, hafate, b, hb, hentry⟩ := hok.mapped target a hm
    have hne : a ≠ cache.currentBlock := by
      rintro rfl
      rw [hcur] at hb
      cases hb
      exact hr.2.2 hentry
    refine ⟨_, cache.blocks_setBlock_self _ _, rfl,
      hexit.jumps_recompileUd hr.1 (codeAt a), a, ⟨hafate, b, ?_, hentry⟩, rfl⟩
    rw [CodeCache.blocks_setBlock, if_neg hne, hb]
  · intro x b hb hnone
    rw [CodeCache.blocks_setBlock, if_neg] at hb
    · rw [hnone] at hb
      cases hb
    · rintro rfl
      rw [hcur] at hnone
      cases hnone

/-- An effect on a cache to which a block was added first. -/
theorem Effect.of_added {cache₁ cache' : CodeCache} (h : Effect cache₁ cache' current target k)
    (hcur : cache.blocks cache.currentBlock = some current)
    (hcb : cache₁.currentBlock = cache.currentBlock)
    (hff : cache₁.firstFateBlock = cache.firstFateBlock)
    (hold : ∀ x b, cache.blocks x = some b → cache₁.blocks x = some b)
    (hnew : ∀ x b, cache₁.blocks x = some b → cache.blocks x = none → b.jumps = []) :
    Effect cache cache' current target k := by
  refine ⟨h.current_eq.trans hcb, h.fate_eq.trans hff, h.exits, ?_, ?_, ?_⟩
  · intro x b hb
    rw [← hcb]
    exact h.kept x b (hold x b hb)
  · rw [← hcb]
    exact h.recompiled
  · intro x b' hb' hnone
    cases hb₁ : cache₁.blocks x with
    | none => exact h.new x b' hb' hb₁
    | some b₁ =>
      obtain ⟨b'', hb'', -, -, hjumps⟩ := h.kept x b₁ hb₁
      rw [hb'] at hb''
      cases hb''
      rcases hjumps with hj | ⟨rfl, -⟩
      · exact hj.trans (hnew x b₁ hb₁ hnone)
      · rw [hcb, hcur] at hnone
        cases hnone

/-- **What a dispatch does to the ends of blocks.** -/
theorem doRealBranch_effect {image : Image} (hok : cache.Ok m objs) (hexits : cache.Exits)
    (hfresh : env.Fresh cache) (hsig : ¬ image.isSigreturn target)
    (hcur : cache.blocks cache.currentBlock = some current) {cache' : CodeCache}
    (h : doRealBranch image env target cache = .ok (cache', k)) :
    Effect cache cache' current target k := by
  rcases doRealBranch_ok hcur hsig h with ⟨hlast, rfl, rfl⟩ | ⟨hself, rfl, rfl⟩ |
    ⟨hlast, hself, cache₁, cache₂, a, current₂, block, hfind, hchain, hcur₂, hblock, rfl, rfl⟩
  · have hno : ¬ Recompiles current target := fun hr => hr.2.1 hlast
    refine ⟨rfl, rfl, hexits, fun x b hb => ⟨b, hb, rfl, rfl, .inl rfl⟩, fun hr => absurd hr hno, ?_⟩
    intro x b hb hnone
    rw [hnone] at hb
    cases hb
  · exact effect_setLast hexits hcur (fun hr => hr.2.2 hself) _ _
  · obtain ⟨⟨m', objs', hok₁, hm'⟩, hcb, hff, hold⟩ := hok.findOrCompile hfresh hfind
    obtain ⟨hexits₁, hnew₁⟩ := findOrCompile_exits hok hexits hfresh hfind
    have hcur₁ : cache₁.blocks cache₁.currentBlock = some current := by
      rw [hcb]
      exact hold _ _ hcur
    rcases chain_ok hcur₁ hchain with ⟨rfl, hwhy⟩ | ⟨hud, rfl⟩
    · have hno : ¬ Recompiles current target := by
        intro hr
        rcases hwhy with h0 | hne
        · -- nothing is at address 0 but, it may be, the first fate block
          by_cases hf : cache₂.currentBlock = cache₂.firstFateBlock
          · rw [hf] at hcur₁
            exact absurd (hr.1.symm.trans (hexits₁.fate _ hcur₁).1) (by decide)
          · exact (hok₁.mapped _ _ (hok₁.listed _ _ hcur₁ hf).1).1 h0
        · exact hne hr.1
      rw [hcur₁] at hcur₂
      cases hcur₂
      exact (effect_setLast hexits₁ hcur₁ hno _ _).of_added hcur hcb hff hold hnew₁
    · have hcur₂' : recompileUd current (codeAt a) = current₂ :=
        Option.some.inj ((cache₁.blocks_setBlock_self _ _).symm.trans hcur₂)
      rw [← hcur₂', CodeCache.currentBlock_setBlock, CodeCache.setBlock_setBlock]
      exact (effect_recompile hok₁ hexits₁ hcur₁ ⟨hud, hlast, hself⟩ hm' _ _).of_added hcur hcb hff
        hold hnew₁

end Dispatch

/-! ### Where the jumps go -/

/-- The block's branch is a direct jump or call to `target`. -/
def CodeBlock.EndsIn (block : CodeBlock) (target : Word) : Prop :=
  ∃ branch, block.branch = some branch ∧ branch.staticTarget = some target

/-- **Chained jumps go to the static target**: a block that was written over ends in a
direct jump or call, and jumps to the code of the block whose entry is its target. -/
def CodeCache.ChainedRight (cache : CodeCache) : Prop :=
  ∀ a block, cache.blocks a = some block → ∀ k ∈ block.jumps,
    ∃ t a', block.EndsIn t ∧ cache.Compiled a' t ∧ k = codeAt a'

theorem chainedRight_init (fate : Word) : (initCodeCache fate).ChainedRight := by
  intro a block h k hk
  unfold initCodeCache at h
  simp only at h
  split_ifs at h
  cases h
  cases hk

theorem codeAt_inj {a b : Word} (h : codeAt a = codeAt b) : a = b := (BitVec.add_left_inj _).mp h

/-- What is compiled stays. -/
theorem Effect.compiled {cache cache' : CodeCache} {current : CodeBlock} {target k a t : Word}
    (h : Effect cache cache' current target k) (hc : cache.Compiled a t) : cache'.Compiled a t := by
  obtain ⟨hf, b, hb, he⟩ := hc
  obtain ⟨b', hb', he', -⟩ := h.kept a b hb
  exact ⟨h.fate_eq ▸ hf, b', hb', he'.trans he⟩

/-- **A dispatch keeps the jumps right exactly when** it writes over nothing, or goes
where the current block goes. -/
theorem Effect.chainedRight_iff {cache cache' : CodeCache} {current : CodeBlock} {target k : Word}
    (h : Effect cache cache' current target k) (hright : cache.ChainedRight) :
    cache'.ChainedRight ↔ (Recompiles current target → current.EndsIn target) := by
  constructor
  · intro hright' hr
    obtain ⟨b', hb', hbranch, hjumps, a, ⟨hf, b, hb, he⟩, rfl⟩ := h.recompiled hr
    obtain ⟨t, a', ⟨branch, hbr, hst⟩, ⟨-, b₁, hb₁, he₁⟩, hk⟩ :=
      hright' _ b' hb' (codeAt a) (by rw [hjumps]; exact List.mem_singleton_self _)
    -- one block cannot have two entries
    rw [← codeAt_inj hk, hb] at hb₁
    cases hb₁
    exact ⟨branch, hbranch ▸ hbr, by rw [hst, ← he₁, he]⟩
  · intro hstatic x b' hb' k' hk'
    cases hb : cache.blocks x with
    | none =>
      rw [h.new x b' hb' hb] at hk'
      cases hk'
    | some b =>
      obtain ⟨b'', hb'', -, hbranch, hjumps⟩ := h.kept x b hb
      rw [hb'] at hb''
      cases hb''
      rcases hjumps with hsame | ⟨rfl, hr⟩
      · rw [hsame] at hk'
        obtain ⟨t, a, ⟨branch, hbr, hst⟩, hc, rfl⟩ := hright x b hb k' hk'
        exact ⟨t, a, ⟨branch, hbranch.trans hbr, hst⟩, h.compiled hc, rfl⟩
      · obtain ⟨b₁, hb₁, hbranch₁, hjumps₁, a, hc, rfl⟩ := h.recompiled hr
        rw [hb'] at hb₁
        cases hb₁
        rw [hjumps₁, List.mem_singleton] at hk'
        obtain ⟨branch, hbr, hst⟩ := hstatic hr
        exact ⟨target, a, ⟨branch, hbranch₁.trans hbr, hst⟩, hc, hk'⟩

end Snitchaser.Compiler
