import Snitchaser.Interp.Dict
import Snitchaser.Interp.Mm
import Snitchaser.Compiler.Patch
import Snitchaser.Decoder.Encoding

/-!
# The code cache

Dispatch, from `compiler.c` and `code_cache.c`: a branch leaves its target in
`tpd->target`, `do_real_branch` replaces it by the address of the compiled block, and
compiles the block on the way if there is none yet.

## The model

* `CodeBlock` is `struct code_block_t` with the code behind it; `CodeCache` is
  `struct tls_code_cache_t`, with the blocks in memory by their addresses, and the
  targets compiled so far, which the source does not keep (`compiled`).
* A dispatch depends on what it finds in the process: the bytes of the traced program,
  the pages the kernel gives, the stack buffer of `compile_code_block`. That is `Env`,
  another one for each call.
* `recompile_ud` writes five bytes over the end of the block; the bytes behind the
  jump are never reached again and left out.

## What is proved

`dispatch_correct`: from an empty cache on, whatever block is current before each call,
every call leaves the code of the one block compiled for its target, no target is
compiled twice, and the shortcut in each block names the entry and the code of one
block. A call fails only if the target has no block yet and cannot be compiled, or the
dict cannot grow.
-/

namespace Snitchaser.Compiler

open Interp Decoder

/-- `struct code_block_t`, with its code. -/
structure CodeBlock where
  /-- The address in the traced program; the key in the dict. -/
  entry : Word
  /-- The branch that ends it, there. -/
  exitInstAddr : Word
  /-- The first byte behind the unmodified code. -/
  oriCodeEnd : Word
  /-- Where `recompile_ud` writes, or `NULL`. -/
  recompileStart : Word
  exitType : ExitType
  /-- The entry of the block that was dispatched to last. -/
  lastTargetEntry : Word
  /-- Its code. -/
  lastTargetCode : Word
  /-- The unmodified code, behind the head. -/
  oriCode : List Byte
  /-- The code from `ori_code_end` on. -/
  exitCode : List Insn
  /-- The branch it was compiled from; the first fate block has none. -/
  branch : Option Branch

/-- The block with another last target. -/
def CodeBlock.setLast (block : CodeBlock) (entry k : Word) : CodeBlock :=
  { block with lastTargetEntry := entry, lastTargetCode := k }

/-- `sizeof(struct code_block_t)`. -/
def codeBlockSz : ℕ := 28

/-- `block->__code`. -/
def codeAt (block : Word) : Word := block + BitVec.ofNat 32 codeBlockSz

/-- `struct tls_code_cache_t`. -/
structure CodeCache where
  cacheDict : Option Dict
  codeBlocks : List ObjPage
  currentBlock : Word
  /-- The address of `first_fate_block`. -/
  firstFateBlock : Word
  /-- The blocks in memory, the first fate block among them. -/
  blocks : Word → Option CodeBlock
  /-- The targets `compile_code_block` was called for, latest first. -/
  compiled : List Word

/-- `init_code_cache`, with the first fate block at `fate`. -/
def initCodeCache (fate : Word) : CodeCache where
  cacheDict := none
  codeBlocks := []
  currentBlock := fate
  firstFateBlock := fate
  blocks := fun a => if a = fate then
    some
      { entry := 0
        exitInstAddr := 0
        oriCodeEnd := 0
        recompileStart := 0
        exitType := .syscall
        lastTargetEntry := 0
        lastTargetCode := codeAt fate
        oriCode := []
        exitCode := []
        branch := none }
    else none
  compiled := []

/-- What a dispatch finds in the process. -/
structure Env where
  /-- The traced program. -/
  code : Code
  /-- The kernel's answers to `alloc_pages`. -/
  allocPages : AllocPages
  /-- The address of `patch_code`. -/
  patchBuf : Word

/-- Addresses of functions of the interpreter. -/
structure Image where
  archWrapperRtSigreturn : Word
  archWrapperSigreturn : Word

/-- The target is a wrapper of `sigreturn`. -/
def Image.isSigreturn (image : Image) (target : Word) : Prop :=
  target = image.archWrapperRtSigreturn ∨ target = image.archWrapperSigreturn

instance (image : Image) (target : Word) : Decidable (image.isSigreturn target) :=
  inferInstanceAs (Decidable (_ ∨ _))

/-- Code is read at an address. Nothing is ever mapped in the first page. -/
def fetchAt (target : Word) : Except Fault Unit :=
  if target.toNat < pageSize then .error .segfault else .ok ()

/-- `compile_code_block(target, phead)`, with the new pages, the block's address and the
block. -/
def compileCodeBlock (env : Env) (target : Word) (pages : List ObjPage) :
    Except Fault (List ObjPage × Word × CodeBlock) := do
  fetchAt target
  let branchStart ← scanInsts env.code target
  let branch ← readBranch env.code branchStart
  let patch := branch.patch env.patchBuf
  let oriSz := (branchStart - target).toNat
  let headSz := encodedSize (setCurrentBlockTemplate 0)
  assert (smallestPatchSize ≤ encodedSize patch) "patch_sz >= SMALLEST_PATCH_SIZE"
  let (pages, ptr) ← allocObj env.allocPages pages (codeBlockSz + headSz + oriSz + encodedSize patch)
  let block := BitVec.ofNat 32 ptr
  assert (block ≠ 0) "block != NULL"
  let oriCodeEnd := codeAt block + BitVec.ofNat 32 (headSz + oriSz)
  let exitType := branch.exitType.getD .uncondDirect
  .ok (pages, block,
    { entry := target
      exitInstAddr := branchStart
      oriCodeEnd := oriCodeEnd
      recompileStart :=
        if exitType = .uncondDirect then oriCodeEnd + BitVec.ofNat 32 branch.recompileOffset else 0
      exitType := exitType
      lastTargetEntry := target
      lastTargetCode := codeAt block
      oriCode := (List.range oriSz).map fun i => env.code (target + BitVec.ofNat 32 i)
      exitCode := patch.map (retaddrFix oriCodeEnd env.patchBuf)
      branch := some branch })

/-- The instructions in the first `n` bytes. -/
def takeBytes : ℕ → List Insn → List Insn
  | _, [] => []
  | n, i :: is => if n = 0 then [] else i :: takeBytes (n - i.size) is

/-- `recompile_ud(block, target)`. -/
def recompileUd (block : CodeBlock) (target : Word) : CodeBlock :=
  { block with
    exitCode := takeBytes (block.recompileStart - block.oriCodeEnd).toNat block.exitCode ++
      [.jmpRel (target - (block.recompileStart + 5))] }

/-- A block in memory is changed. -/
def CodeCache.setBlock (cache : CodeCache) (a : Word) (block : CodeBlock) : CodeCache :=
  { cache with blocks := Function.update cache.blocks a (some block) }

/-- A block is read through a pointer. -/
def CodeCache.getBlock (cache : CodeCache) (a : Word) : Except Fault CodeBlock :=
  match cache.blocks a with
  | some block => .ok block
  | none => .error .segfault

/-- The first half of `do_compile`: the block in the dict, or a new one. -/
def findOrCompile (env : Env) (target : Word) (cache : CodeCache) : Except Fault (CodeCache × Word) := do
  let block ← dictGet cache.cacheDict target
  if block ≠ 0 then .ok (cache, block)
  else
    let (pages, ptr, block) ← compileCodeBlock env target cache.codeBlocks
    let dict ← dictInsert cache.cacheDict block.entry ptr
    .ok ({ cache.setBlock ptr block with
            cacheDict := some dict
            codeBlocks := pages
            compiled := target :: cache.compiled }, ptr)

/-- The second half: the current block, if it ends in a direct jump, is made to jump to
the block. -/
def chain (block : Word) (cache : CodeCache) : Except Fault CodeCache := do
  if cache.currentBlock = 0 then .ok cache
  else
    let current ← cache.getBlock cache.currentBlock
    if current.exitType = .uncondDirect then
      .ok (cache.setBlock cache.currentBlock (recompileUd current (codeAt block)))
    else .ok cache

/-- `do_compile`, with the block. -/
def doCompile (env : Env) (target : Word) (cache : CodeCache) : Except Fault (CodeCache × Word) := do
  let (cache, block) ← findOrCompile env target cache
  let cache ← chain block cache
  .ok (cache, block)

/-- **`do_real_branch`**, with the new `tpd->target`. -/
def doRealBranch (image : Image) (env : Env) (target : Word) (cache : CodeCache) :
    Except Fault (CodeCache × Word) := do
  let current ← cache.getBlock cache.currentBlock
  if image.isSigreturn target then
    assert (current.exitType = .uncondIndirect)
      "cache->current_block->exit_type == EXIT_UNCOND_INDIRECT"
    .ok (cache, target)
  else if current.lastTargetEntry = target then
    .ok (cache, current.lastTargetCode)
  else if current.entry = target then
    .ok (cache.setBlock cache.currentBlock (current.setLast current.entry (codeAt cache.currentBlock)),
      codeAt cache.currentBlock)
  else
    let (cache, block) ← doCompile env target cache
    let current ← cache.getBlock cache.currentBlock
    let entry := (← cache.getBlock block).entry
    .ok (cache.setBlock cache.currentBlock (current.setLast entry (codeAt block)), codeAt block)

/-! ### What the steps do -/

theorem CodeCache.getBlock_eq_ok {cache : CodeCache} {a : Word} {block : CodeBlock} :
    cache.getBlock a = .ok block ↔ cache.blocks a = some block := by
  unfold CodeCache.getBlock
  split <;> simp_all

/-- A new block: where it lies, and that it is its own last target. -/
structure NewBlock (env : Env) (target : Word) (pages pages' : List ObjPage) (a : Word)
    (block : CodeBlock) (ptr sz : ℕ) : Prop where
  /-- Its target is not in the first page. -/
  notNull : pageSize ≤ target.toNat
  /-- It was allocated. -/
  alloc : allocObj env.allocPages pages sz = .ok (pages', ptr)
  /-- It is the object. -/
  addr : a = BitVec.ofNat 32 ptr
  /-- It has room for its head. -/
  size : codeBlockSz ≤ sz
  entry : block.entry = target
  lastTargetEntry : block.lastTargetEntry = target
  lastTargetCode : block.lastTargetCode = codeAt a
  /-- The branch at its end, and what the block says of it. -/
  exit : ∃ branch, readBranch env.code block.exitInstAddr = .ok branch ∧
    block.branch = some branch ∧ block.exitType = branch.exitType.getD .uncondDirect ∧
    block.exitCode = branch.patch block.oriCodeEnd ∧
    (block.exitType = .uncondDirect →
      block.recompileStart = block.oriCodeEnd + BitVec.ofNat 32 branch.recompileOffset)

theorem compileCodeBlock_ok {env : Env} {target a : Word} {pages pages' : List ObjPage}
    {block : CodeBlock} (h : compileCodeBlock env target pages = .ok (pages', a, block)) :
    ∃ ptr sz, NewBlock env target pages pages' a block ptr sz := by
  unfold compileCodeBlock at h
  obtain ⟨_, hnull, h⟩ := bind_eq_ok.mp h
  obtain ⟨branchStart, -, h⟩ := bind_eq_ok.mp h
  obtain ⟨branch, hbranch, h⟩ := bind_eq_ok.mp h
  obtain ⟨-, -, h⟩ := bind_eq_ok.mp h
  obtain ⟨⟨pages₁, ptr⟩, halloc, h⟩ := bind_eq_ok.mp h
  obtain ⟨-, -, h⟩ := bind_eq_ok.mp h
  cases h
  refine ⟨ptr, _, ?_, halloc, rfl, by omega, rfl, rfl, rfl, branch, hbranch, rfl, rfl,
    branch.patch_fixed _ _, fun hud => ?_⟩
  · unfold fetchAt at hnull
    split_ifs at hnull with hlt
    exact Nat.le_of_not_lt hlt
  · exact if_pos hud

/-- The block is in the dict, or it is compiled and entered. -/
theorem findOrCompile_ok {env : Env} {target a : Word} {cache cache' : CodeCache}
    (h : findOrCompile env target cache = .ok (cache', a)) :
    (dictGet cache.cacheDict target = .ok a ∧ a ≠ 0 ∧ cache' = cache) ∨
    (dictGet cache.cacheDict target = .ok 0 ∧ ∃ pages' block dict,
      compileCodeBlock env target cache.codeBlocks = .ok (pages', a, block) ∧
      dictInsert cache.cacheDict block.entry a = .ok dict ∧
      cache' = { cache.setBlock a block with
                  cacheDict := some dict
                  codeBlocks := pages'
                  compiled := target :: cache.compiled }) := by
  unfold findOrCompile at h
  obtain ⟨found, hfound, h⟩ := bind_eq_ok.mp h
  split_ifs at h with hz
  · cases h
    exact .inl ⟨hfound, hz, rfl⟩
  · obtain ⟨⟨pages', ptr, block⟩, hcomp, h⟩ := bind_eq_ok.mp h
    obtain ⟨dict, hdict, h⟩ := bind_eq_ok.mp h
    cases h
    rw [not_not] at hz
    subst hz
    exact .inr ⟨hfound, pages', block, dict, hcomp, hdict, rfl⟩

/-- Chaining changes nothing but the exit code of the current block. -/
theorem chain_ok {block : Word} {cache cache' : CodeCache} {current : CodeBlock}
    (hcur : cache.blocks cache.currentBlock = some current)
    (h : chain block cache = .ok cache') :
    (cache' = cache ∧ (cache.currentBlock = 0 ∨ current.exitType ≠ .uncondDirect)) ∨
    (current.exitType = .uncondDirect ∧
      cache' = cache.setBlock cache.currentBlock (recompileUd current (codeAt block))) := by
  unfold chain at h
  rw [CodeCache.getBlock_eq_ok.mpr hcur] at h
  split_ifs at h with hz
  · cases h
    exact .inl ⟨rfl, .inl hz⟩
  · simp only [bind, Except.bind] at h
    split_ifs at h with hud
    · cases h
      exact .inr ⟨hud, rfl⟩
    · cases h
      exact .inl ⟨rfl, .inr hud⟩

/-- Chaining does not fail, and takes no block away. -/
theorem exists_chain {a : Word} {cache : CodeCache} {current : CodeBlock}
    (hcur : cache.blocks cache.currentBlock = some current) (hblock : ∃ b, cache.blocks a = some b) :
    ∃ cache', chain a cache = .ok cache' ∧
      (∃ b, cache'.blocks cache'.currentBlock = some b) ∧ ∃ b, cache'.blocks a = some b := by
  unfold chain
  rw [CodeCache.getBlock_eq_ok.mpr hcur]
  simp only [bind, Except.bind]
  split_ifs
  · exact ⟨cache, rfl, ⟨current, hcur⟩, hblock⟩
  · refine ⟨_, rfl, ⟨_, Function.update_self ..⟩, ?_⟩
    by_cases ha : a = cache.currentBlock
    · exact ⟨_, by rw [ha]; exact Function.update_self ..⟩
    · exact hblock.imp fun b hb => (Function.update_of_ne ha _ _).trans hb
  · exact ⟨cache, rfl, ⟨current, hcur⟩, hblock⟩

/-- The three answers to a dispatch. -/
theorem doRealBranch_ok {image : Image} {env : Env} {target k : Word} {cache cache' : CodeCache}
    {current : CodeBlock} (hcur : cache.blocks cache.currentBlock = some current)
    (hsig : ¬ image.isSigreturn target)
    (h : doRealBranch image env target cache = .ok (cache', k)) :
    (current.lastTargetEntry = target ∧ cache' = cache ∧ k = current.lastTargetCode) ∨
    (current.entry = target ∧ k = codeAt cache.currentBlock ∧
      cache' = cache.setBlock cache.currentBlock (current.setLast current.entry k)) ∨
    (current.lastTargetEntry ≠ target ∧ current.entry ≠ target ∧ ∃ cache₁ cache₂ a current₂ block,
      findOrCompile env target cache = .ok (cache₁, a) ∧ chain a cache₁ = .ok cache₂ ∧
      cache₂.blocks cache₂.currentBlock = some current₂ ∧ cache₂.blocks a = some block ∧
      k = codeAt a ∧
      cache' = cache₂.setBlock cache₂.currentBlock (current₂.setLast block.entry k)) := by
  unfold doRealBranch at h
  rw [CodeCache.getBlock_eq_ok.mpr hcur] at h
  simp only [bind, Except.bind] at h
  rw [if_neg hsig] at h
  split_ifs at h with hlast hself
  · cases h
    exact .inl ⟨hlast, rfl, rfl⟩
  · cases h
    exact .inr (.inl ⟨hself, rfl, rfl⟩)
  · obtain ⟨⟨cache₂, a⟩, hcomp, h⟩ := bind_eq_ok.mp h
    obtain ⟨current₂, hcur₂, h⟩ := bind_eq_ok.mp h
    obtain ⟨block, hblock, h⟩ := bind_eq_ok.mp h
    obtain ⟨⟨cache₁, a₁⟩, hfind, hcomp⟩ := bind_eq_ok.mp hcomp
    obtain ⟨cache₃, hchain, hcomp⟩ := bind_eq_ok.mp hcomp
    cases h
    cases hcomp
    exact .inr (.inr ⟨hlast, hself, cache₁, cache₂, a, current₂, block, hfind, hchain,
      CodeCache.getBlock_eq_ok.mp hcur₂, CodeCache.getBlock_eq_ok.mp hblock, rfl, rfl⟩)

/-! ### The invariant -/

/-- The entry and the code of a compiled block. -/
def CodeCache.Names (cache : CodeCache) (entry k : Word) : Prop :=
  ∃ a block, cache.blocks a = some block ∧ a ≠ cache.firstFateBlock ∧ block.entry = entry ∧
    k = codeAt a

/-- **The cache is in order**: `m` is the map of entries to blocks the dict represents,
`objs` are the objects allocated. -/
structure CodeCache.Ok (cache : CodeCache) (m : Word → Option Word) (objs : List (ℕ × ℕ)) : Prop where
  /-- The dict represents the map. -/
  dict : ValidPtr cache.cacheDict m
  /-- The object pages are in order, and not where the first fate block is. -/
  pages : ObjPagesOk (· = cache.firstFateBlock.toNat) cache.codeBlocks objs
  /-- The first fate block has no entry. -/
  fate : ∃ block, cache.blocks cache.firstFateBlock = some block ∧ block.entry = 0
  /-- What the map says of an entry is a block with this entry. -/
  mapped : ∀ t a, m t = some a → a ≠ 0 ∧ a ≠ cache.firstFateBlock ∧
    ∃ block, cache.blocks a = some block ∧ block.entry = t
  /-- A block is in the map under its entry, and was allocated. -/
  listed : ∀ a block, cache.blocks a = some block → a ≠ cache.firstFateBlock →
    m block.entry = some a ∧ ∃ sz, 0 < sz ∧ (a.toNat, sz) ∈ objs
  /-- The last target of a block is a compiled block; only the first fate block may have
  none. -/
  last : ∀ a block, cache.blocks a = some block →
    cache.Names block.lastTargetEntry block.lastTargetCode ∨
      (a = cache.firstFateBlock ∧ block.lastTargetEntry = 0)
  /-- What was compiled is in the map, and was compiled once. -/
  once : cache.compiled.Nodup ∧ ∀ t, t ∈ cache.compiled ↔ (m t).isSome

theorem ok_init (fate : Word) : (initCodeCache fate).Ok (fun _ => none) [] where
  dict := rfl
  pages := objPagesOk_nil
  fate := ⟨_, if_pos rfl, rfl⟩
  mapped _ _ h := by cases h
  listed a block h hne := by
    unfold initCodeCache at h
    simp only at h
    rw [if_neg (show a ≠ fate from hne)] at h
    cases h
  last a block h := by
    unfold initCodeCache at h
    simp only at h
    split_ifs at h with ha
    cases h
    exact .inr ⟨ha, rfl⟩
  once := ⟨.nil, by simp [initCodeCache]⟩

section Invariant

variable {cache : CodeCache} {m : Word → Option Word} {objs : List (ℕ × ℕ)}

@[simp] theorem CodeCache.currentBlock_setBlock (cache : CodeCache) (a : Word) (block : CodeBlock) :
    (cache.setBlock a block).currentBlock = cache.currentBlock := rfl

@[simp] theorem CodeCache.firstFateBlock_setBlock (cache : CodeCache) (a : Word) (block : CodeBlock) :
    (cache.setBlock a block).firstFateBlock = cache.firstFateBlock := rfl

@[simp] theorem CodeCache.setBlock_setBlock (cache : CodeCache) (a : Word) (b b' : CodeBlock) :
    (cache.setBlock a b).setBlock a b' = cache.setBlock a b' := by
  simp [CodeCache.setBlock]

theorem CodeCache.blocks_setBlock_self (cache : CodeCache) (a : Word) (block : CodeBlock) :
    (cache.setBlock a block).blocks a = some block := by
  simp [CodeCache.setBlock]

theorem CodeCache.blocks_setBlock (cache : CodeCache) (a x : Word) (block : CodeBlock) :
    (cache.setBlock a block).blocks x = if x = a then some block else cache.blocks x := by
  simp [CodeCache.setBlock, Function.update_apply]

/-- Names survive a change that keeps the entry of the block changed. -/
theorem CodeCache.Names.setBlock {e k a : Word} {block block' : CodeBlock} (h : cache.Names e k)
    (hblock : cache.blocks a = some block) (hentry : block'.entry = block.entry) :
    (cache.setBlock a block').Names e k := by
  obtain ⟨x, b, hb, hne, he, hk⟩ := h
  by_cases hx : x = a
  · subst hx
    rw [hblock] at hb
    cases hb
    exact ⟨x, block', by rw [CodeCache.blocks_setBlock, if_pos rfl], hne, hentry.trans he, hk⟩
  · exact ⟨x, b, by rw [CodeCache.blocks_setBlock, if_neg hx, hb], hne, he, hk⟩

/-- **A block may change** as long as it keeps its entry and its last target is one. -/
theorem CodeCache.Ok.setBlock (h : cache.Ok m objs) {a : Word} {block block' : CodeBlock}
    (hblock : cache.blocks a = some block) (hentry : block'.entry = block.entry)
    (hlast : cache.Names block'.lastTargetEntry block'.lastTargetCode ∨
      (a = cache.firstFateBlock ∧ block'.lastTargetEntry = 0)) :
    (cache.setBlock a block').Ok m objs := by
  refine ⟨h.dict, h.pages, ?_, ?_, ?_, ?_, h.once⟩
  · obtain ⟨b, hb, he⟩ := h.fate
    by_cases hf : cache.firstFateBlock = a
    · refine ⟨block', by rw [CodeCache.blocks_setBlock]; exact if_pos hf, ?_⟩
      rw [hf, hblock] at hb
      cases hb
      exact hentry.trans he
    · exact ⟨b, by rw [CodeCache.blocks_setBlock]; exact (if_neg hf).trans hb, he⟩
  · intro t x hx
    obtain ⟨h0, hf, b, hb, he⟩ := h.mapped t x hx
    refine ⟨h0, hf, ?_⟩
    by_cases hxa : x = a
    · subst hxa
      rw [hblock] at hb
      cases hb
      exact ⟨block', by rw [CodeCache.blocks_setBlock, if_pos rfl], hentry.trans he⟩
    · exact ⟨b, by rw [CodeCache.blocks_setBlock, if_neg hxa, hb], he⟩
  · intro x b hb hf
    rw [CodeCache.blocks_setBlock] at hb
    split_ifs at hb with hxa
    · cases hb
      subst hxa
      rw [hentry]
      exact h.listed x block hblock hf
    · exact h.listed x b hb hf
  · intro x b hb
    rw [CodeCache.blocks_setBlock] at hb
    split_ifs at hb with hxa
    · cases hb
      subst hxa
      exact hlast.imp_left fun hn => hn.setBlock hblock hentry
    · exact (h.last x b hb).imp_left fun hn => hn.setBlock hblock hentry

/-- A target the dict can hold. -/
def IsTarget (target : Word) : Prop := target ≠ noSuchKey ∧ target ≠ dummyKey

instance (target : Word) : Decidable (IsTarget target) := inferInstanceAs (Decidable (_ ∧ _))

theorem isTarget_of_notNull {target : Word} (h : pageSize ≤ target.toNat) : IsTarget target := by
  constructor <;> rintro rfl <;> exact absurd h (by decide)

/-- What the kernel promises of new pages, where the cache is. -/
def Env.Fresh (env : Env) (cache : CodeCache) : Prop :=
  FreshPages env.allocPages cache.codeBlocks (· = cache.firstFateBlock.toNat)

/-- A new block lies where none is. -/
theorem CodeCache.Ok.newBlock (h : cache.Ok m objs) {env : Env} (hfresh : env.Fresh cache)
    {target a : Word} {pages' : List ObjPage} {block : CodeBlock} {ptr sz : ℕ}
    (hnew : NewBlock env target cache.codeBlocks pages' a block ptr sz) :
    ObjPagesOk (· = cache.firstFateBlock.toNat) pages' ((a.toNat, sz) :: objs) ∧ a ≠ 0 ∧
      a ≠ cache.firstFateBlock ∧ cache.blocks a = none := by
  have hpages := allocObj_spec h.pages hfresh hnew.alloc
  obtain ⟨hpos, hlt, hfree⟩ := hpages.mem_bounds List.mem_cons_self
  have hsz := hnew.size
  have hnat : a.toNat = ptr := by
    rw [hnew.addr, BitVec.toNat_ofNat]
    refine Nat.mod_eq_of_lt ?_
    unfold userEnd at hlt
    omega
  have hsz' : 0 < sz := Nat.lt_of_lt_of_le (by decide) hsz
  have hfate : a ≠ cache.firstFateBlock := by
    rintro rfl
    rcases hfree _ rfl with h | h <;> omega
  refine ⟨hnat ▸ hpages, ?_, hfate, ?_⟩
  · rintro rfl
    exact absurd hnat (Nat.ne_of_lt hpos)
  · cases hb : cache.blocks a with
    | none => rfl
    | some b =>
      obtain ⟨-, sz', hpos', hmem⟩ := h.listed a b hb hfate
      have hapart : Apart ptr sz a.toNat sz' :=
        (List.pairwise_cons.mp hpages.objs_apart).1 _ hmem
      rcases hapart with h | h <;> omega

/-- A new block is entered. -/
theorem CodeCache.Ok.insert (h : cache.Ok m objs) {env : Env} (hfresh : env.Fresh cache)
    {target a : Word} {pages' : List ObjPage} {block : CodeBlock} {ptr sz : ℕ} (hm : m target = none)
    (hnew : NewBlock env target cache.codeBlocks pages' a block ptr sz) {dict : Dict}
    (hdict : dict.Valid (Function.update m target (some a))) :
    { cache.setBlock a block with
      cacheDict := some dict
      codeBlocks := pages'
      compiled := target :: cache.compiled : CodeCache }.Ok
        (Function.update m target (some a)) ((a.toNat, sz) :: objs) := by
  obtain ⟨hpages, h0, hfate, hnone⟩ := h.newBlock hfresh hnew
  have hsz : 0 < sz := Nat.lt_of_lt_of_le (by decide) hnew.size
  have hold : ∀ x b, cache.blocks x = some b → (cache.setBlock a block).blocks x = some b :=
    fun x b hb => by
      rw [CodeCache.blocks_setBlock, if_neg, hb]
      rintro rfl
      rw [hnone] at hb
      cases hb
  have hself : (cache.setBlock a block).blocks a = some block := by
    rw [CodeCache.blocks_setBlock, if_pos rfl]
  refine ⟨hdict, hpages, ?_, fun t x hx => ?_, fun x b hb hf => ?_, fun x b hb => ?_, ?_, fun t => ?_⟩
  · obtain ⟨b, hb, he⟩ := h.fate
    exact ⟨b, hold _ _ hb, he⟩
  · rw [Function.update_apply] at hx
    split_ifs at hx with ht
    · cases hx
      exact ⟨h0, hfate, block, hself, hnew.entry.trans ht.symm⟩
    · obtain ⟨hx0, hxf, b, hb, he⟩ := h.mapped t x hx
      exact ⟨hx0, hxf, b, hold _ _ hb, he⟩
  · rw [CodeCache.blocks_setBlock] at hb
    split_ifs at hb with hxa
    · cases hb
      subst hxa
      exact ⟨by rw [hnew.entry, Function.update_self], sz, hsz, List.mem_cons_self⟩
    · obtain ⟨hmx, sz', hsz', hmem⟩ := h.listed x b hb hf
      refine ⟨?_, sz', hsz', List.mem_cons_of_mem _ hmem⟩
      rw [Function.update_of_ne _ _ _, hmx]
      rintro he
      rw [he, hm] at hmx
      cases hmx
  · have hnames : ∀ e k, cache.Names e k → (cache.setBlock a block).Names e k :=
      fun e k ⟨y, b', hb', hrest⟩ => ⟨y, b', hold _ _ hb', hrest⟩
    rw [CodeCache.blocks_setBlock] at hb
    split_ifs at hb with hxa
    · cases hb
      refine .inl ⟨a, block, hself, hfate, ?_, hnew.lastTargetCode⟩
      rw [hnew.entry, hnew.lastTargetEntry]
    · exact (h.last x b hb).imp_left (hnames _ _)
  · refine List.nodup_cons.mpr ⟨fun hmem => ?_, h.once.1⟩
    rw [h.once.2, hm] at hmem
    cases hmem
  · rw [List.mem_cons, h.once.2, Function.update_apply]
    by_cases ht : t = target
    · simp [ht]
    · simp [ht]

/-- **Finding a block**: the cache stays in order, nothing that was there is changed, and
the map then gives the block. -/
theorem CodeCache.Ok.findOrCompile (h : cache.Ok m objs) {env : Env} (hfresh : env.Fresh cache)
    {target a : Word} {cache' : CodeCache}
    (hok : findOrCompile env target cache = .ok (cache', a)) :
    (∃ m' objs', cache'.Ok m' objs' ∧ m' target = some a) ∧
      cache'.currentBlock = cache.currentBlock ∧ cache'.firstFateBlock = cache.firstFateBlock ∧
      ∀ x b, cache.blocks x = some b → cache'.blocks x = some b := by
  have hget := dictGet_spec h.dict target
  rcases findOrCompile_ok hok with ⟨hfound, h0, rfl⟩ | ⟨hfound, pages', block, dict, hcomp, hins, rfl⟩
  · refine ⟨⟨m, objs, h, ?_⟩, rfl, rfl, fun _ _ hb => hb⟩
    have heq : (m target).getD 0 = a := Except.ok.inj (hget.symm.trans hfound)
    cases hm : m target with
    | none => rw [hm] at heq; exact absurd heq.symm h0
    | some x => rw [hm] at heq; exact congrArg some heq
  · have hm : m target = none := by
      have heq : (m target).getD 0 = 0 := Except.ok.inj (hget.symm.trans hfound)
      cases hm : m target with
      | none => rfl
      | some x => rw [hm] at heq; exact absurd heq (h.mapped target x hm).1
    obtain ⟨ptr, sz, hnew⟩ := compileCodeBlock_ok hcomp
    have hvalid : dict.Valid (Function.update m target (some a)) := by
      rw [hnew.entry] at hins
      obtain ⟨ht0, ht1⟩ := isTarget_of_notNull hnew.notNull
      rcases dictInsert_spec h.dict ht0 ht1 a with he | ⟨d, hd, hv⟩
      · rw [he] at hins
        cases hins
      · rw [hd] at hins
        cases hins
        exact hv
    refine ⟨⟨_, _, h.insert hfresh hm hnew hvalid, Function.update_self ..⟩, rfl, rfl,
      fun x b hb => ?_⟩
    rw [show CodeCache.blocks _ x = _ from cache.blocks_setBlock a x block, if_neg, hb]
    rintro rfl
    rw [(h.newBlock hfresh hnew).2.2.2] at hb
    cases hb

/-- **A dispatch**: the cache stays in order, and the answer is the code of the block
the map has for the target. -/
theorem CodeCache.Ok.doRealBranch (h : cache.Ok m objs) {image : Image} {env : Env}
    (hfresh : env.Fresh cache) {target k : Word} (hsig : ¬ image.isSigreturn target)
    {current : CodeBlock} (hcur : cache.blocks cache.currentBlock = some current)
    {cache' : CodeCache} (hok : doRealBranch image env target cache = .ok (cache', k)) :
    (∃ m' objs', cache'.Ok m' objs' ∧ (target ≠ 0 → ∃ a, m' target = some a ∧ k = codeAt a)) ∧
      cache'.firstFateBlock = cache.firstFateBlock := by
  rcases doRealBranch_ok hcur hsig hok with ⟨hlast, rfl, rfl⟩ | ⟨hself, rfl, rfl⟩ |
    ⟨-, -, cache₁, cache₂, a, current₂, block, hfind, hchain, hcur₂, hblock, rfl, rfl⟩
  · refine ⟨⟨m, objs, h, fun h0 => ?_⟩, rfl⟩
    rcases h.last _ _ hcur with ⟨a, b, hb, hf, he, hk⟩ | ⟨-, hzero⟩
    · refine ⟨a, ?_, hk⟩
      rw [← hlast, ← he]
      exact (h.listed a b hb hf).1
    · exact absurd (hlast.symm.trans hzero) h0
  · by_cases hf : cache.currentBlock = cache.firstFateBlock
    · -- the first fate block has no entry: this is a dispatch to address 0
      have hzero : current.entry = 0 := by
        obtain ⟨b, hb, he⟩ := h.fate
        rw [hf, hb] at hcur
        cases hcur
        exact he
      exact ⟨⟨m, objs, h.setBlock hcur rfl (.inr ⟨hf, hzero⟩),
        fun h0 => absurd (hself.symm.trans hzero) h0⟩, rfl⟩
    · have hnames : cache.Names current.entry (codeAt cache.currentBlock) :=
        ⟨_, current, hcur, hf, rfl, rfl⟩
      refine ⟨⟨m, objs, h.setBlock hcur rfl (.inl hnames), fun _ => ⟨cache.currentBlock, ?_, rfl⟩⟩,
        rfl⟩
      rw [← hself]
      exact (h.listed _ _ hcur hf).1
  · obtain ⟨⟨m', objs', h₁, hm'⟩, hcb, hff, hold⟩ := h.findOrCompile hfresh hfind
    have hcur₁ : cache₁.blocks cache₁.currentBlock = some current := by
      rw [hcb]
      exact hold _ _ hcur
    have h₂ : cache₂.Ok m' objs' := by
      rcases chain_ok hcur₁ hchain with ⟨rfl, -⟩ | ⟨-, rfl⟩
      · exact h₁
      · have hlast := h₁.last _ _ hcur₁
        exact h₁.setBlock hcur₁ rfl hlast
    have hff₂ : cache₂.firstFateBlock = cache₁.firstFateBlock := by
      rcases chain_ok hcur₁ hchain with ⟨rfl, -⟩ | ⟨-, rfl⟩ <;> rfl
    obtain ⟨-, hf, -⟩ := h₂.mapped target a hm'
    have hnames : cache₂.Names block.entry (codeAt a) := ⟨a, block, hblock, hf, rfl, rfl⟩
    exact ⟨⟨m', objs', h₂.setBlock hcur₂ rfl (.inl hnames), fun _ => ⟨a, hm', rfl⟩⟩,
      hff₂.trans hff⟩

/-- **A new block cannot be had**: compiling it fails, or the dict would have to grow to enter it,
and cannot. -/
def CodeCache.Refuses (cache : CodeCache) (env : Env) (target : Word) (e : Fault) : Prop :=
  compileCodeBlock env target cache.codeBlocks = .error e ∨
    ∃ pages a block, compileCodeBlock env target cache.codeBlocks = .ok (pages, a, block) ∧
      dictInsert cache.cacheDict target a = .error .sizeWrapped ∧ e = .sizeWrapped

/-- A search fails only where there is no block, and compiling one or entering it does. -/
theorem CodeCache.Ok.findOrCompile_error (h : cache.Ok m objs) {env : Env} {target : Word}
    {e : Fault} (herr : Compiler.findOrCompile env target cache = .error e) :
    m target = none ∧ cache.Refuses env target e := by
  unfold Compiler.findOrCompile at herr
  rw [dictGet_spec h.dict target] at herr
  simp only [bind, Except.bind] at herr
  split_ifs at herr with h0
  have hm : m target = none := by
    cases hm : m target with
    | none => rfl
    | some x =>
      rw [hm, not_not] at h0
      exact absurd h0 (h.mapped target x hm).1
  refine ⟨hm, ?_⟩
  rcases bind_eq_error.mp herr with hcomp | ⟨⟨pages', a, block⟩, hcomp, herr⟩
  · exact .inl hcomp
  · obtain ⟨ptr, sz, hnew⟩ := compileCodeBlock_ok hcomp
    rw [hnew.entry] at herr
    obtain ⟨ht0, ht1⟩ := isTarget_of_notNull hnew.notNull
    rcases bind_eq_error.mp herr with hins | ⟨dict, -, herr⟩
    · rcases dictInsert_spec h.dict ht0 ht1 a with he | ⟨d, hd, -⟩
      · rw [he] at hins
        cases hins
        exact .inr ⟨pages', a, block, hcomp, he, rfl⟩
      · rw [hd] at hins
        cases hins
    · cases herr

/-- **A dispatch fails** only where there is no block, and compiling one or entering it
does. -/
theorem CodeCache.Ok.doRealBranch_error (h : cache.Ok m objs) {image : Image} {env : Env}
    (hfresh : env.Fresh cache) {target : Word} (hsig : ¬ image.isSigreturn target)
    {current : CodeBlock} (hcur : cache.blocks cache.currentBlock = some current)
    {e : Fault} (herr : Compiler.doRealBranch image env target cache = .error e) :
    m target = none ∧ cache.Refuses env target e := by
  unfold Compiler.doRealBranch at herr
  rw [CodeCache.getBlock_eq_ok.mpr hcur] at herr
  simp only [bind, Except.bind] at herr
  rw [if_neg hsig] at herr
  split_ifs at herr
  cases hfind : Compiler.findOrCompile env target cache with
  | error e' =>
    rw [doCompile, hfind] at herr
    cases herr
    exact h.findOrCompile_error hfind
  | ok found =>
    -- from here on nothing fails: the blocks that are read are there
    exfalso
    obtain ⟨cache₁, a⟩ := found
    obtain ⟨⟨m', objs', h₁, hm'⟩, hcb, -, hold⟩ := h.findOrCompile hfresh hfind
    obtain ⟨-, -, block, hblock, -⟩ := h₁.mapped target a hm'
    have hcur₁ : cache₁.blocks cache₁.currentBlock = some current := by
      rw [hcb]
      exact hold _ _ hcur
    obtain ⟨cache₂, hchain, hcur₂, hblock₂⟩ := exists_chain hcur₁ ⟨block, hblock⟩
    obtain ⟨current₂, hcur₂⟩ := hcur₂
    obtain ⟨block₂, hblock₂⟩ := hblock₂
    simp only [doCompile, hfind, bind, Except.bind, hchain, CodeCache.getBlock_eq_ok.mpr hcur₂,
      CodeCache.getBlock_eq_ok.mpr hblock₂] at herr
    cases herr

end Invariant

/-! ### Runs of dispatches -/

/-- One call of `do_real_branch`. -/
structure Call where
  env : Env
  /-- The block that is current before it. -/
  current : Word
  /-- The target requested. -/
  target : Word

/-- The call, with the new `tpd->target`. -/
def Call.run (image : Image) (cache : CodeCache) (call : Call) : Except Fault (CodeCache × Word) :=
  doRealBranch image call.env call.target { cache with currentBlock := call.current }

/-- What is asked of a call. -/
structure Call.Ok (image : Image) (cache : CodeCache) (call : Call) : Prop where
  /-- The current block is any block of the cache, or the first fate block. -/
  current : (cache.blocks call.current).isSome
  /-- The target is neither `0` nor the dummy key. -/
  target : IsTarget call.target
  /-- Nor a `sigreturn` wrapper. -/
  branch : ¬ image.isSigreturn call.target
  /-- New pages are new. -/
  fresh : call.env.Fresh cache

/-- The caches that calls lead to from `init_code_cache` on. -/
inductive Dispatched (image : Image) (fate : Word) : CodeCache → Prop
  | init : Dispatched image fate (initCodeCache fate)
  | call {cache cache' : CodeCache} {call : Call} {k : Word} : Dispatched image fate cache →
      call.Ok image cache → call.run image cache = .ok (cache', k) → Dispatched image fate cache'

/-- A block compiled for a target. -/
def CodeCache.Compiled (cache : CodeCache) (a target : Word) : Prop :=
  a ≠ cache.firstFateBlock ∧ ∃ block, cache.blocks a = some block ∧ block.entry = target

theorem CodeCache.Ok.compiled_iff {cache : CodeCache} {m : Word → Option Word} {objs : List (ℕ × ℕ)}
    (h : cache.Ok m objs) {a target : Word} : cache.Compiled a target ↔ m target = some a := by
  constructor
  · rintro ⟨hf, block, hb, rfl⟩
    exact (h.listed a block hb hf).1
  · intro hm
    exact (h.mapped target a hm).2

/-- Whatever block is current, the cache is in order. -/
theorem CodeCache.Ok.setCurrent {cache : CodeCache} {m : Word → Option Word} {objs : List (ℕ × ℕ)}
    (h : cache.Ok m objs) (current : Word) : { cache with currentBlock := current }.Ok m objs :=
  ⟨h.dict, h.pages, h.fate, h.mapped, h.listed, h.last, h.once⟩

/-- A call that returns keeps the cache in order and answers by the map. -/
theorem CodeCache.Ok.run {cache cache' : CodeCache} {m : Word → Option Word} {objs : List (ℕ × ℕ)}
    (h : cache.Ok m objs) {image : Image} {call : Call} (hcall : call.Ok image cache) {k : Word}
    (hrun : call.run image cache = .ok (cache', k)) :
    (∃ m' objs', cache'.Ok m' objs' ∧ ∃ a, m' call.target = some a ∧ k = codeAt a) ∧
      cache'.firstFateBlock = cache.firstFateBlock := by
  obtain ⟨current, hcur⟩ := Option.isSome_iff_exists.mp hcall.current
  obtain ⟨⟨m', objs', hok', hans⟩, hfate⟩ :=
    (h.setCurrent call.current).doRealBranch hcall.fresh hcall.branch hcur hrun
  exact ⟨⟨m', objs', hok', hans hcall.target.1⟩, hfate⟩

theorem Dispatched.ok {image : Image} {fate : Word} {cache : CodeCache}
    (h : Dispatched image fate cache) :
    (∃ m objs, cache.Ok m objs) ∧ cache.firstFateBlock = fate := by
  induction h with
  | init => exact ⟨⟨_, _, ok_init fate⟩, rfl⟩
  | call _ hcall hrun ih =>
    obtain ⟨⟨m, objs, hok⟩, hfate⟩ := ih
    obtain ⟨⟨m', objs', hok', -⟩, hfate'⟩ := hok.run hcall hrun
    exact ⟨⟨m', objs', hok'⟩, hfate'.trans hfate⟩

/-- **Dispatch is correct** in every cache that calls lead to. A call that returns leaves
the code of the one block compiled for its target; one that fails had no block for its
target and could not compile one or enter it. No target is compiled twice. The last
target of a compiled block is the entry and the code of one compiled block. -/
theorem dispatch_correct {image : Image} {fate : Word} {cache : CodeCache}
    (h : Dispatched image fate cache) :
    (∀ call : Call, call.Ok image cache →
      (∀ cache' k, call.run image cache = .ok (cache', k) →
        ∃ a, (∀ a', cache'.Compiled a' call.target ↔ a' = a) ∧ k = codeAt a) ∧
      ∀ e, call.run image cache = .error e →
        (¬ ∃ a, cache.Compiled a call.target) ∧ cache.Refuses call.env call.target e) ∧
    cache.compiled.Nodup ∧
    ∀ a block, cache.blocks a = some block → a ≠ fate →
      ∃ a', cache.Compiled a' block.lastTargetEntry ∧ block.lastTargetCode = codeAt a' := by
  obtain ⟨⟨m, objs, hok⟩, rfl⟩ := h.ok
  refine ⟨fun call hcall => ⟨fun cache' k hrun => ?_, fun e herr => ?_⟩, hok.once.1,
    fun a block hb hf => ?_⟩
  · obtain ⟨⟨m', objs', hok', a, hm', hk⟩, -⟩ := hok.run hcall hrun
    refine ⟨a, fun a' => ?_, hk⟩
    rw [hok'.compiled_iff, hm', Option.some_inj, eq_comm]
  · obtain ⟨current, hcur⟩ := Option.isSome_iff_exists.mp hcall.current
    obtain ⟨hnone, hwhy⟩ :=
      (hok.setCurrent call.current).doRealBranch_error hcall.fresh hcall.branch hcur herr
    refine ⟨fun ⟨a, ha⟩ => ?_, hwhy⟩
    rw [hok.compiled_iff, hnone] at ha
    cases ha
  · rcases hok.last a block hb with ⟨a', b', hb', hf', he', hk'⟩ | ⟨ha, -⟩
    · exact ⟨a', ⟨hf', b', hb', he'⟩, hk'⟩
    · exact absurd ha hf

/-- Pages at `0x10000`, as many as fit. -/
def pagesAt64K : AllocPages := fun nr =>
  if h : 0x10000 + nr * pageSize ≤ userEnd then some ⟨0x10000, by decide, h⟩ else none

/-- At `0x2000`, `jmp` to `0x2002`; there, `ret`. -/
def jmpRet : Env := ⟨fun a => codeOf [0xeb, 0x00, 0xc3] (a - 0x2000), pagesAt64K, 0⟩

/-- The two dispatches of the program, from an empty cache: the second from the block of the first,
in whose pages there is room. -/
def jmpRetCalls : Call × Call :=
  (⟨jmpRet, 0x500, 0x2000⟩, ⟨{ jmpRet with allocPages := fun _ => none }, 0x1000c, 0x2002⟩)

/-- The second leaves the code of the one block of its target, and no target is compiled twice. -/
theorem dispatch_correct_jmp_ret :
    ∃ cache cache' k, Dispatched ⟨0x9000, 0x9010⟩ 0x500 cache ∧
      jmpRetCalls.2.run ⟨0x9000, 0x9010⟩ cache = .ok (cache', k) ∧ k = 0x10061 ∧
      (∃ a, (∀ a', cache'.Compiled a' 0x2002 ↔ a' = a) ∧ k = codeAt a) ∧
      cache'.compiled = [0x2002, 0x2000] ∧ cache'.compiled.Nodup := by
  have hfirst : jmpRetCalls.1.Ok ⟨0x9000, 0x9010⟩ (initCodeCache 0x500) := by
    refine ⟨rfl, by decide, by decide, fun _ _ _ _ h => (List.not_mem_nil h).elim, ?_⟩
    rintro nr start hstart a rfl
    unfold jmpRetCalls jmpRet pagesAt64K at hstart
    simp only at hstart
    split_ifs at hstart
    cases hstart
    exact .inr (show 0x500 + 1 ≤ 0x10000 by decide)
  obtain ⟨⟨⟨cache, k₁⟩, cache', k⟩, hboth, hres⟩ := exists_ok
    (x := do
      let r ← jmpRetCalls.1.run ⟨0x9000, 0x9010⟩ (initCodeCache 0x500)
      let r' ← jmpRetCalls.2.run ⟨0x9000, 0x9010⟩ r.1
      .ok (r, r'))
    (fun r => ((r.1.1.blocks 0x1000c).isSome, r.2.2, r.2.1.compiled))
    (b := (true, 0x10061, [0x2002, 0x2000])) (by decide +kernel)
  obtain ⟨r, hrun₁, hboth⟩ := bind_eq_ok.mp hboth
  obtain ⟨r', hrun₂, hboth⟩ := bind_eq_ok.mp hboth
  cases hboth
  obtain ⟨hblock, hk, hcompiled⟩ : (cache.blocks 0x1000c).isSome = true ∧ k = 0x10061 ∧
      cache'.compiled = [0x2002, 0x2000] := by
    simpa using hres
  have hcache : Dispatched ⟨0x9000, 0x9010⟩ 0x500 cache := .call .init hfirst hrun₁
  have hsecond : jmpRetCalls.2.Ok ⟨0x9000, 0x9010⟩ cache :=
    ⟨hblock, by decide, by decide, fun _ _ h => (Option.some_ne_none _ h.symm).elim,
      fun _ _ h => (Option.some_ne_none _ h.symm).elim⟩
  exact ⟨cache, cache', k, hcache, hrun₂, hk, ((dispatch_correct hcache).1 _ hsecond).1 cache' k hrun₂,
    hcompiled, (dispatch_correct (.call hcache hsecond hrun₂)).2.1⟩

end Snitchaser.Compiler
