import Snitchaser.Compiler.Recompile
import Snitchaser.Signal.Unwind

/-!
# Chained jumps and signals

`recompile_ud` trusts that `tpd->target` is where the current block goes. But a dispatch
may also come from a signal that was delivered while the block ran, and a block that
ends in `int3` keeps the exit type of a direct jump.

## The model

`Move` is what a thread may do to the code cache: dispatch to any target, come to the
head of any block, take a signal, return from a handler. `Reaches` are its runs from an
empty cache on, with the states passed and the moves made there.

## What is proved

`reaches_chainedRight_iff`: in a run, every block that was written over jumps to the block of
its own static target, at every state, **exactly when** no dispatch that writes over the
current block goes anywhere else. `signal_chains_handler` is a run after which a block
that ends in `jmp` jumps to a signal handler.
-/

namespace Snitchaser.Signal

open Compiler Interp

/-- What a thread may do. -/
inductive Move where
  /-- A block is left for a target. -/
  | dispatch (env : Env) (target : Word)
  /-- Control comes to the head of a block, which makes it the current one. -/
  | enter (block : Word)
  /-- A signal is delivered, and the handler dispatched to. -/
  | signal (env : Env) (d : Delivery)
  /-- The handler returns to the wrapper of `rt_sigreturn`, or of `sigreturn`. -/
  | sigreturn (env : Env) (rt : Bool)

/-- `real_branch`: `do_real_branch` with a target. -/
def Thread.dispatch (image : Image) (s : Thread) (env : Env) (target : Word) :
    Except Fault Thread := do
  let (cache, k) ← doRealBranch image env target s.tpd.codeCache
  .ok { s with tpd := { s.tpd with target := k, codeCache := cache } }

/-- The head of a block: `movl $block, %fs:current_block`. -/
def Thread.enter (s : Thread) (block : Word) : Except Fault Thread :=
  match s.tpd.codeCache.blocks block with
  | none => .error .segfault
  | some _ =>
    .ok { s with tpd := { s.tpd with codeCache := { s.tpd.codeCache with currentBlock := block } } }

/-- The wrapper a handler returns to. -/
def Image.wrapper (image : Image) (rt : Bool) : Word :=
  if rt then image.archWrapperRtSigreturn else image.archWrapperSigreturn

/-- One move. -/
def move (image : Image) (s : Thread) : Move → Except Fault Thread
  | .dispatch env target => s.dispatch image env target
  | .enter block => s.enter block
  | .signal env d => (s.deliver d).dispatch image env (s.deliver d).tpd.target
  | .sigreturn env rt => do
    let s ← s.dispatch image env (Image.wrapper image rt)
    step s .sigreturn

/-- The dispatch a move makes. -/
def Move.dispatched (image : Image) (s : Thread) : Move → Option (Env × Word)
  | .dispatch env target => some (env, target)
  | .enter _ => none
  | .signal env d => some (env, (s.tpd.sigactions d.num).saHandler)
  | .sigreturn env rt => some (env, Image.wrapper image rt)

/-- New pages are new. -/
def Move.Fresh (image : Image) (s : Thread) (mv : Move) : Prop :=
  ∀ env target, mv.dispatched image s = some (env, target) → env.Fresh s.tpd.codeCache

/-- **The condition on a move**: if its dispatch writes over the current block, that is
because the block ends in a direct jump or call, and the dispatch goes to its target. -/
def Move.Chains (image : Image) (s : Thread) (mv : Move) : Prop :=
  ∀ env target, mv.dispatched image s = some (env, target) → ¬ image.isSigreturn target →
    ∀ current, s.tpd.codeCache.blocks s.tpd.codeCache.currentBlock = some current →
      Recompiles current target → current.EndsIn target

/-- The runs of a thread: the moves made with the states they were made in, latest
first, and the state reached. -/
inductive Reaches (image : Image) (fate : Word) : List (Thread × Move) → Thread → Prop
  | start (tpd : Tpd) (h : tpd.codeCache = initCodeCache fate) :
      Reaches image fate [] ⟨tpd, [], none⟩
  | move {past : List (Thread × Move)} {s s' : Thread} {mv : Move} :
      Reaches image fate past s → mv.Fresh image s → move image s mv = .ok s' →
      Reaches image fate ((s, mv) :: past) s'

/-- The block a frame saves as the current one. -/
def SigFrame.currentBlock (frame : SigFrame) : Word := joinHalves frame.sc.ss frame.sc.ssh

/-- **The thread is in order**: its cache is, the current block and those saved in frames
are blocks. -/
structure Thread.Inv (s : Thread) : Prop where
  ok : ∃ m objs, s.tpd.codeCache.Ok m objs
  exits : s.tpd.codeCache.Exits
  current : ∃ block, s.tpd.codeCache.blocks s.tpd.codeCache.currentBlock = some block
  frames : ∀ frame ∈ s.frames, ∃ block, s.tpd.codeCache.blocks frame.currentBlock = some block

theorem inv_start {tpd : Tpd} {fate : Word} (h : tpd.codeCache = initCodeCache fate) :
    Thread.Inv ⟨tpd, [], none⟩ := by
  refine ⟨?_, ?_, ?_, fun _ hf => (List.not_mem_nil hf).elim⟩
  · exact ⟨_, _, h ▸ ok_init fate⟩
  · exact h ▸ exits_init fate
  · simp only [h]
    exact ⟨_, if_pos rfl⟩

/-! ### One move -/

/-- A dispatch to a `sigreturn` wrapper leaves the cache alone. -/
theorem doRealBranch_sigreturn {image : Image} {env : Env} {target k : Word}
    {cache cache' : CodeCache} (hsig : image.isSigreturn target)
    (h : doRealBranch image env target cache = .ok (cache', k)) : cache' = cache := by
  unfold doRealBranch at h
  obtain ⟨current, -, h⟩ := bind_eq_ok.mp h
  rw [if_pos hsig] at h
  obtain ⟨_, -, h⟩ := bind_eq_ok.mp h
  cases h
  rfl

section Dispatch

variable {image : Image} {s s' : Thread} {env : Env} {target : Word}

theorem dispatch_ok (h : s.dispatch image env target = .ok s') :
    ∃ k, doRealBranch image env target s.tpd.codeCache = .ok (s'.tpd.codeCache, k) ∧
      s'.frames = s.frames := by
  unfold Thread.dispatch at h
  obtain ⟨⟨cache, k⟩, hrun, h⟩ := bind_eq_ok.mp h
  cases h
  exact ⟨k, hrun, rfl⟩

/-- A dispatch keeps the thread in order. -/
theorem Thread.Inv.dispatch (hinv : s.Inv) (hfresh : env.Fresh s.tpd.codeCache)
    (h : s.dispatch image env target = .ok s') : s'.Inv := by
  obtain ⟨k, hrun, hframes⟩ := dispatch_ok h
  obtain ⟨m, objs, hok⟩ := hinv.ok
  obtain ⟨current, hcur⟩ := hinv.current
  by_cases hsig : image.isSigreturn target
  · have hcache := doRealBranch_sigreturn hsig hrun
    refine ⟨?_, ?_, ?_, ?_⟩
    · rw [hcache]
      exact hinv.ok
    · rw [hcache]
      exact hinv.exits
    · rw [hcache]
      exact hinv.current
    · rw [hcache, hframes]
      exact hinv.frames
  · have heff := doRealBranch_effect hok hinv.exits hfresh hsig hcur hrun
    obtain ⟨⟨m', objs', hok', -⟩, -⟩ := hok.doRealBranch hfresh hsig hcur hrun
    refine ⟨⟨m', objs', hok'⟩, heff.exits, ?_, ?_⟩
    · rw [heff.current_eq]
      obtain ⟨b', hb', -⟩ := heff.kept _ _ hcur
      exact ⟨b', hb'⟩
    · intro frame hframe
      rw [hframes] at hframe
      obtain ⟨b, hb⟩ := hinv.frames frame hframe
      obtain ⟨b', hb', -⟩ := heff.kept _ _ hb
      exact ⟨b', hb'⟩

/-- When a dispatch keeps the jumps right. -/
theorem chainedRight_dispatch_iff (hinv : s.Inv) (hfresh : env.Fresh s.tpd.codeCache)
    (hright : s.tpd.codeCache.ChainedRight) (h : s.dispatch image env target = .ok s') :
    s'.tpd.codeCache.ChainedRight ↔ (¬ image.isSigreturn target →
      ∀ current, s.tpd.codeCache.blocks s.tpd.codeCache.currentBlock = some current →
        Recompiles current target → current.EndsIn target) := by
  obtain ⟨k, hrun, -⟩ := dispatch_ok h
  obtain ⟨m, objs, hok⟩ := hinv.ok
  obtain ⟨current, hcur⟩ := hinv.current
  by_cases hsig : image.isSigreturn target
  · rw [doRealBranch_sigreturn hsig hrun]
    exact ⟨fun _ hno => absurd hsig hno, fun _ => hright⟩
  · rw [(doRealBranch_effect hok hinv.exits hfresh hsig hcur hrun).chainedRight_iff hright]
    constructor
    · intro hends _ c hc
      rw [hcur] at hc
      cases hc
      exact hends
    · intro hends
      exact hends hsig current hcur

end Dispatch

/-- A thread whose current block changes to another block stays in order. -/
theorem Thread.Inv.setCurrent {s s' : Thread} (hinv : s.Inv) {block : Word}
    (hblock : ∃ b, s.tpd.codeCache.blocks block = some b)
    (hcache : s'.tpd.codeCache = { s.tpd.codeCache with currentBlock := block })
    (hframes : ∀ frame ∈ s'.frames, frame ∈ s.frames) : s'.Inv := by
  obtain ⟨m, objs, hok⟩ := hinv.ok
  refine ⟨⟨m, objs, hcache ▸ hok.setCurrent block⟩, ?_, ?_, ?_⟩
  · rw [hcache]
    exact ⟨hinv.exits.fate, hinv.exits.compiled⟩
  · rw [hcache]
    exact hblock
  · intro frame hframe
    rw [hcache]
    exact hinv.frames frame (hframes frame hframe)

theorem chainedRight_setCurrent {cache cache' : CodeCache} {block : Word}
    (h : cache' = { cache with currentBlock := block }) :
    cache'.ChainedRight ↔ cache.ChainedRight := by
  subst h
  exact Iff.rfl

theorem enter_ok {s s' : Thread} {block : Word} (h : s.enter block = .ok s') :
    (∃ b, s.tpd.codeCache.blocks block = some b) ∧ s'.frames = s.frames ∧
      s'.tpd.codeCache = { s.tpd.codeCache with currentBlock := block } := by
  unfold Thread.enter at h
  split at h
  · cases h
  · rename_i b hb
    cases h
    exact ⟨⟨b, hb⟩, rfl, rfl⟩

theorem step_sigreturn_ok {s s' : Thread} (h : step s .sigreturn = .ok s') :
    ∃ frame, s.frames = frame :: s'.frames ∧
      s'.tpd.codeCache = { s.tpd.codeCache with currentBlock := frame.currentBlock } := by
  simp only [step] at h
  cases hframes : s.frames with
  | nil =>
    rw [hframes] at h
    cases h
  | cons frame frames =>
    rw [hframes] at h
    obtain ⟨⟨tpd, frame', log⟩, hret, h⟩ := bind_eq_ok.mp h
    cases h
    unfold commonWrapperSigreturn at hret
    obtain ⟨nr, -, hret⟩ := bind_eq_ok.mp hret
    cases hret
    exact ⟨frame, rfl, rfl⟩

theorem packedFrame_currentBlock (d : Delivery) (tpd : Tpd) :
    (packedFrame d tpd).currentBlock = tpd.codeCache.currentBlock := by
  unfold SigFrame.currentBlock packedFrame
  exact joinHalves_halves _

/-- A delivery keeps the thread in order: the block saved is the current one. -/
theorem Thread.Inv.deliver {s : Thread} (hinv : s.Inv) (d : Delivery) : (s.deliver d).Inv := by
  refine ⟨hinv.ok, hinv.exits, hinv.current, ?_⟩
  intro frame hframe
  rcases List.mem_cons.mp hframe with hnew | hframe
  · rw [hnew, show (signalHandler d s.tpd).2.1 = packedFrame d s.tpd from rfl,
      packedFrame_currentBlock]
    exact hinv.current
  · exact hinv.frames frame hframe

theorem isSigreturn_wrapper (image : Image) (rt : Bool) :
    image.isSigreturn (Image.wrapper image rt) := by
  cases rt
  · exact .inr rfl
  · exact .inl rfl

section Move

variable {image : Image} {s s' : Thread} {mv : Move}

/-- A move keeps the thread in order. -/
theorem Thread.Inv.move (hinv : s.Inv) (hfresh : mv.Fresh image s)
    (h : Signal.move image s mv = .ok s') : s'.Inv := by
  cases mv with
  | dispatch env target => exact hinv.dispatch (hfresh env target rfl) h
  | enter block =>
    obtain ⟨hblock, hframes, hcache⟩ := enter_ok h
    exact hinv.setCurrent hblock hcache fun frame hframe => hframes ▸ hframe
  | signal env d => exact (hinv.deliver d).dispatch (hfresh env _ rfl) h
  | sigreturn env rt =>
    obtain ⟨s₁, hs₁, h⟩ := bind_eq_ok.mp h
    have hinv₁ := hinv.dispatch (hfresh env _ rfl) hs₁
    obtain ⟨frame, hframes, hcache⟩ := step_sigreturn_ok h
    refine hinv₁.setCurrent (hinv₁.frames frame ?_) hcache fun f hf => ?_
    · rw [hframes]
      exact List.mem_cons_self
    · rw [hframes]
      exact List.mem_cons_of_mem _ hf

theorem Move.chains_iff {env : Env} {target : Word} (h : mv.dispatched image s = some (env, target)) :
    mv.Chains image s ↔ (¬ image.isSigreturn target →
      ∀ current, s.tpd.codeCache.blocks s.tpd.codeCache.currentBlock = some current →
        Recompiles current target → current.EndsIn target) := by
  unfold Move.Chains
  constructor
  · intro hall
    exact hall env target h
  · intro hone env' target' h'
    rw [h] at h'
    cases h'
    exact hone

/-- **A move keeps the jumps right exactly when it meets the condition.** -/
theorem chainedRight_move_iff (hinv : s.Inv) (hfresh : mv.Fresh image s)
    (hright : s.tpd.codeCache.ChainedRight) (h : Signal.move image s mv = .ok s') :
    s'.tpd.codeCache.ChainedRight ↔ mv.Chains image s := by
  cases mv with
  | dispatch env target =>
    rw [Move.chains_iff (show Move.dispatched image s _ = some (env, target) from rfl)]
    exact chainedRight_dispatch_iff hinv (hfresh env target rfl) hright h
  | enter block =>
    obtain ⟨-, -, hcache⟩ := enter_ok h
    rw [chainedRight_setCurrent hcache]
    exact ⟨fun _ env target hd => (by cases hd), fun _ => hright⟩
  | signal env d =>
    rw [Move.chains_iff (show Move.dispatched image s _ =
      some (env, (s.tpd.sigactions d.num).saHandler) from rfl)]
    have hstep := chainedRight_dispatch_iff (hinv.deliver d) (hfresh env _ rfl) hright h
    exact hstep
  | sigreturn env rt =>
    have hsig := isSigreturn_wrapper image rt
    obtain ⟨s₁, hs₁, h⟩ := bind_eq_ok.mp h
    obtain ⟨frame, -, hcache⟩ := step_sigreturn_ok h
    rw [chainedRight_setCurrent hcache,
      chainedRight_dispatch_iff hinv (hfresh env _ rfl) hright hs₁,
      Move.chains_iff (show Move.dispatched image s _ = some (env, Image.wrapper image rt) from rfl)]

end Move

/-! ### Runs -/

theorem Reaches.inv {image : Image} {fate : Word} {past : List (Thread × Move)} {s : Thread}
    (h : Reaches image fate past s) : s.Inv := by
  induction h with
  | start tpd h => exact inv_start h
  | move _ hfresh hmove ih => exact ih.move hfresh hmove

/-- **Chained direct jumps lead to the block's own static target**, in every state a run
passes and in the one it reaches, exactly when all its moves meet the condition: a
dispatch that writes over the current block finds one that ends in a direct jump or
call, and goes to the target of that. -/
theorem reaches_chainedRight_iff {image : Image} {fate : Word} {past : List (Thread × Move)} {s : Thread}
    (h : Reaches image fate past s) :
    ((∀ p ∈ past, p.1.tpd.codeCache.ChainedRight) ∧ s.tpd.codeCache.ChainedRight) ↔
      ∀ p ∈ past, p.2.Chains image p.1 := by
  induction h with
  | start tpd h =>
    have hinit : tpd.codeCache.ChainedRight := h ▸ chainedRight_init fate
    simp [hinit]
  | move hreach hfresh hmove ih =>
    simp only [List.forall_mem_cons]
    constructor
    · intro hall
      obtain ⟨⟨hs, hpast⟩, hs'⟩ := hall
      exact ⟨(chainedRight_move_iff hreach.inv hfresh hs hmove).mp hs', ih.mp ⟨hpast, hs⟩⟩
    · intro hall
      obtain ⟨hmv, hpast⟩ := hall
      obtain ⟨hall, hs⟩ := ih.mpr hpast
      exact ⟨⟨hs, hall⟩, (chainedRight_move_iff hreach.inv hfresh hs hmove).mpr hmv⟩

/-! ### Two runs -/

/-- At `0x2000`, `jmp` to `0x2010`; everywhere else, `ret`. -/
def jmpAhead (allocPages : AllocPages) : Env :=
  ⟨fun a => if a = 0x2000 then 0xeb else if a = 0x2001 then 0x0e else 0xc3, allocPages, 0⟩

/-- No pages are fresh pages. -/
theorem fresh_jmpAhead (cache : CodeCache) : (jmpAhead fun _ => none).Fresh cache :=
  ⟨fun _ _ h => (by cases h), fun _ _ h => (by cases h)⟩

/-- A thread that has run nothing yet, with a handler at `0x3000`. -/
def handlerAt3000 : Thread where
  tpd :=
    { target := 0
      oldStackTop := 0
      codeCache := initCodeCache 0x500
      unblockSigmask := ⟨0, 0⟩
      sigactions := fun _ => ⟨0x3000, ⟨0, 0⟩⟩
      currentSyscallNr := none }
  frames := []
  resumed := none

/-- The thread goes to `0x2000`, enters the block compiled for it, and makes one more
move there. -/
def jmpRun (last : Move) : Except Fault (Thread × Thread × Thread) := do
  let s₁ ← move ⟨0x9000, 0x9010⟩ handlerAt3000 (.dispatch (jmpAhead pagesAt64K) 0x2000)
  let s₂ ← move ⟨0x9000, 0x9010⟩ s₁ (.enter 0x1000c)
  let s₃ ← move ⟨0x9000, 0x9010⟩ s₂ last
  .ok (s₁, s₂, s₃)

/-- A block's entry, its static target and where it jumps to. -/
structure Links where
  entry : Word
  target : Option Word
  jumps : List Word
deriving DecidableEq

/-- The links of the block at an address. -/
def Thread.linksAt (s : Thread) (a : Word) : Option Links :=
  (s.tpd.codeCache.blocks a).map fun block =>
    ⟨block.entry, block.branch.bind Branch.staticTarget, block.jumps⟩

theorem Thread.linksAt_eq {s : Thread} {a : Word} {links : Links} (h : s.linksAt a = some links) :
    ∃ block, s.tpd.codeCache.blocks a = some block ∧ block.entry = links.entry ∧
      (∀ t, block.EndsIn t ↔ links.target = some t) ∧ block.jumps = links.jumps := by
  obtain ⟨block, hblock, heq⟩ := Option.map_eq_some_iff.mp h
  cases heq
  refine ⟨block, hblock, rfl, fun t => ?_, rfl⟩
  exact Option.bind_eq_some_iff.symm

/-- Such a run is one, if the last move needs no new pages. -/
theorem reaches_jmpRun {last : Move} {s₁ s₂ s₃ : Thread} (h : jmpRun last = .ok (s₁, s₂, s₃))
    (hfresh : ∀ s, last.Fresh ⟨0x9000, 0x9010⟩ s) :
    Reaches ⟨0x9000, 0x9010⟩ 0x500 [(s₂, last), (s₁, .enter 0x1000c),
      (handlerAt3000, .dispatch (jmpAhead pagesAt64K) 0x2000)] s₃ := by
  obtain ⟨_, h₁, h⟩ := bind_eq_ok.mp h
  obtain ⟨_, h₂, h⟩ := bind_eq_ok.mp h
  obtain ⟨_, h₃, h⟩ := bind_eq_ok.mp h
  cases h
  refine .move (.move (.move (.start _ rfl) ?_ h₁) ?_ h₂) (hfresh s₂) h₃
  · intro env target hd
    cases hd
    refine ⟨fun _ _ _ _ h => (List.not_mem_nil h).elim, ?_⟩
    rintro nr start hstart a rfl
    unfold jmpAhead pagesAt64K at hstart
    simp only at hstart
    split_ifs at hstart
    cases hstart
    exact .inr (show 0x500 + 1 ≤ 0x10000 by decide)
  · intro env target hd
    cases hd

/-- The `jmp` is taken: the block is chained to the one of its own target. -/
theorem reaches_chainedRight_jmp_taken :
    ∃ past s, Reaches ⟨0x9000, 0x9010⟩ 0x500 past s ∧
      s.linksAt 0x1000c = some ⟨0x2000, some 0x2010, [codeAt 0x10045]⟩ ∧
      (∀ p ∈ past, p.1.tpd.codeCache.ChainedRight) ∧ s.tpd.codeCache.ChainedRight := by
  obtain ⟨⟨s₁, s₂, s₃⟩, hrun, hs⟩ := exists_ok
    (x := jmpRun (.dispatch (jmpAhead fun _ => none) 0x2010))
    (fun s => (s.2.1.tpd.codeCache.currentBlock, s.2.1.linksAt 0x1000c, s.2.2.linksAt 0x1000c))
    (b := (0x1000c, some ⟨0x2000, some 0x2010, []⟩,
      some ⟨0x2000, some 0x2010, [codeAt 0x10045]⟩)) (by decide +kernel)
  have hreach := reaches_jmpRun hrun fun s env target hd => by
    cases hd
    exact fresh_jmpAhead _
  obtain ⟨hcur, hs⟩ := Prod.mk.inj hs
  obtain ⟨hjmp, hchained⟩ := Prod.mk.inj hs
  refine ⟨_, s₃, hreach, hchained, (reaches_chainedRight_iff hreach).mpr ?_⟩
  simp only [List.forall_mem_cons, List.not_mem_nil, false_implies, implies_true, and_true]
  refine ⟨?_, ?_, ?_⟩
  · intro env target hd _ current hcurrent _
    cases hd
    obtain ⟨block, hblock, -, hends, -⟩ := Thread.linksAt_eq hjmp
    rw [hcur, hblock] at hcurrent
    cases hcurrent
    exact (hends _).mpr rfl
  · intro env target hd
    cases hd
  · -- the first fate block is never written over
    intro env target hd _ current hcurrent hr
    cases hcurrent
    cases hr.1

/-- **The counterexample**: a signal that is delivered in a block that ends in `jmp` to
`0x2010` chains it to the handler at `0x3000`. -/
theorem signal_chains_handler :
    ∃ past s, Reaches ⟨0x9000, 0x9010⟩ 0x500 past s ∧
      s.linksAt 0x1000c = some ⟨0x2000, some 0x2010, [codeAt 0x10045]⟩ ∧
      s.linksAt 0x10045 = some ⟨0x3000, none, []⟩ ∧ ¬ s.tpd.codeCache.ChainedRight := by
  obtain ⟨⟨s₁, s₂, s₃⟩, hrun, hs⟩ := exists_ok
    (x := jmpRun (.signal (jmpAhead fun _ => none) someDelivery))
    (fun s => (s.2.2.linksAt 0x1000c, s.2.2.linksAt 0x10045))
    (b := (some ⟨0x2000, some 0x2010, [codeAt 0x10045]⟩, some ⟨0x3000, none, []⟩))
    (by decide +kernel)
  have hreach := reaches_jmpRun hrun fun s env target hd => by
    cases hd
    exact fresh_jmpAhead _
  obtain ⟨hjmp, hhandler⟩ := Prod.mk.inj hs
  refine ⟨_, s₃, hreach, hjmp, hhandler, ?_⟩
  intro hright
  obtain ⟨block, hblock, -, hends, hjumps⟩ := Thread.linksAt_eq hjmp
  obtain ⟨handler, hb, hentry, -⟩ := Thread.linksAt_eq hhandler
  obtain ⟨t, a, ht, ⟨-, b, hab, hbt⟩, hk⟩ :=
    hright _ block hblock (codeAt 0x10045) (by rw [hjumps]; exact List.mem_singleton_self _)
  rw [← codeAt_inj hk, hb] at hab
  cases hab
  rw [hends, ← hbt, hentry] at ht
  exact absurd ht (by decide)

end Snitchaser.Signal
