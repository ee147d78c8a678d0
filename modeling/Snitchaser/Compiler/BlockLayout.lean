import Snitchaser.Compiler.Encode
import Snitchaser.Compiler.Recompile
import Snitchaser.Compiler.Transparent

/-!
# Blocks in memory

What `compile_code_block` writes, byte by byte: the head, the bytes of the program up to
the branch, and the patch, which is taken from a buffer on the stack. The one address in
it that points into the buffer is moved, through a pointer that `compile_branch` has left.

## What is proved

`block_laid_out`: the block in memory is what `CodeBlock` says, the log phase returns
behind itself, the jump of `recompile_ud` fits the patch of a direct jump or call and
leaves what it has to do, and `get_ori_address` finds the way back.
-/

namespace Snitchaser.Compiler

open Foundation Foundation.X86 Interp Decoder

/-! ### Writing a block -/

/-- Where the immediate of `movl $imm, %fs:field` is, as `reset_movl_imm` finds it. -/
def movlImm : ℕ := 7

/-- `*log_phase_retaddr_fix`, as an offset in the buffer; none for `NULL`. -/
def Branch.retaddrPos (b : Branch) : Option ℕ :=
  match b with
  | .jcc .. | .ret | .retn _ | .callIndirect .. | .jmpIndirect _ =>
    -- `template_offset(__log_phase_template, save_return_addr)`
    some (encodedSize b.setTarget + encodedSize ((logPhaseTemplate 0).take 10) + movlImm)
  | .rdtsc _ => some (encodedSize ((rdtscTemplate 0 0).take 13) + movlImm)
  | _ => none

/-- The word at an offset is replaced. -/
def modifyWord (bytes : List Byte) (pos : ℕ) (f : Word → Word) : List Byte :=
  bytes.take pos ++ leBytes (f (leWord (bytes.drop pos))) ++ bytes.drop (pos + 4)

/-- The bytes `compile_code_block` writes to the block at `block`, whose branch starts at
`branchStart`. -/
def writeCode (off : Layout) (env : Env) (mem : Mem) (block target branchStart : Word)
    (branch : Branch) : Mem :=
  let oriSz := (branchStart - target).toNat
  let headSz := encodedSize (setCurrentBlockTemplate 0)
  let oriCodeEnd := codeAt block + BitVec.ofNat 32 (headSz + oriSz)
  let patchCode := encode off (branch.patch env.patchBuf)
  let mem := store mem (codeAt block) (encode off (setCurrentBlockTemplate 0xffffffff))
  let mem := store32 mem (codeAt block + BitVec.ofNat 32 movlImm) block
  let mem := store mem (codeAt block + BitVec.ofNat 32 headSz) (bytesFrom env.code target oriSz)
  let patchCode :=
    match branch.retaddrPos with
    | none => patchCode
    | some pos => modifyWord patchCode pos fun retaddr => oriCodeEnd + (retaddr - env.patchBuf)
  store mem oriCodeEnd patchCode

/-- The bytes `recompile_ud` writes. -/
def writeJump (mem : Mem) (branch target : Word) : Mem :=
  store32 (store mem branch [0xe9]) (branch + 1) (target - (branch + 5))

/-- `get_ori_address(blk, addr)`, the block at `blk`. -/
def getOriAddress (blk : Word) (block : CodeBlock) (addr : Word) : Word :=
  let compiledCodeStart := codeAt blk + 11
  let compiledCodeEnd := block.oriCodeEnd
  if addr ≤ compiledCodeEnd ∧ compiledCodeStart ≤ addr then
    block.entry + (addr - compiledCodeStart)
  else block.entry + (compiledCodeEnd - compiledCodeStart)

/-! ### The return address -/

theorem modifyWord_append (front back : List Byte) (w : Word) (f : Word → Word) :
    modifyWord (front ++ leBytes w ++ back) front.length f = front ++ leBytes (f w) ++ back := by
  unfold modifyWord
  have hback : (leBytes w ++ back).drop 4 = back := by
    rw [← length_leBytes w, List.drop_left]
  simp only [List.append_assoc, List.take_left, ← List.drop_drop, List.drop_left,
    leWord_leBytes_append, hback]

/-- **A patch with a log phase**: up to the end of this phase, and the rest. The return
address is the only thing in it that depends on where it stands. -/
theorem Branch.exists_logged (b : Branch) (hb : b.isLogged = true) : ∃ front back,
    b.retaddrPos = some (encodedSize front + movlImm) ∧ ∀ buf, b.patch buf =
      (front ++ [.movImmTls (buf + BitVec.ofNat 32 (encodedSize front + 18)) .checkBufferReturn,
        .jmpTls .checkLoggerBuffer]) ++ back := by
  by_cases hphases : b.hasPhases = true
  · refine ⟨b.setTarget ++ (logPhaseTemplate 0).take 10, b.takeEffect ++ realBranchPhaseTemplate, ?_, ?_⟩
    · rw [encodedSize_append]
      cases b <;> first | rfl | cases hphases
    · intro buf
      have hsize : encodedSize (logPhaseTemplate 0) = encodedSize ((logPhaseTemplate 0).take 10) + 18 := by
        decide
      rw [Branch.patch_of_hasPhases hphases, Branch.phases, logPhase, hsize, ← Nat.add_assoc,
        ← encodedSize_append]
      simp [logPhaseTemplate]
  · obtain ⟨next, rfl⟩ := Branch.eq_rdtsc hb hphases
    refine ⟨(rdtscTemplate next 0).take 13, realBranchPhaseTemplate, ?_, ?_⟩
    · rfl
    · intro buf
      rfl

theorem Branch.retaddrPos_eq_none {b : Branch} (hb : b.isLogged = false) : b.retaddrPos = none := by
  cases b <;> first | cases hb; done | rfl

theorem Branch.patch_of_not_isLogged {b : Branch} (hb : b.isLogged = false) (buf buf' : Word) :
    b.patch buf = b.patch buf' := by
  cases b <;> first | cases hb; done | rfl

/-- **The pointer finds the return address**: the bytes are those of the patch as if it had
been written in its place. -/
theorem fix_encode (off : Layout) (b : Branch) (oriCodeEnd buf : Word) :
    (match b.retaddrPos with
      | none => encode off (b.patch buf)
      | some pos => modifyWord (encode off (b.patch buf)) pos fun w => oriCodeEnd + (w - buf)) =
      encode off (b.patch oriCodeEnd) := by
  cases hb : b.isLogged with
  | false =>
    rw [Branch.retaddrPos_eq_none hb]
    show encode off (b.patch buf) = _
    rw [Branch.patch_of_not_isLogged hb buf oriCodeEnd]
  | true =>
    obtain ⟨front, back, hpos, hpatch⟩ := b.exists_logged hb
    have hbytes : ∀ buf, encode off (b.patch buf) =
        (encode off front ++ tlsOperand off 0xc7 0 .checkBufferReturn) ++
          leBytes (buf + BitVec.ofNat 32 (encodedSize front + 18)) ++
          ((Insn.jmpTls .checkLoggerBuffer).encode off ++ encode off back) := fun buf => by
      simp [hpatch, Insn.encode]
    have hlen : (encode off front ++ tlsOperand off 0xc7 0 .checkBufferReturn).length =
        encodedSize front + movlImm := by
      rw [List.length_append, length_encode, length_tlsOperand, movlImm]
    simp only [hpos]
    rw [hbytes, ← hlen, modifyWord_append, hbytes, BitVec.add_comm buf, BitVec.add_sub_cancel]

/-! ### The bytes of a block -/

theorem length_setCurrentBlock (off : Layout) (block : Word) :
    (encode off (setCurrentBlockTemplate block)).length = 11 := by
  rw [length_encode]
  rfl

/-- The head is written, then its immediate. -/
theorem store_setCurrentBlock (off : Layout) (mem : Mem) (c block : Word) :
    store32 (store mem c (encode off (setCurrentBlockTemplate 0xffffffff))) (c + BitVec.ofNat 32 movlImm)
      block = store mem c (encode off (setCurrentBlockTemplate block)) := by
  have hbytes : ∀ imm, encode off (setCurrentBlockTemplate imm) =
      tlsOperand off 0xc7 0 .currentBlock ++ leBytes imm ++ [] := fun imm => by
    simp [setCurrentBlockTemplate, Insn.encode]
  have hsame : (leBytes block).length = (leBytes 0xffffffff).length := by simp only [length_leBytes]
  have hstore := store_store_inside mem c (tlsOperand off 0xc7 0 .currentBlock) hsame [] (by simp)
  rw [length_tlsOperand] at hstore
  rw [hbytes, hbytes]
  exact hstore

/-- **A block in one piece.** -/
theorem writeCode_eq (off : Layout) (env : Env) (mem : Mem) (block target branchStart : Word)
    (branch : Branch) {oriSz : ℕ} (hori : (branchStart - target).toNat = oriSz) {oriCodeEnd : Word}
    (hend : oriCodeEnd = codeAt block + BitVec.ofNat 32 (11 + oriSz))
    (hlen : 11 + oriSz + encodedSize (branch.patch oriCodeEnd) ≤ 2 ^ 32) :
    writeCode off env mem block target branchStart branch =
      store mem (codeAt block) (encode off (setCurrentBlockTemplate block) ++
        bytesFrom env.code target oriSz ++ encode off (branch.patch oriCodeEnd)) := by
  have hhead := length_setCurrentBlock off block
  have hpatch := length_encode off (branch.patch oriCodeEnd)
  have hsize : encodedSize (setCurrentBlockTemplate 0) = 11 := rfl
  unfold writeCode
  simp only [hori, hsize, ← hend]
  rw [store_setCurrentBlock, ← hhead, store_append_right, fix_encode]
  · have hfront : (encode off (setCurrentBlockTemplate block) ++ bytesFrom env.code target oriSz).length =
        11 + oriSz := by
      rw [List.length_append, hhead, length_bytesFrom]
    have hjoin := store_append_right mem (codeAt block) _ (encode off (branch.patch oriCodeEnd))
      (by rw [List.length_append, hfront, hpatch]; exact hlen)
    rw [hfront, ← hend] at hjoin
    exact hjoin
  · rw [List.length_append, hhead, length_bytesFrom]
    omega

theorem getElem_bytesFrom (code : Code) (a : Word) (n : ℕ) {i : ℕ} (h : i < (bytesFrom code a n).length) :
    (bytesFrom code a n)[i] = code (a + BitVec.ofNat 32 i) := by
  simp [bytesFrom]

/-- Reading what was written. -/
theorem bytesFrom_store (mem : Mem) (a : Word) (front mid back : List Byte)
    (hlen : (front ++ mid ++ back).length ≤ 2 ^ 32) :
    bytesFrom (store mem a (front ++ mid ++ back)) (a + BitVec.ofNat 32 front.length) mid.length = mid := by
  refine List.ext_getElem (length_bytesFrom _ _ _) fun i hi hi' => ?_
  have hin : front.length + i < (front ++ mid ++ back).length := by
    simp only [List.length_append]
    omega
  rw [getElem_bytesFrom, BitVec.add_assoc, ← BitVec.ofNat_add, store_inside mem a hin hlen 0,
    List.getD_eq_getElem _ _ hin]
  simp [hi']

theorem bytesFrom_store_self (mem : Mem) (a : Word) (bytes : List Byte) (hlen : bytes.length ≤ 2 ^ 32) :
    bytesFrom (store mem a bytes) a bytes.length = bytes := by
  simpa using bytesFrom_store mem a [] bytes [] (by simpa using hlen)

/-- The jump in one piece. -/
theorem writeJump_eq (mem : Mem) (branch target : Word) : writeJump mem branch target =
    store mem branch (0xe9 :: leBytes (target - (branch + 5))) :=
  store_append_right mem branch [0xe9] (leBytes (target - (branch + 5))) (by simp)

/-! ### What a block is -/

/-- How many bytes of the program are in the block: those before the branch. -/
def CodeBlock.oriSz (block : CodeBlock) : ℕ := (block.exitInstAddr - block.entry).toNat

/-- **A block is laid out and fixed up**: `mem` is memory behind `compile_code_block`, which
has put the block at `a`. -/
structure LaidOut (off : Layout) (code : Code) (a : Word) (block : CodeBlock) (branch : Branch)
    (mem : Mem) : Prop where
  /-- The head names the block; the code of the program follows, and the patch. -/
  bytes : bytesFrom mem (codeAt a)
      (11 + block.oriSz + encodedSize (branch.patch block.oriCodeEnd)) =
    encode off [.movImmTls a .currentBlock] ++ bytesFrom code block.entry block.oriSz ++
      encode off (branch.patch block.oriCodeEnd)
  /-- `ori_code_end` points to the patch. -/
  oriCodeEnd : block.oriCodeEnd = codeAt a + BitVec.ofNat 32 (11 + block.oriSz)
  /-- The log phase ends with `front`, and returns behind it. -/
  retaddr : branch.isLogged = true → ∃ front ret back,
    branch.patch block.oriCodeEnd =
      (front ++ [.movImmTls ret .checkBufferReturn, .jmpTls .checkLoggerBuffer]) ++ back ∧
    ret = block.oriCodeEnd + BitVec.ofNat 32 (encodedSize
      (front ++ [.movImmTls ret .checkBufferReturn, .jmpTls .checkLoggerBuffer]))
  /-- The jump of `recompile_ud` lies inside the patch. -/
  room : branch.staticTarget.isSome = true →
    block.recompileStart = block.oriCodeEnd + BitVec.ofNat 32 branch.recompileOffset ∧
      branch.recompileOffset + 5 ≤ encodedSize (branch.patch block.oriCodeEnd)
  /-- It changes nothing else; what stands before it and the jump do what the branch does to
  the processor. -/
  recompiled : branch.staticTarget.isSome = true → ∀ t,
    bytesFrom (writeJump mem block.recompileStart t) block.oriCodeEnd (branch.recompileOffset + 5) =
        encode off (recompileUd block t).exitCode ∧
      (∀ x, 5 ≤ (x - block.recompileStart).toNat → writeJump mem block.recompileStart t x = mem x) ∧
      ∀ (env : RunEnv) (m : Machine), ∃ c dest, branch.original env m.toCpu = some (c, dest) ∧
        run env block.oriCodeEnd (recompileUd block t).exitCode 0 0 m =
          .ok ([], .jump t { m with toCpu := c })
  /-- `get_ori_address` takes the code, and the first byte of the patch, to where they come
  from. -/
  oriAddress : ∀ i ≤ block.oriSz,
    getOriAddress a block (codeAt a + BitVec.ofNat 32 (11 + i)) = block.entry + BitVec.ofNat 32 i

theorem encodedSize_fixed (code : List Insn) (oriCodeEnd buf : Word) :
    encodedSize (code.map (retaddrFix oriCodeEnd buf)) = encodedSize code := by
  have hsize : ∀ i, (retaddrFix oriCodeEnd buf i).size = i.size := fun i => by
    unfold retaddrFix
    split <;> rfl
  simp only [encodedSize, List.map_map]
  exact congrArg List.sum (List.map_congr_left fun i _ => hsize i)

/-- A patch is as long wherever it stands. -/
theorem Branch.encodedSize_patch (b : Branch) (buf buf' : Word) :
    encodedSize (b.patch buf) = encodedSize (b.patch buf') := by
  rw [← b.patch_fixed buf buf', encodedSize_fixed]

/-- What `compile_code_block` leaves in `block`, and where the block ends. -/
theorem compileCodeBlock_fields {env : Env} {target a : Word} {pages pages' : List ObjPage}
    {block : CodeBlock} (h : compileCodeBlock env target pages = .ok (pages', a, block)) :
    ∃ branch, readBranch env.code block.exitInstAddr = .ok branch ∧
      scanInsts env.code target = .ok block.exitInstAddr ∧ block.entry = target ∧
      block.oriCodeEnd = codeAt a + BitVec.ofNat 32 (11 + block.oriSz) ∧
      ExitOk block branch ∧
      a.toNat + codeBlockSz + (11 + block.oriSz + encodedSize (branch.patch block.oriCodeEnd)) <
        userEnd := by
  unfold compileCodeBlock at h
  obtain ⟨_, -, h⟩ := bind_eq_ok.mp h
  obtain ⟨branchStart, hscan, h⟩ := bind_eq_ok.mp h
  obtain ⟨branch, hbranch, h⟩ := bind_eq_ok.mp h
  obtain ⟨-, -, h⟩ := bind_eq_ok.mp h
  obtain ⟨⟨pages₁, ptr⟩, halloc, h⟩ := bind_eq_ok.mp h
  obtain ⟨-, -, h⟩ := bind_eq_ok.mp h
  cases h
  refine ⟨branch, hbranch, hscan, rfl, rfl,
    ⟨rfl, rfl, fun hud => if_pos hud, .inl (branch.patch_fixed _ _)⟩, ?_⟩
  have hlt := allocObj_lt halloc
  have hle : (BitVec.ofNat 32 ptr).toNat ≤ ptr := Nat.mod_le _ _
  have hhead : encodedSize (setCurrentBlockTemplate 0) = 11 := rfl
  rw [branch.encodedSize_patch _ env.patchBuf]
  simp only [CodeBlock.oriSz]
  omega

section LaidOut

variable {env : Env} {target a : Word} {pages pages' : List ObjPage} {block : CodeBlock} {branch : Branch}

/-- A direct jump or call can be written over. -/
theorem exitType_of_staticTarget (h : branch.staticTarget.isSome = true) :
    branch.exitType.getD .uncondDirect = .uncondDirect := by
  cases branch <;> first | rfl | cases h

/-- There are five bytes behind what is kept. -/
theorem Branch.kept_room (h : branch.staticTarget.isSome = true) (buf : Word) :
    encodedSize branch.kept = branch.recompileOffset ∧
      branch.recompileOffset + 5 ≤ encodedSize (branch.patch buf) := by
  cases branch with
  | jmp _ => exact ⟨rfl, show 0 + 5 ≤ 18 by decide⟩
  | call _ _ => exact ⟨rfl, show 5 + 5 ≤ 23 by decide⟩
  | _ => cases h

/-- What is kept does to the processor what the branch does. -/
theorem run_kept (h : branch.staticTarget.isSome = true) (env : RunEnv) (base rel : Word) (m : Machine) :
    ∃ c dest, branch.original env m.toCpu = some (c, dest) ∧
      run env base (branch.kept ++ [.jmpRel rel]) 0 0 m =
        .ok ([], .jump (base + BitVec.ofNat 32 (branch.recompileOffset + 5) + rel) { m with toCpu := c }) := by
  cases branch with
  | jmp t => exact ⟨m.toCpu, t, rfl, rfl⟩
  | call t next => exact ⟨m.push [next], t, rfl, rfl⟩
  | _ => cases h

/-- **Writing the jump**: memory behind `compile_code_block` and `recompile_ud`. -/
theorem bytesFrom_writeJump (off : Layout) (mem : Mem) {c e : Word} {front patch : List Byte}
    (he : e = c + BitVec.ofNat 32 front.length) {n : ℕ} (hn : n + 5 ≤ patch.length)
    (hlen : (front ++ patch).length ≤ 2 ^ 32) (t : Word) :
    bytesFrom (writeJump (store mem c (front ++ patch)) (e + BitVec.ofNat 32 n) t) e (n + 5) =
      patch.take n ++ (Insn.jmpRel (t - (e + BitVec.ofNat 32 n + 5))).encode off := by
  -- the five bytes behind the first `n` ones are replaced
  generalize hjump : (Insn.jmpRel (t - (e + BitVec.ofNat 32 n + 5))).encode off = jump
  have hjlen : jump.length = 5 := by rw [← hjump]; rfl
  have hmid : ((patch.drop n).take 5).length = 5 := by
    rw [List.length_take_of_le]
    rw [List.length_drop]
    omega
  have hsplit : front ++ patch = (front ++ patch.take n) ++ (patch.drop n).take 5 ++ (patch.drop n).drop 5 := by
    rw [List.append_assoc, List.append_assoc, List.take_append_drop, List.take_append_drop]
  have htake : (patch.take n).length = n := List.length_take_of_le (by omega)
  have haddr : e + BitVec.ofNat 32 n = c + BitVec.ofNat 32 (front ++ patch.take n).length := by
    rw [he, List.length_append, htake, BitVec.add_assoc, BitVec.ofNat_add]
  have hwrite : writeJump (store mem c (front ++ patch)) (e + BitVec.ofNat 32 n) t =
      store mem c (front ++ (patch.take n ++ jump) ++ (patch.drop n).drop 5) := by
    rw [writeJump_eq, show 0xe9 :: leBytes _ = jump from hjump, haddr, hsplit,
      store_store_inside mem c _ (hjlen.trans hmid.symm) _ (hsplit ▸ hlen), List.append_assoc front]
  have hread := bytesFrom_store mem c front (patch.take n ++ jump) ((patch.drop n).drop 5) (by
    have := congrArg List.length hsplit
    simp only [List.length_append, hmid, hjlen, htake] at this hlen ⊢
    omega)
  rw [List.length_append, htake, hjlen, ← he] at hread
  rw [hwrite, hread]

/-- What is kept are the first bytes of the patch. -/
theorem encode_take_kept (off : Layout) (h : branch.staticTarget.isSome = true) (buf : Word) :
    (encode off (branch.patch buf)).take branch.recompileOffset = encode off branch.kept := by
  obtain ⟨rest, hrest⟩ := branch.exists_patch_eq (exitType_of_staticTarget h) buf
  rw [hrest, encode_append, ← (branch.kept_room h buf).1, ← length_encode off, List.take_left]

/-- **Back to the program**, from inside the copied code or its end. -/
theorem getOriAddress_eq (hend : block.oriCodeEnd = codeAt a + BitVec.ofNat 32 (11 + block.oriSz))
    (hlt : a.toNat + codeBlockSz + 11 + block.oriSz < 2 ^ 32) {i : ℕ} (hi : i ≤ block.oriSz) :
    getOriAddress a block (codeAt a + BitVec.ofNat 32 (11 + i)) = block.entry + BitVec.ofNat 32 i := by
  have haddr : ∀ j ≤ block.oriSz, (codeAt a + BitVec.ofNat 32 (11 + j)).toNat =
      a.toNat + codeBlockSz + 11 + j := by
    intro j hj
    unfold codeAt
    rw [BitVec.add_assoc, ← BitVec.ofNat_add, BitVec.toNat_add, BitVec.toNat_ofNat]
    omega
  have hstart : codeAt a + 11 = codeAt a + BitVec.ofNat 32 (11 + 0) := rfl
  have hin : codeAt a + BitVec.ofNat 32 (11 + i) ≤ block.oriCodeEnd ∧
      codeAt a + 11 ≤ codeAt a + BitVec.ofNat 32 (11 + i) := by
    rw [hend, hstart, BitVec.le_def, BitVec.le_def, haddr i hi, haddr _ le_rfl, haddr 0 (Nat.zero_le _)]
    omega
  unfold getOriAddress
  rw [if_pos hin, BitVec.ofNat_add, ← BitVec.add_assoc, BitVec.add_comm (codeAt a + _)]
  exact congrArg (block.entry + ·) (BitVec.add_sub_cancel _ _)

/-- **Every block** that `compile_code_block` makes. -/
theorem block_laid_out (off : Layout) (mem : Mem)
    (h : compileCodeBlock env target pages = .ok (pages', a, block)) :
    scanInsts env.code target = .ok block.exitInstAddr ∧ block.entry = target ∧
      ∃ branch, readBranch env.code block.exitInstAddr = .ok branch ∧
        LaidOut off env.code a block branch
          (writeCode off env mem a target block.exitInstAddr branch) := by
  obtain ⟨branch, hbranch, hscan, rfl, hend, hexit, hlt⟩ := compileCodeBlock_fields h
  have huser : userEnd = 0xC0000000 := rfl
  have hori : (block.exitInstAddr - block.entry).toNat = block.oriSz := rfl
  have hmem := writeCode_eq off env mem a block.entry block.exitInstAddr branch hori hend (by omega)
  have hfront : (encode off (setCurrentBlockTemplate a) ++ bytesFrom env.code block.entry block.oriSz).length =
      11 + block.oriSz := by
    rw [List.length_append, length_setCurrentBlock, length_bytesFrom]
  have hpatch := length_encode off (branch.patch block.oriCodeEnd)
  have hlen : (encode off (setCurrentBlockTemplate a) ++ bytesFrom env.code block.entry block.oriSz ++
      encode off (branch.patch block.oriCodeEnd)).length ≤ 2 ^ 32 := by
    rw [List.length_append, hfront, hpatch]
    omega
  refine ⟨hscan, rfl, branch, hbranch, ?_⟩
  rw [hmem]
  refine ⟨?_, hend, ?_, ?_, ?_, ?_⟩
  · have hread := bytesFrom_store_self mem (codeAt a) _ hlen
    rw [List.length_append, hfront, hpatch] at hread
    exact hread
  · intro hlogged
    obtain ⟨front, back, -, hsplit⟩ := branch.exists_logged hlogged
    refine ⟨front, _, back, hsplit _, ?_⟩
    rw [encodedSize_append]
    rfl
  · intro hstatic
    exact ⟨hexit.recompileStart (hexit.exitType.trans (exitType_of_staticTarget hstatic)),
      (branch.kept_room hstatic _).2⟩
  · intro hstatic t
    have hud := hexit.exitType.trans (exitType_of_staticTarget hstatic)
    have hstart := hexit.recompileStart hud
    obtain ⟨hkept, hroom⟩ := branch.kept_room hstatic block.oriCodeEnd
    have hcode : (recompileUd block t).exitCode =
        branch.kept ++ [.jmpRel (t - (block.recompileStart + 5))] := by
      rw [recompileUd, hexit.takeBytes_exitCode hud]
    refine ⟨?_, ?_, fun renv m => ?_⟩
    · have hread := bytesFrom_writeJump off mem (hfront ▸ hend) (hpatch ▸ hroom) hlen t
      rw [← hstart] at hread
      rw [hread, hcode, encode_append, encode_take_kept off hstatic]
      simp
    · intro x hx
      rw [writeJump_eq]
      exact store_outside _ hx
    · obtain ⟨c, dest, horiginal, hrun⟩ := run_kept hstatic renv block.oriCodeEnd
        (t - (block.recompileStart + 5)) m
      have hdest : block.oriCodeEnd + BitVec.ofNat 32 (branch.recompileOffset + 5) +
          (t - (block.recompileStart + 5)) = t := by
        rw [hstart, BitVec.ofNat_add, ← BitVec.add_assoc, BitVec.add_comm]
        exact BitVec.sub_add_cancel _ _
      exact ⟨c, dest, horiginal, by rw [hcode, hrun, hdest]⟩
  · intro i hi
    exact getOriAddress_eq hend (by omega) hi

end LaidOut

/-- At `0x2000`, `nop` and a call of `0x2006`. -/
def nopCall : Env := ⟨fun a => codeOf [0x90, 0xe8, 0, 0, 0, 0] (a - 0x2000), pagesAt64K, 0⟩

/-- The block of `nop` and a call. -/
theorem block_laid_out_nopCall : ∃ pages a block,
    compileCodeBlock nopCall 0x2000 [] = .ok (pages, a, block) ∧ block.exitInstAddr = 0x2001 ∧
      ∃ branch, readBranch nopCall.code 0x2001 = .ok branch ∧
        LaidOut (fun _ => 0) nopCall.code a block branch
          (writeCode (fun _ => 0) nopCall (fun _ => 0) a 0x2000 0x2001 branch) := by
  obtain ⟨⟨pages, a, block⟩, hblock, haddr⟩ := exists_ok (b := 0x2001)
    (x := compileCodeBlock nopCall 0x2000 []) (fun r => r.2.2.exitInstAddr) (by decide +kernel)
  have haddr : block.exitInstAddr = 0x2001 := haddr
  have hlaid := (block_laid_out (fun _ => 0) (fun _ => 0) hblock).2.2
  rw [haddr] at hlaid
  exact ⟨pages, a, block, hblock, haddr, hlaid⟩

end Snitchaser.Compiler
