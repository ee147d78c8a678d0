import Snitchaser.Syscalls.Script
import Snitchaser.Log.Logger

/-!
# The handler table

`syscall_table.c`: the post handler and the replay handler of each system call that is
supported, by its number.

## The model

* `UserMem` is the memory of the recorded program: its contents, and what of it can be
  read. `NULL` points nowhere, and the kernel's addresses are out of reach.
* A post handler appends pieces to the log; what `append_buffer` asserts of a piece is
  `appendCheck`. The calls it makes itself (`fstat64`, `mprotect`) are answered by the
  environment, `mprotect` without touching the contents.
* A replay handler runs in a process of its own, with any memory, and takes what it
  needs from the stream. Its calls are answered by a `Kernel`, which may keep a state of
  its own (`S`).
* What `post_clone` does in the child is left out: the child begins a log of its own.
-/

namespace Snitchaser.Syscalls

open Foundation Foundation.Journal Interp Log

/-! ### The recorded side -/

/-- The memory of the recorded program. -/
structure UserMem where
  contents : Word → Byte
  readable : Word → Bool
  /-- `NULL` points nowhere. -/
  null : readable 0 = false
  /-- User space ends where the kernel's begins. -/
  user : ∀ a, readable a = true → a.toNat < userEnd

/-- What `append_buffer` asserts of the size: a piece as large as the buffer neither fits
it nor is larger. -/
def appendCheck (bytes : List Byte) : Except Fault Unit := do
  assert (bytes.length ≠ 0) "size != 0"
  assert (bytes.length ≠ maxLoggerSize) "size > MAX_LOGGER_SIZE"

/-- What can be read of a memory. -/
def UserMem.read (mem : UserMem) (a : Word) : Option Byte :=
  if mem.readable a then some (mem.contents a) else none

/-- The first run of a script is on this memory. -/
def UserMem.recorder (mem : UserMem) : Recorder Word Byte Fault :=
  ⟨mem.read, .segfault, appendCheck⟩

/-- The fields of `struct thread_private_data` that post handlers use. -/
structure Thread where
  /-- `unblock_sigmask`. -/
  unblockSigmask : Word × Word
  /-- `current_sigmask`. -/
  currentSigmask : Word × Word
  confTraceFork : Bool
  confUntraceClone : Bool
  deriving DecidableEq

/-- What a post handler finds. -/
structure PostEnv where
  mem : UserMem
  thread : Thread
  /-- `fstat64`: the result, and `st_size`. -/
  fstat64 : Word → Word × BitVec 64
  /-- `mprotect`: the result, and the memory after it. -/
  mprotect : UserMem → Word → Word → Word → Word × UserMem
  /-- Protections are no contents. -/
  mprotect_contents : ∀ mem p len prot, (mprotect mem p len prot).2.contents = mem.contents

/-- The page at `0xb7f00000`. -/
def dataPage (a : Word) : Bool := 0xb7f00000 ≤ a && a < 0xb7f01000

theorem dataPage_null : dataPage 0 = false := by decide

theorem dataPage_user (a : Word) (ha : dataPage a = true) : a.toNat < userEnd := by
  have h : a < 0xb7f01000 := by simpa using (Bool.and_eq_true_iff.mp ha).2
  have h' : a.toNat < 0xb7f01000 := h
  unfold userEnd
  omega

/-- A memory of one page. -/
def onePage (contents : Word → Byte) : UserMem := ⟨contents, dataPage, dataPage_null, dataPage_user⟩

/-- `mprotect` that does nothing. -/
def noProtect (mem : UserMem) (_ _ _ : Word) : Word × UserMem := (0, mem)

theorem noProtect_contents (mem : UserMem) (p len prot : Word) :
    (noProtect mem p len prot).2.contents = mem.contents := rfl

/-- A post handler that finds a memory, with calls that do nothing. -/
def quietEnv (mem : UserMem) : PostEnv :=
  ⟨mem, ⟨(0, 0), (0, 0), true, false⟩, fun _ => (0, 0), noProtect, noProtect_contents⟩

/-- What a post handler leaves. -/
structure Posted where
  ret : Word
  thread : Thread
  /-- What it appended to the log. -/
  pieces : List (List Byte)
  /-- Where that was. -/
  saved : List Word

/-- A post handler. -/
abbrev Post := PostEnv → PushaRegs → Except Fault Posted

/-- A script as a post handler. -/
def post (script : PushaRegs → Script Unit) : Post := fun env regs => do
  let out ← record env.mem.recorder (script regs)
  .ok ⟨0, env.thread, out.pieces, out.saved⟩

/-- A post handler that does nothing: `trivial_post_handler` and others. -/
def trivialPostHandler : Post := fun env _ => .ok ⟨0, env.thread, [], []⟩

/-- `PTR_CORRECT(ptr)`. -/
def ptrCorrect (ptr : Word) : Prop := ptr.toNat < 0xc0000000

instance (ptr : Word) : Decidable (ptrCorrect ptr) := Nat.decLt _ _

/-- `PROT_READ`. -/
def protRead : Word := 1

/-- `PROT_WRITE`. -/
def protWrite : Word := 2

/-- How much of a mapping `post_mmap2` records: of a file, no more than there is.
`pgoff * 4096` is a product of `unsigned long`s. -/
def recordedLen (env : PostEnv) (regs : PushaRegs) : Except Fault Word :=
  if 0 < regs.edi.toInt then do
    assert ((env.fstat64 regs.edi).1 = 0) "err == 0"
    let fileSize := (env.fstat64 regs.edi).2.toInt
    let startPos : ℤ := (regs.ebp * 4096).toNat
    assert (fileSize > startPos) "file_size > start_pos"
    let avalSize := (fileSize - startPos).toNat
    .ok (if regs.ecx.toNat < avalSize then regs.ecx else BitVec.ofNat 32 avalSize)
  else .ok regs.ecx

/-- The memory a mapping is recorded from: pages that cannot be read are opened for it,
and closed again. -/
def withReadable (env : PostEnv) (ptr len prot : Word) (f : UserMem → Except Fault (Recorded Word Byte Unit)) :
    Except Fault (Recorded Word Byte Unit) :=
  if prot &&& protRead ≠ 0 then f env.mem
  else do
    let opened := env.mprotect env.mem ptr len (prot ||| protRead)
    assert (opened.1 = 0) "err == 0"
    let out ← f opened.2
    assert ((env.mprotect opened.2 ptr len prot).1 = 0) "err == 0"
    .ok out

/-- `post_mmap2`. -/
def postMmap2 : Post := fun env regs =>
  if ptrCorrect regs.eax then do
    let len ← recordedLen env regs
    let head ← record env.mem.recorder (intVal len)
    let data ← withReadable env regs.eax len regs.edx fun mem =>
      record mem.recorder (buffer regs.eax len)
    .ok ⟨0, env.thread, head.pieces ++ data.pieces, head.saved ++ data.saved⟩
  else .ok ⟨0, env.thread, [], []⟩

/-- A set that is given back has to be the mask of before, in its first bytes. -/
def checkOset (size : ℕ) (text : String) (env : PostEnv) (oset : Word) : Except Fault Unit :=
  if oset ≠ 0 then do
    let bytes ← env.mem.recorder.read (region oset size)
    assert (bytes = (leBytesList [env.thread.unblockSigmask.1, env.thread.unblockSigmask.2]).take size)
      text
  else .ok ()

/-- `post_rt_sigprocmask` and `post_sigprocmask`. -/
def postMask (size : ℕ) (text : String) : Post := fun env regs =>
  if regs.eax.toInt < 0 then .ok ⟨0, env.thread, [], []⟩
  else do
    checkOset size text env regs.edx
    let out ← record env.mem.recorder (bufferIf (regs.edx ≠ 0) regs.edx (BitVec.ofNat 32 size))
    .ok ⟨0, { env.thread with unblockSigmask := env.thread.currentSigmask }, out.pieces, out.saved⟩

/-- `post_rt_sigprocmask`. -/
def postRtSigprocmask : Post := postMask 8 "memcmp(oset, tpd->unblock_sigmask, SIGSET_SZ) == 0"

/-- `post_sigprocmask`. -/
def postSigprocmask : Post := postMask 4 "*oset == tpd->unblock_sigmask[0]"

/-- `CLONE_CHILD_CLEARTID | CLONE_CHILD_SETTID | SIGCHLD`: a fork. -/
def forkFlags : Word := 0x00200000 ||| 0x01000000 ||| 17

/-- `CLONE_VM | CLONE_FS | CLONE_FILES | CLONE_SIGHAND | CLONE_THREAD | CLONE_SYSVSEM |
CLONE_SETTLS | CLONE_PARENT_SETTID | CLONE_CHILD_CLEARTID`: a thread. -/
def threadFlags : Word :=
  0x100 ||| 0x200 ||| 0x400 ||| 0x800 ||| 0x10000 ||| 0x40000 ||| 0x80000 ||| 0x100000 ||| 0x200000

/-- `post_clone`: 1 says that a forked child runs untraced. -/
def postClone : Post := fun env regs =>
  if regs.ebx = forkFlags then
    .ok ⟨if regs.eax = 0 ∧ !env.thread.confTraceFork then 1 else 0, env.thread, [], []⟩
  else if regs.ebx = threadFlags then .ok ⟨0, env.thread, [], []⟩
  else .error (.fatal "unimplemented flag: 0x%x\n")

/-! ### The replayed side -/

/-- The process that replays. -/
structure Target (S : Type) where
  mem : Word → Byte
  /-- What the kernel keeps of it. -/
  state : S

/-- The calls replay handlers make: the result, and the process after it. -/
structure Kernel (S : Type) where
  mmap2 : Target S → (addr len prot flags fd pgoff : Word) → Word × Target S
  munmap : Target S → (addr len : Word) → Word × Target S
  mprotect : Target S → (addr len prot : Word) → Word × Target S
  brk : Target S → Word → Word × Target S
  write : Target S → (fd buf len : Word) → Word × Target S

/-- What a replay handler leaves. -/
structure Replayed (S : Type) where
  target : Target S
  /-- The rest of the stream. -/
  rest : List Byte
  /-- The sizes it asked for, call after call of `read_syscall_data`. -/
  asked : List ℕ
  /-- It called `__exit`. -/
  exited : Bool

/-- A replay handler. -/
abbrev Replay (S : Type) := Kernel S → PushaRegs → Target S → List Byte → Except Fault (Replayed S)

section

variable {S : Type}

/-- The second run of a script; where the stream ends, the process waits for ever. -/
def restoreScript (script : Script Unit) (target : Target S) (stream : List Byte) :
    Except Fault (Replayed S) := do
  let out ← restore Fault.diverges script target.mem stream
  .ok ⟨{ target with mem := out.mem }, out.rest, out.asked, false⟩

/-- A script as a replay handler. -/
def replay (script : PushaRegs → Script Unit) : Replay S := fun _ regs target stream =>
  restoreScript (script regs) target stream

/-- `trivial_replay_handler` and others. -/
def trivialReplayHandler : Replay S := fun _ _ target stream => .ok ⟨target, stream, [], false⟩

/-- A replay handler that makes a call, or none, and no more. -/
def reissue (call : Kernel S → PushaRegs → Target S → Option (Word × Target S)) : Replay S :=
  fun kernel regs target stream =>
    match call kernel regs target with
    | some (_, target') => .ok ⟨target', stream, [], false⟩
    | none => .ok ⟨target, stream, [], false⟩

/-- `MAP_ANONYMOUS | MAP_FIXED | MAP_PRIVATE`. -/
def anonFlags : Word := 0x20 ||| 0x10 ||| 0x02

/-- `INT_VAL(real_size); BUFFER(ptr, real_size);`: what `real_size` was before does not
matter. -/
def mmap2Script (ptr len : Word) : Script Unit := do
  let realSize ← intVal len
  buffer ptr realSize

/-- `replay_mmap2`. -/
def replayMmap2 : Replay S := fun kernel regs target stream =>
  if ptrCorrect regs.eax then do
    let mapped := kernel.mmap2 target regs.eax regs.ecx (regs.edx ||| protWrite) anonFlags (-1) 0
    if mapped.1 ≠ regs.eax then .error (.fatal "mmap2 inconsistency: 0x%lx vs 0x%lx\n")
    else do
      let out ← restoreScript (mmap2Script regs.eax 0) mapped.2 stream
      let reprotected := kernel.mprotect out.target regs.eax regs.ecx regs.edx
      assert (reprotected.1 = 0) "ret == 0"
      .ok { out with target := reprotected.2 }
  else .ok ⟨target, stream, [], false⟩

/-- `replay_brk`. -/
def replayBrk : Replay S := fun kernel regs target stream =>
  if (kernel.brk target regs.ebx).1 = regs.eax then
    .ok ⟨(kernel.brk target regs.ebx).2, stream, [], false⟩
  else .error (.fatal "brk inconsistent: 0x%x should be 0x%x\n")

/-- `replay_munmap`. -/
def replayMunmap : Replay S := reissue fun kernel regs target =>
  if 0 < regs.eax.toInt then some (kernel.munmap target regs.ebx regs.ecx) else none

/-- `replay_mprotect`. -/
def replayMprotect : Replay S := reissue fun kernel regs target =>
  if 0 ≤ regs.eax.toInt then some (kernel.mprotect target regs.ebx regs.ecx regs.edx) else none

/-- `replay_write`: what goes to the terminal is written again. -/
def replayWrite : Replay S := reissue fun kernel regs target =>
  if 0 < regs.eax.toInt ∧ (regs.ebx = 1 ∨ regs.ebx = 2) then
    some (kernel.write target regs.ebx regs.ecx regs.edx)
  else none

/-- `replay_rt_sigprocmask` and `replay_sigprocmask`. -/
def maskScript (size : ℕ) (regs : PushaRegs) : Script Unit :=
  unlessFailed regs (bufferIf (regs.edx ≠ 0) regs.edx (BitVec.ofNat 32 size))

/-- `replay_exit` and `replay_exit_group`. -/
def replayExit : Replay S := fun _ _ target stream => .ok ⟨target, stream, [], true⟩

end

/-! ### The table -/

/-- `struct syscall_table_entry`, without the pre handler. -/
structure Entry (S : Type) where
  post : Post
  replay : Replay S

variable {S : Type}

/-- `def_handler` of a file with one source. -/
def Entry.ofScript (script : PushaRegs → Script Unit) : Entry S :=
  ⟨Syscalls.post script, Syscalls.replay script⟩

/-- `def_trivial_handler`. -/
def Entry.ofTrivial : Entry S := ⟨trivialPostHandler, trivialReplayHandler⟩

/-- `__NR_exit`. -/
def nrExit : Word := 1

/-- `__NR_exit_group`. -/
def nrExitGroup : Word := 252

/-- `handlers.h`, in its order. -/
def handlers : List (Word × Entry S) :=
  [(197, .ofScript fstat64), (192, ⟨postMmap2, replayMmap2⟩),
    (4, ⟨trivialPostHandler, replayWrite⟩), (nrExitGroup, ⟨trivialPostHandler, replayExit⟩),
    (nrExit, ⟨trivialPostHandler, replayExit⟩),
    (175, ⟨postRtSigprocmask, Syscalls.replay (maskScript 8)⟩),
    (126, ⟨postSigprocmask, Syscalls.replay (maskScript 4)⟩),
    (20, .ofTrivial),                                   -- getpid
    (37, .ofTrivial),                                   -- kill
    (174, .ofScript rtSigaction), (162, .ofScript nanosleep),
    (224, .ofTrivial),                                  -- gettid
    (270, .ofTrivial),                                  -- tgkill
    (45, ⟨trivialPostHandler, replayBrk⟩),
    (5, .ofTrivial),                                    -- open
    (6, .ofTrivial),                                    -- close
    (195, .ofScript stat64), (3, .ofScript read), (91, ⟨trivialPostHandler, replayMunmap⟩),
    (240, .ofScript futex), (54, .ofScript ioctl), (13, .ofScript time), (140, .ofScript llseek),
    (102, .ofScript socketcall), (122, .ofScript uname),
    (125, ⟨trivialPostHandler, replayMprotect⟩), (221, .ofScript fcntl64),
    (142, .ofScript newselect), (266, .ofScript clockGetres), (265, .ofScript clockGettime),
    (30, .ofTrivial),                                   -- utime
    (199, .ofTrivial),                                  -- getuid32
    (183, .ofScript getcwd),
    (201, .ofTrivial),                                  -- geteuid32
    (202, .ofTrivial),                                  -- getegid32
    (200, .ofTrivial),                                  -- getgid32
    (191, .ofScript ugetrlimit), (168, .ofScript poll), (42, .ofScript pipe),
    (120, ⟨postClone, trivialReplayHandler⟩), (7, .ofScript waitpid),
    (146, .ofTrivial),                                  -- writev
    (220, .ofScript getdents64),
    (254, .ofTrivial),                                  -- epoll_create
    (255, .ofTrivial),                                  -- epoll_ctl
    (256, .ofScript epollWait),
    (311, .ofTrivial),                                  -- set_robust_list
    (219, .ofTrivial),                                  -- madvise
    (75, .ofTrivial),                                   -- setrlimit
    (78, .ofScript gettimeofday), (180, .ofScript pread64),
    (39, .ofTrivial),                                   -- mkdir
    (66, .ofTrivial),                                   -- setsid
    (60, .ofTrivial),                                   -- umask
    (63, .ofTrivial),                                   -- dup2
    (181, .ofTrivial),                                  -- pwrite64
    (172, .ofScript prctl),
    (179, .ofTrivial),                                  -- rt_sigsuspend
    (239, .ofTrivial),                                  -- sendfile64
    (104, .ofScript setitimer),
    (10, .ofTrivial)]                                   -- unlink

/-- `syscall_table[nr]`. -/
def syscallTable (nr : Word) : Option (Entry S) := (handlers.find? (·.1 = nr)).map (·.2)

end Snitchaser.Syscalls
