import Snitchaser.Foundation.Journal
import Snitchaser.Foundation.LittleEndian
import Snitchaser.Common.Marks

/-!
# Handlers of one source

Most handlers under `syscalls/` are one function, compiled twice: as `post_..` it appends
regions of memory to the log, as `replay_..` it fills them from the log. What differs is
in the macros `BUFFER` and `INT_VAL` alone (`syscall_handler.h`). Such a handler is a
`Script` here, and the two readings of a script are those of `Foundation.Journal`.

All handlers return 0. Text for the tracer (`TRACE`) is left out.
-/

namespace Snitchaser.Syscalls

open Foundation Foundation.Journal

/-- A handler's body, before the macros are read. -/
abbrev Script := Prog Word Byte Fault

/-- The addresses of a buffer. -/
def region (p : Word) (size : ℕ) : List Word := (List.range size).map fun i => p + BitVec.ofNat 32 i

/-- `BUFFER(p, s)`. -/
def buffer (p size : Word) : Script Unit :=
  if p = 0 then .ret () else .save (region p size.toNat) (.ret ())

/-- `INT_VAL(x)`. -/
def intVal (x : Word) : Script Word := .emit (leBytes x) fun bytes => .ret (leWord bytes)

/-- Bytes that are copied from memory. -/
def loadBytes (p : Word) (size : ℕ) : Script (List Byte) := .load (region p size) .ret

/-- `*(int *)(p)`. -/
def loadWord (p : Word) : Script Word := .load (region p 4) fun bytes => .ret (leWord bytes)

/-- `BUFFER(p, *(int *)(q))`: the size is looked at only if there is a buffer. -/
def bufferSized (p q : Word) : Script Unit :=
  if p = 0 then .ret ()
  else do
    let size ← loadWord q
    buffer p size

/-- `if (cond) BUFFER(p, s);`. -/
def bufferIf (cond : Prop) [Decidable cond] (p size : Word) : Script Unit :=
  if cond then buffer p size else .ret ()

/-- `assert(cond)`. -/
def check (cond : Prop) [Decidable cond] (text : String) : Script Unit :=
  if cond then .ret () else .fail (.assertion text)

/-- What a handler does if the call did not fail. -/
def unlessFailed (regs : PushaRegs) (script : Script Unit) : Script Unit :=
  if regs.eax.toInt < 0 then .ret () else script

/-- What it does if the call returned more than 0. -/
def ifPositive (regs : PushaRegs) (script : Script Unit) : Script Unit :=
  if regs.eax.toInt ≤ 0 then .ret () else script

/-! ### A buffer or two -/

/-- `sizeof(struct stat64)` is 96. -/
def fstat64 (regs : PushaRegs) : Script Unit := unlessFailed regs (buffer regs.ecx 96)

def stat64 (regs : PushaRegs) : Script Unit := unlessFailed regs (buffer regs.ecx 96)

/-- `sizeof(struct old_utsname)` is 325. -/
def uname (regs : PushaRegs) : Script Unit := unlessFailed regs (buffer regs.ebx 325)

def pipe (regs : PushaRegs) : Script Unit := unlessFailed regs (buffer regs.ebx 8)

/-- `sizeof(struct rlimit)` is 8. -/
def ugetrlimit (regs : PushaRegs) : Script Unit := unlessFailed regs (buffer regs.ecx 8)

/-- `sizeof(struct k_timespec)` is 8. -/
def clockGetres (regs : PushaRegs) : Script Unit := unlessFailed regs (buffer regs.ecx 8)

def clockGettime (regs : PushaRegs) : Script Unit := unlessFailed regs (buffer regs.ecx 8)

def getcwd (regs : PushaRegs) : Script Unit := unlessFailed regs (buffer regs.ebx regs.eax)

def read (regs : PushaRegs) : Script Unit := ifPositive regs (buffer regs.ecx regs.eax)

def pread64 (regs : PushaRegs) : Script Unit := ifPositive regs (buffer regs.ecx regs.eax)

def getdents64 (regs : PushaRegs) : Script Unit := ifPositive regs (buffer regs.ecx regs.eax)

/-- `sizeof(struct pollfd)` is 8; the product wraps. -/
def poll (regs : PushaRegs) : Script Unit := ifPositive regs (buffer regs.ebx (regs.ecx * 8))

/-- `sizeof(struct epoll_event)` is 12. -/
def epollWait (regs : PushaRegs) : Script Unit :=
  ifPositive regs do
    check (regs.eax.toInt ≤ regs.edx.toInt) "r <= maxevents"
    buffer regs.ecx (regs.eax * 12)

/-- It does not look at the result. -/
def waitpid (regs : PushaRegs) : Script Unit :=
  bufferIf (regs.ecx ≠ 0) regs.ecx 4

def time (regs : PushaRegs) : Script Unit :=
  bufferIf (regs.ebx ≠ 0) regs.ebx 4

def nanosleep (regs : PushaRegs) : Script Unit :=
  bufferIf (regs.ecx ≠ 0) regs.ecx 8

/-- `sizeof(loff_t)` is 8. -/
def llseek (regs : PushaRegs) : Script Unit :=
  unlessFailed regs (bufferIf (regs.esi ≠ 0) regs.esi 8)

/-- `sizeof(struct itimerval)` is 16. -/
def setitimer (regs : PushaRegs) : Script Unit :=
  bufferIf (regs.eax = 0 ∧ regs.edx ≠ 0) regs.edx 16

/-- `sizeof(struct k_sigaction)` is 20. -/
def rtSigaction (regs : PushaRegs) : Script Unit :=
  bufferIf (regs.eax = 0 ∧ regs.edx ≠ 0) regs.edx 20

def gettimeofday (regs : PushaRegs) : Script Unit :=
  unlessFailed regs do
    bufferIf (regs.ebx ≠ 0) regs.ebx 8
    bufferIf (regs.ecx ≠ 0) regs.ecx 8

/-- `PR_GET_PDEATHSIG`, `_UNALIGN`, `_FPEMU`, `_FPEXC`, `_ENDIAN` and `_TSC` give an
`int`, `PR_GET_NAME` a name of `TASK_COMM_LEN`. -/
def prctl (regs : PushaRegs) : Script Unit :=
  unlessFailed regs
    (if regs.ebx ∈ ([2, 5, 9, 11, 19, 25] : List Word) then buffer regs.ecx 4
      else if regs.ebx = 16 then buffer regs.ecx 16
      else .ret ())

/-- `F_GETLK64` gives a `struct flock64`, `F_GETLK` a `struct flock`. -/
def fcntl64 (regs : PushaRegs) : Script Unit :=
  unlessFailed regs
    (if regs.ecx = 12 then buffer regs.edx 24
      else if regs.ecx = 5 then buffer regs.edx 16
      else .ret ())

/-- `FUTEX_CMD_MASK`. -/
def futexCmdMask : Word := ~~~(128 ||| 256)

/-- `FUTEX_REQUEUE`, `FUTEX_CMP_REQUEUE` and `FUTEX_WAKE_OP` have a second word. -/
def futex (regs : PushaRegs) : Script Unit :=
  unlessFailed regs do
    buffer regs.ebx 4
    bufferIf (regs.ecx &&& futexCmdMask ∈ ([3, 4, 5] : List Word)) regs.edi 4

/-- `FDS_BYTES(n)`, in unsigned arithmetic. -/
def fdsBytes (n : Word) : Word := (n + 31) / 32 * 4

/-- It does not look at the result either. -/
def newselect (regs : PushaRegs) : Script Unit := do
  bufferIf (regs.ecx ≠ 0) regs.ecx (fdsBytes regs.ebx)
  bufferIf (regs.edx ≠ 0) regs.edx (fdsBytes regs.ebx)
  bufferIf (regs.esi ≠ 0) regs.esi (fdsBytes regs.ebx)

/-! ### `ioctl` -/

/-- What a terminal's command gives: the size, or 0 for nothing. -/
def ttySize (cmd : Word) : Option Word :=
  if cmd = 0x5401 then some 36          -- TCGETS, struct termios
  else if cmd = 0x5413 then some 8      -- TIOCGWINSZ, struct winsize
  else if cmd = 0x541B then some 4      -- FIONREAD
  else if cmd = 0x5405 then some 18     -- TCGETA, struct termio
  else if cmd ∈ ([0x5421, 0x5406, 0x5452] : List Word) then some 0  -- FIONBIO, TCSETA, FIOASYNC
  else none

/-- `TTY_IOCTL`. -/
def ttyIoctl (cmd arg : Word) : Script Unit :=
  match ttySize cmd with
  | some size => bufferIf (size ≠ 0 ∧ arg ≠ 0) arg size
  | none => .fail (.fatal "doesn't know such tty ioctl: 0x%x\n")

/-- `_IOC_DIR`; the shift of an `int` is masked. -/
def iocDir (cmd : Word) : Word := (cmd >>> 30) &&& 3

/-- `_IOC_SIZE`. -/
def iocSize (cmd : Word) : Word := (cmd >>> 16) &&& 0x3fff

/-- `_IOC_TYPE`. -/
def iocType (cmd : Word) : Word := (cmd >>> 8) &&& 0xff

/-- `BLK_IOCTL`. -/
def blkIoctl (regs : PushaRegs) (cmd arg : Word) : Script Unit :=
  unlessFailed regs
    (if iocDir cmd = 2 then do
        check (arg ≠ 0) "arg != 0"
        buffer arg (iocSize cmd)
      else .ret ())

def ioctl (regs : PushaRegs) : Script Unit :=
  if iocType regs.ecx = 0x54 then ttyIoctl regs.ecx regs.edx
  else if iocType regs.ecx = 0x12 then blkIoctl regs regs.ecx regs.edx
  else .fail (.fatal "no such ioctl command: 0x%x\n")

/-! ### `socketcall` -/

/-- The sub-handlers take the result after the arguments. -/
def getsockname (usockaddr usockaddrLen retval : Word) : Script Unit :=
  if retval.toInt < 0 then .ret ()
  else do
    buffer usockaddrLen 4
    let len ← loadWord usockaddrLen
    check (0 < len.toInt ∧ len.toInt < 1000) "(len > 0) && (len < 1000)"
    bufferIf (usockaddr ≠ 0) usockaddr len

def recvfrom (ubuf addr paddrLen retval : Word) : Script Unit :=
  if retval.toInt < 0 then .ret ()
  else do
    buffer ubuf retval
    if addr ≠ 0 then do
      check (paddrLen ≠ 0) "paddr_len != 0"
      buffer paddrLen 4
      let len ← loadWord paddrLen
      buffer addr len
    else .ret ()

/-- The loop over the `struct _iovec`s: `n` of them, from number `i` on. -/
def bufferVecs (vecs : Word) : ℕ → ℕ → Script Unit
  | 0, _ => .ret ()
  | n + 1, i => do
    let base ← loadWord (vecs + BitVec.ofNat 32 (8 * i))
    bufferSized base (vecs + BitVec.ofNat 32 (8 * i + 4))
    bufferVecs vecs n (i + 1)

/-- `struct _msghdr` has seven words: the name and its length, the vectors and their
number, and three that are not looked at. The size of the vectors is an `int`: it
wraps. -/
def recvmsg (msg retval : Word) : Script Unit :=
  if retval.toInt < 0 then .ret ()
  else do
    buffer msg 28
    let bytes ← loadBytes msg 28
    let hdr := fun i => (leWords 7 bytes).getD i 0
    bufferIf (hdr 0 ≠ 0) (hdr 0) (hdr 1)
    buffer (hdr 2) (8 * hdr 3)
    bufferVecs (hdr 2) (hdr 3).toInt.toNat 0

def recv (ubuf retval : Word) : Script Unit :=
  if retval.toInt ≤ 0 then .ret () else buffer ubuf retval

def getpeername (usockaddr usockaddrLen retval : Word) : Script Unit :=
  if retval.toInt < 0 then .ret ()
  else if usockaddr ≠ 0 then do
    check (usockaddrLen ≠ 0) "usockaddr_len != 0"
    buffer usockaddrLen 4
    bufferSized usockaddr usockaddrLen
  else .ret ()

def accept (peerSockaddr peerAddrlen retval : Word) : Script Unit :=
  if retval.toInt ≤ 0 then .ret ()
  else if peerSockaddr = 0 then .ret ()
  else do
    check (peerAddrlen ≠ 0) "pupeer_addrlen != 0"
    buffer peerAddrlen 4
    let l ← loadWord peerAddrlen
    buffer peerSockaddr l

def socketpair (usockvec retval : Word) : Script Unit :=
  if retval.toInt < 0 then .ret ()
  else do
    check (usockvec ≠ 0) "usockvec != 0"
    buffer usockvec 8

def getsockopt (optval optlen retval : Word) : Script Unit :=
  if retval.toInt < 0 then .ret ()
  else do
    check (optlen ≠ 0) "optlen != 0"
    buffer optlen 4
    bufferSized optval optlen

/-- `nargs`: the size of the argument block of each call. -/
def nargs : List ℕ :=
  [0, 3, 3, 3, 2, 3, 3, 3, 4, 4, 4, 6, 6, 2, 5, 5, 3, 3].map (4 * ·)

/-- The `switch` of `socketcall`, over the arguments. -/
def socketSub (call : ℕ) (a : ℕ → Word) (retval : Word) : Script Unit :=
  match call with
  | 5 => accept (a 1) (a 2) retval
  | 6 => getsockname (a 1) (a 2) retval
  | 7 => getpeername (a 1) (a 2) retval
  | 8 => socketpair (a 3) retval
  | 10 => recv (a 1) retval
  | 12 => recvfrom (a 1) (a 4) (a 5) retval
  | 15 => getsockopt (a 3) (a 4) retval
  | 17 => recvmsg (a 1) retval
  -- SYS_CONNECT, SENDTO, SOCKET, BIND, SETSOCKOPT, LISTEN, SHUTDOWN, SEND, SENDMSG
  | _ => .ret ()

/-- The arguments are copied from the block that was saved; those it has not are not used. -/
def socketcall (regs : PushaRegs) : Script Unit := do
  check (1 ≤ regs.ebx.toInt ∧ regs.ebx.toInt ≤ 17) "(call >= 1) && (call <= SYS_RECVMSG)"
  let size := nargs.getD regs.ebx.toNat 0
  buffer regs.ecx (BitVec.ofNat 32 size)
  let bytes ← loadBytes regs.ecx size
  socketSub regs.ebx.toNat (fun i => (leWords 6 bytes).getD i 0) regs.eax

end Snitchaser.Syscalls
