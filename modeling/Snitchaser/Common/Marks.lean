import Snitchaser.Common.Defs

/-!
# Marks and register frames

`marks.h`: the words that tell records of the log and messages of the replayer apart,
and `struct pusha_regs`, the registers as `pusha` and `pushf` leave them on the stack.
-/

namespace Snitchaser

/-- `RDTSC_MARK`. -/
def rdtscMark : Word := 0x1201

/-- `NO_SIGNAL_MARK`. -/
def noSignalMark : Word := 0x1202

/-- `SYSCALL_MARK`. -/
def syscallMark : Word := 0x1203

/-- `SIGNAL_MARK`. -/
def signalMark : Word := 0x1204

/-- `SIGNAL_MARK_2`. -/
def signalMark2 : Word := 0x1205

/-- `SIGNAL_TERMINATE`. -/
def signalTerminateMark : Word := 0x1206

/-- `SIGNAL_HANDLER`. -/
def signalHandlerMark : Word := 0x1207

/-- `SIGRETURN_MARK`. -/
def sigreturnMark : Word := 0x1208

/-- `VALID_PTR_MIN`. -/
def validPtrMin : Word := 0x6006000

/-- `VALID_PTR_MAX`. -/
def validPtrMax : Word := 0xC0000000

/-- `IS_VALID_PTR(p)`. -/
def isValidPtr (p : Word) : Bool := p < validPtrMax && p > validPtrMin

/-- `struct pusha_regs`, in the order of its fields. -/
structure PushaRegs where
  eflags : Word
  edi : Word
  esi : Word
  ebp : Word
  esp : Word
  ebx : Word
  edx : Word
  ecx : Word
  eax : Word
  deriving DecidableEq, Repr

/-- The structure as it lies in memory. -/
def PushaRegs.words (r : PushaRegs) : List Word :=
  [r.eflags, r.edi, r.esi, r.ebp, r.esp, r.ebx, r.edx, r.ecx, r.eax]

/-- The structure of nine words. -/
def PushaRegs.ofWords (words : List Word) : PushaRegs :=
  ⟨words.getD 0 0, words.getD 1 0, words.getD 2 0, words.getD 3 0, words.getD 4 0, words.getD 5 0,
    words.getD 6 0, words.getD 7 0, words.getD 8 0⟩

@[simp] theorem PushaRegs.ofWords_words (r : PushaRegs) : PushaRegs.ofWords r.words = r := rfl

end Snitchaser
