import Snitchaser.Foundation.X86State

/-!
# Near branches

What a near branch does on a 32-bit x86 processor, from its bytes: where it goes, the
stack pointer behind it, and the return address it pushes there. Addresses wrap.

The displacement of a relative branch counts from the next instruction, and has a sign.
The operand of an indirect branch is a register, or a word in memory at an effective
address: a base, a scaled index and a displacement, any of which may be missing, as ModRM
and SIB say. `ret` with an operand takes that many bytes off the stack behind the return
address; the operand has no sign.
-/

namespace Foundation.X86

variable (code : Mem)

/-! ### Operands -/

/-- `mod` of ModRM, `scale` of SIB. -/
def high2 (x : BitVec 8) : ℕ := x.toNat / 64

/-- `reg` of ModRM, `index` of SIB. -/
def mid3 (x : BitVec 8) : ℕ := x.toNat / 8 % 8

/-- `rm` of ModRM, `base` of SIB. -/
def low3 (x : BitVec 8) : ℕ := x.toNat % 8

/-- The displacement at an address that `mod` asks for, and its length. -/
def dispAt (a : BitVec 32) (mod : ℕ) : BitVec 32 × ℕ :=
  if mod = 1 then ((code a).signExtend 32, 1)
  else if mod = 2 then (load32 code a, 4)
  else (0, 0)

/-- The scaled index of a SIB byte. -/
def scaledIndex (regs : Reg → BitVec 32) (sib : BitVec 8) : BitVec 32 :=
  if mid3 sib = 4 then 0 else regs (.ofNum (mid3 sib)) <<< high2 sib

/-- **The effective address** of the ModRM byte at `a`, and the length of ModRM, SIB and
displacement. -/
def effectiveAddress (a : BitVec 32) (regs : Reg → BitVec 32) : BitVec 32 × ℕ :=
  let mod := high2 (code a)
  if low3 (code a) = 4 then
    let sib := code (a + 1)
    if low3 sib = 5 ∧ mod = 0 then (scaledIndex regs sib + load32 code (a + 2), 6)
    else
      let (disp, n) := dispAt code (a + 2) mod
      (regs (.ofNum (low3 sib)) + scaledIndex regs sib + disp, 2 + n)
  else if low3 (code a) = 5 ∧ mod = 0 then (load32 code (a + 1), 5)
  else
    let (disp, n) := dispAt code (a + 1) mod
    (regs (.ofNum (low3 (code a))) + disp, 1 + n)

/-- The operand of the ModRM byte at `a`, in a segment, and its length. -/
def operand32 (a segment : BitVec 32) (c : Cpu) : BitVec 32 × ℕ :=
  if high2 (code a) = 3 then (c.regs (.ofNum (low3 (code a))), 1)
  else
    let (address, n) := effectiveAddress code a c.regs
    (load32 c.mem (segment + address), n)

/-! ### Branches -/

/-- What a branch does. -/
structure BranchEffect where
  /-- Where it goes. -/
  target : BitVec 32
  /-- The stack pointer behind it. -/
  esp : BitVec 32
  /-- The word it has pushed, which is then at the stack pointer. -/
  pushed : Option (BitVec 32)
  deriving DecidableEq

/-- A jump. -/
def Cpu.jumpTo (c : Cpu) (target : BitVec 32) : BranchEffect := ⟨target, c.esp, none⟩

/-- A call. -/
def Cpu.callTo (c : Cpu) (target next : BitVec 32) : BranchEffect := ⟨target, c.esp - 4, some next⟩

/-- A return, with bytes to be released. -/
def Cpu.returnFrom (c : Cpu) (release : BitVec 32) : BranchEffect :=
  ⟨load32 c.mem c.esp, c.esp + 4 + release, none⟩

/-- A conditional jump. -/
def Cpu.jumpIf (c : Cpu) (cond : Cond) (next disp : BitVec 32) : BranchEffect :=
  c.jumpTo (if cond.holds c.flags (c.regs .ecx) then next + disp else next)

/-- `ff` at `a`. -/
def indirectEffect (a segment : BitVec 32) (c : Cpu) : Option BranchEffect :=
  let (target, n) := operand32 code (a + 1) segment c
  if mid3 (code (a + 1)) = 2 then some (c.callTo target (a + BitVec.ofNat 32 (1 + n)))
  else if mid3 (code (a + 1)) = 4 then some (c.jumpTo target)
  else none

/-- **The near branch at `a`**, which has no prefix but that of the segment `gs`; none if
there is no such branch. -/
def nearBranch (gsBase a : BitVec 32) (c : Cpu) : Option BranchEffect :=
  let disp8 := (code (a + 1)).signExtend 32
  match (code a).toNat with
  | 0x0f =>
    let op := (code (a + 1)).toNat
    if 0x80 ≤ op ∧ op < 0x90 then
      some (c.jumpIf (.ofNum (op - 0x80)) (a + 6) (load32 code (a + 2)))
    else none
  | 0x65 => if code (a + 1) = 0xff then indirectEffect code (a + 1) gsBase c else none
  | 0xc2 => some (c.returnFrom ((load16 code (a + 1)).setWidth 32))
  | 0xc3 => some (c.returnFrom 0)
  | 0xe3 => some (c.jumpIf .ecxz (a + 2) disp8)
  | 0xe8 => some (c.callTo (a + 5 + load32 code (a + 1)) (a + 5))
  | 0xe9 => some (c.jumpTo (a + 5 + load32 code (a + 1)))
  | 0xeb => some (c.jumpTo (a + 2 + disp8))
  | 0xff => indirectEffect code a 0 c
  | op =>
    if 0x70 ≤ op ∧ op < 0x80 then some (c.jumpIf (.ofNum (op - 0x70)) (a + 2) disp8) else none

/-- The same, behind one `f2` or `f3`, which do not change a branch. -/
def branchEffect (gsBase a : BitVec 32) (c : Cpu) : Option BranchEffect :=
  nearBranch code gsBase (if code a = 0xf2 ∨ code a = 0xf3 then a + 1 else a) c

end Foundation.X86
