import Mathlib.Data.Nat.Notation

/-!
# Registers, conditions, words in memory

The parts of a 32-bit x86 machine that programs on it are stated with: the eight
general registers, the six status flags, the conditions of conditional jumps, and
memory as bytes read as little-endian words.
-/

namespace Foundation.X86

/-- The general registers, in the order of their numbers. -/
inductive Reg where
  | eax | ecx | edx | ebx | esp | ebp | esi | edi
  deriving DecidableEq, Repr

/-- The register with a number. -/
def Reg.ofNum : ℕ → Reg
  | 0 => .eax
  | 1 => .ecx
  | 2 => .edx
  | 3 => .ebx
  | 4 => .esp
  | 5 => .ebp
  | 6 => .esi
  | _ => .edi

/-- The status flags. -/
@[ext]
structure Flags where
  cf : Bool
  pf : Bool
  af : Bool
  zf : Bool
  sf : Bool
  of : Bool
  deriving DecidableEq, Repr

/-- The conditions of conditional jumps; `ecxz` looks at a register. -/
inductive Cond where
  | o | no | b | nb | z | nz | na | a | s | ns | p | np | l | ge | le | g | ecxz
  deriving DecidableEq, Repr

/-- The condition with a number. -/
def Cond.ofNum : ℕ → Cond
  | 0 => .o
  | 1 => .no
  | 2 => .b
  | 3 => .nb
  | 4 => .z
  | 5 => .nz
  | 6 => .na
  | 7 => .a
  | 8 => .s
  | 9 => .ns
  | 10 => .p
  | 11 => .np
  | 12 => .l
  | 13 => .ge
  | 14 => .le
  | _ => .g

/-- The condition holds; `ecx` is the register. -/
def Cond.holds (f : Flags) (ecx : BitVec 32) : Cond → Bool
  | .o => f.of
  | .no => !f.of
  | .b => f.cf
  | .nb => !f.cf
  | .z => f.zf
  | .nz => !f.zf
  | .na => f.cf || f.zf
  | .a => !(f.cf || f.zf)
  | .s => f.sf
  | .ns => !f.sf
  | .p => f.pf
  | .np => !f.pf
  | .l => f.sf != f.of
  | .ge => f.sf == f.of
  | .le => f.zf || f.sf != f.of
  | .g => !f.zf && f.sf == f.of
  | .ecxz => ecx == 0

/-- Memory, by bytes. -/
abbrev Mem := BitVec 32 → BitVec 8

/-- The two-byte word at an address. -/
def load16 (m : Mem) (a : BitVec 32) : BitVec 16 := m (a + 1) ++ m a

/-- The word at an address. -/
def load32 (m : Mem) (a : BitVec 32) : BitVec 32 := m (a + 3) ++ m (a + 2) ++ m (a + 1) ++ m a

end Foundation.X86
