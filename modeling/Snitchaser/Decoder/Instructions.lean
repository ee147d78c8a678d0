import Snitchaser.Decoder.BuildTable

/-!
# The instruction table

`x86_instructions.tbl`, row by row: the opcode maps of 32-bit mode as the authors
entered them, with the operand codes of the processor manual (`E .v` for `Ev`).
The rows are data to be checked against the file, not against the processor; two
rows that disagree with the processor are kept as they stand (opcodes `14`, `24` and
`34`, and the moves to and from control and debug registers; see
`Snitchaser.Decoder.IntelLength`). Hints other than `o64` are left out.
-/

namespace Snitchaser.Decoder

open Addressing

instance : CoeFun Addressing fun _ => OpSize → Operade := ⟨Operade.normal⟩

/-- A register operand. -/
def Operade.reg (r1 : String) : Operade := .register r1 none

/-- A register operand with the register `REX` turns it into. -/
def Operade.regs (r1 r2 : String) : Operade := .register r1 (some r2)

namespace Descriptor

/-- A row for an instruction. -/
def inst (opc : ℕ) (name : String) (operades : List Operade) : Descriptor :=
  { operator := .inst name, rngStart := opc, operades }

/-- A row marked `!`. -/
def jump (opc : ℕ) (name : String) (operades : List Operade) : Descriptor :=
  { operator := .inst name, rngStart := opc, operades, jmpnote := true }

/-- A row with a mandatory prefix. -/
def spec (p : SpecPrefix) (opc : ℕ) (name : String) (operades : List Operade) : Descriptor :=
  { operator := .inst name, rngStart := opc, specPrefix := some p, operades }

/-- A row whose operator is a word in upper case. -/
def word (opc : ℕ) (operator : Operator) : Descriptor := { operator, rngStart := opc }

/-- The row covers a range. -/
def upTo (d : Descriptor) (rngEnd : ℕ) : Descriptor := { d with rngEnd }

/-- The row is marked `!`. -/
def jumps (d : Descriptor) : Descriptor := { d with jmpnote := true }

/-- The row is inside an `X64` block. -/
def x64 (d : Descriptor) : Descriptor := { d with head := 64 }

/-- The row has the hint `o64`. -/
def only64 (d : Descriptor) : Descriptor := { d with o64 := true }

end Descriptor

/-- `table onebyte`. -/
def onebyte : List Descriptor := [
  .inst 0x00 "add" [E .b, G .b], .inst 0x01 "add" [E .v, G .v], .inst 0x02 "add" [G .b, E .b],
  .inst 0x03 "add" [G .v, E .v], .inst 0x04 "add" [.reg "AL", I .b], .inst 0x05 "add" [.reg "rAX", I .z],
  .inst 0x06 "push" [.reg "ES"], .inst 0x07 "pop" [.reg "ES"],
  .inst 0x10 "adc" [E .b, G .b], .inst 0x11 "adc" [E .v, G .v], .inst 0x12 "adc" [G .b, E .b],
  .inst 0x13 "adc" [G .v, E .v], .inst 0x14 "adc" [.reg "AL", I .z], .inst 0x15 "adc" [.reg "rAX", I .z],
  .inst 0x16 "push" [.reg "SS"], .inst 0x17 "pop" [.reg "SS"],
  .inst 0x20 "and" [E .b, G .b], .inst 0x21 "and" [E .v, G .v], .inst 0x22 "and" [G .b, E .b],
  .inst 0x23 "and" [G .v, E .v], .inst 0x24 "and" [.reg "AL", I .z], .inst 0x25 "and" [.reg "rAX", I .z],
  .word 0x26 .prefix2, .inst 0x27 "daa" [],
  .inst 0x30 "xor" [E .b, G .b], .inst 0x31 "xor" [E .v, G .v], .inst 0x32 "xor" [G .b, E .b],
  .inst 0x33 "xor" [G .v, E .v], .inst 0x34 "xor" [.reg "AL", I .z], .inst 0x35 "xor" [.reg "rAX", I .z],
  .word 0x36 .prefix2, .inst 0x37 "aaa" [],
  .x64 (.upTo (.word 0x40 (.unknown "REX")) 0x47),
  .inst 0x40 "inc" [.reg "eAX"], .inst 0x41 "inc" [.reg "eCX"], .inst 0x42 "inc" [.reg "eDX"],
  .inst 0x43 "inc" [.reg "eBX"], .inst 0x44 "inc" [.reg "eSP"], .inst 0x45 "inc" [.reg "eBP"],
  .inst 0x46 "inc" [.reg "eSI"], .inst 0x47 "inc" [.reg "eDI"],
  .inst 0x50 "push" [.regs "rAX" "r8"], .inst 0x51 "push" [.regs "rCX" "r9"],
  .inst 0x52 "push" [.regs "rDX" "r10"], .inst 0x53 "push" [.regs "rBX" "r11"],
  .inst 0x54 "push" [.regs "rSP" "r12"], .inst 0x55 "push" [.regs "rBP" "r13"],
  .inst 0x56 "push" [.regs "rSI" "r14"], .inst 0x57 "push" [.regs "rDI" "r15"],
  .inst 0x60 "pusha" [], .inst 0x61 "popa" [], .inst 0x62 "bound" [G .v, M .a],
  .only64 (.inst 0x63 "movsxd" [G .v, E .v]), .inst 0x63 "arpl" [E .w, G .w],
  .word 0x64 .prefix2, .word 0x65 .prefix2, .word 0x66 .prefix3,
  .word 0x67 .prefix4,
  .jump 0x70 "jo" [J .b], .jump 0x71 "jno" [J .b], .jump 0x72 "jb" [J .b], .jump 0x73 "jae" [J .b],
  .jump 0x74 "je" [J .b], .jump 0x75 "jne" [J .b], .jump 0x76 "jbe" [J .b], .jump 0x77 "ja" [J .b],
  .word 0x80 (.grp .grp1_0x80), .word 0x81 (.grp .grp1_0x81), .word 0x82 (.grp .grp1_0x82),
  .word 0x83 (.grp .grp1_0x83),
  .inst 0x84 "test" [E .b, G .b], .inst 0x85 "test" [E .v, G .v], .inst 0x86 "xchg" [E .b, G .b],
  .inst 0x87 "xchg" [E .v, G .v],
  .inst 0x90 "nop" [], .inst 0x91 "xchg" [.reg "rAX", .regs "rCX" "r9"],
  .inst 0x92 "xchg" [.reg "rAX", .regs "rDX" "r10"], .inst 0x93 "xchg" [.reg "rAX", .regs "rBX" "r11"],
  .inst 0x94 "xchg" [.reg "rAX", .regs "rSP" "r12"], .inst 0x95 "xchg" [.reg "rAX", .regs "rBP" "r13"],
  .inst 0x96 "xchg" [.reg "rAX", .regs "rSI" "r14"], .inst 0x97 "xchg" [.reg "rAX", .regs "rDI" "r15"],
  .inst 0xa0 "mov" [.reg "AL", O .b], .inst 0xa1 "mov" [.reg "rAX", O .v],
  .inst 0xa2 "mov" [O .b, .reg "AL"], .inst 0xa3 "mov" [O .v, .reg "rAX"], .inst 0xa4 "movs" [X .b, Y .b],
  .inst 0xa5 "movs" [X .v, Y .v], .inst 0xa6 "cmps" [X .b, Y .b], .inst 0xa7 "cmps" [X .v, Y .v],
  .inst 0xb0 "mov" [.regs "AL" "R8L", I .b], .inst 0xb1 "mov" [.regs "CL" "R9L", I .b],
  .inst 0xb2 "mov" [.regs "DL" "R10L", I .b], .inst 0xb3 "mov" [.regs "BL" "R11L", I .b],
  .inst 0xb4 "mov" [.regs "AH" "R12L", I .b], .inst 0xb5 "mov" [.regs "CH" "R13L", I .b],
  .inst 0xb6 "mov" [.regs "DH" "R14L", I .b], .inst 0xb7 "mov" [.regs "BH" "R15L", I .b],
  .word 0xc0 (.grp .grp2_0xc0), .word 0xc1 (.grp .grp2_0xc1), .jump 0xc2 "retn" [I .w],
  .jump 0xc3 "retn" [], .inst 0xc4 "les" [G .z, M .p], .inst 0xc5 "lds" [G .z, M .p],
  .word 0xc6 (.grp .grp11_0xc6), .word 0xc7 (.grp .grp11_0xc7),
  .word 0xd0 (.grp .grp2_0xd0), .word 0xd1 (.grp .grp2_0xd1), .word 0xd2 (.grp .grp2_0xd2),
  .word 0xd3 (.grp .grp2_0xd3), .inst 0xd4 "amm" [I .b], .inst 0xd5 "aad" [I .b], .word 0xd6 .bad,
  .inst 0xd7 "xlat" [],
  .jump 0xe0 "loopne" [J .b], .jump 0xe1 "loope" [J .b], .jump 0xe2 "loop" [J .b],
  .jump 0xe3 "jecxz" [J .b], .inst 0xe4 "in" [.reg "AL", I .b], .inst 0xe5 "in" [.reg "eAX", I .b],
  .inst 0xe6 "out" [I .b, .reg "AL"], .inst 0xe7 "out" [I .b, .reg "eAX"],
  .word 0xf0 .prefix1, .word 0xf1 .bad, .word 0xf2 .prefix1, .word 0xf3 .prefix1, .inst 0xf4 "hlt" [],
  .inst 0xf5 "cmc" [], .word 0xf6 (.grp .grp3_0xf6), .word 0xf7 (.grp .grp3_0xf7),
  .inst 0x08 "or" [E .b, G .b], .inst 0x09 "or" [E .v, G .v], .inst 0x0a "or" [G .b, E .b],
  .inst 0x0b "or" [G .v, E .v], .inst 0x0c "or" [.reg "AL", I .b], .inst 0x0d "or" [.reg "rAX", I .z],
  .inst 0x0e "pushcs" [], .word 0x0f .escapeTwoBytes,
  .inst 0x18 "sbb" [E .b, G .b], .inst 0x19 "sbb" [E .v, G .v], .inst 0x1a "sbb" [G .b, E .b],
  .inst 0x1b "sbb" [G .v, E .v], .inst 0x1c "sbb" [.reg "AL", I .b], .inst 0x1d "sbb" [.reg "rAX", I .z],
  .inst 0x1e "pushds" [], .inst 0x1f "popds" [],
  .inst 0x28 "sub" [E .b, G .b], .inst 0x29 "sub" [E .v, G .v], .inst 0x2a "sub" [G .b, E .b],
  .inst 0x2b "sub" [G .v, E .v], .inst 0x2c "sub" [.reg "AL", I .b], .inst 0x2d "sub" [.reg "rAX", I .z],
  .word 0x2e .prefix2, .inst 0x2f "das" [],
  .inst 0x38 "cmp" [E .b, G .b], .inst 0x39 "cmp" [E .v, G .v], .inst 0x3a "cmp" [G .b, E .b],
  .inst 0x3b "cmp" [G .v, E .v], .inst 0x3c "cmp" [.reg "AL", I .b], .inst 0x3d "cmp" [.reg "rAX", I .z],
  .word 0x3e .prefix2, .inst 0x3f "aas" [],
  .x64 (.upTo (.word 0x48 (.unknown "REX")) 0x4f),
  .inst 0x48 "dec" [.reg "eAX"], .inst 0x49 "dec" [.reg "eCX"], .inst 0x4a "dec" [.reg "eDX"],
  .inst 0x4b "dec" [.reg "eBX"], .inst 0x4c "dec" [.reg "eSP"], .inst 0x4d "dec" [.reg "eBP"],
  .inst 0x4e "dec" [.reg "eSI"], .inst 0x4f "dec" [.reg "eDI"],
  .inst 0x58 "pop" [.regs "rAX" "r8"], .inst 0x59 "pop" [.regs "rCX" "r9"],
  .inst 0x5a "pop" [.regs "rDX" "r10"], .inst 0x5b "pop" [.regs "rBX" "r11"],
  .inst 0x5c "pop" [.regs "rSP" "r12"], .inst 0x5d "pop" [.regs "rBP" "r13"],
  .inst 0x5e "pop" [.regs "rSI" "r14"], .inst 0x5f "pop" [.regs "rDI" "r15"],
  .inst 0x68 "push" [I .z], .inst 0x69 "imul" [G .v, E .v, I .z], .inst 0x6a "push" [I .b],
  .inst 0x6b "imul" [G .v, E .v, I .b], .inst 0x6c "insb" [Y .b, .reg "DX"],
  .inst 0x6d "ins" [Y .z, .reg "DX"], .inst 0x6e "outs" [.reg "DX", X .b],
  .inst 0x6f "outs" [.reg "DX", X .z],
  .jump 0x78 "js" [J .b], .jump 0x79 "jns" [J .b], .jump 0x7a "jp" [J .b], .jump 0x7b "jnp" [J .b],
  .jump 0x7c "jl" [J .b], .jump 0x7d "jge" [J .b], .jump 0x7e "jle" [J .b], .jump 0x7f "jg" [J .b],
  .inst 0x88 "mov" [E .b, G .b], .inst 0x89 "mov" [E .v, G .v], .inst 0x8a "mov" [G .b, E .b],
  .inst 0x8b "mov" [G .v, E .v], .inst 0x8c "mov" [E .v, S .w], .inst 0x8d "lea" [G .v, M .xx],
  .inst 0x8e "mov" [S .w, E .w], .word 0x8f (.grp .grp1A_0x8f),
  .inst 0x98 "cwtl" [], .inst 0x99 "cltd" [], .jump 0x9a "callf" [A .p], .inst 0x9b "fwait" [],
  .inst 0x9c "pushf" [F .v], .inst 0x9d "popf" [F .v], .inst 0x9e "sahf" [], .inst 0x9f "lahf" [],
  .inst 0xa8 "test" [.reg "AL", I .b], .inst 0xa9 "test" [.reg "rAX", I .z],
  .inst 0xaa "stosb" [Y .b, .reg "AL"], .inst 0xab "stos" [Y .v, .reg "rAX"],
  .inst 0xac "lodsb" [.reg "AL", X .b], .inst 0xad "lods" [.reg "rAX", X .v],
  .inst 0xae "scasb" [.reg "AL", Y .b], .inst 0xaf "scas" [.reg "rAX", X .v],
  .inst 0xb8 "mov" [.regs "rAX" "r8", I .v], .inst 0xb9 "mov" [.regs "rCX" "r9", I .v],
  .inst 0xba "mov" [.regs "rDX" "r10", I .v], .inst 0xbb "mov" [.regs "rBX" "r11", I .v],
  .inst 0xbc "mov" [.regs "rSP" "r12", I .v], .inst 0xbd "mov" [.regs "rBP" "r13", I .v],
  .inst 0xbe "mov" [.regs "rSI" "r14", I .v], .inst 0xbf "mov" [.regs "rDI" "r15", I .v],
  .inst 0xc8 "enter" [I .w, I .b], .inst 0xc9 "leave" [], .jump 0xca "lret" [I .w], .jump 0xcb "lret" [],
  .jump 0xcc "int3" [], .jump 0xcd "int" [], .jump 0xce "into" [], .inst 0xcf "iret" [],
  .upTo (.word 0xd8 .escapeCoprocessor) 0xdf,
  .jump 0xe8 "call" [J .z], .jump 0xe9 "jmp" [J .z], .jump 0xea "ljmp" [A .p], .jump 0xeb "jmp" [J .b],
  .inst 0xec "in" [.reg "AL", .reg "DX"], .inst 0xed "in" [.reg "eAX", .reg "DX"],
  .inst 0xee "out" [.reg "DX", .reg "AL"], .inst 0xef "out" [.reg "DX", .reg "eAX"],
  .inst 0xf8 "clc" [], .inst 0xf9 "stc" [], .inst 0xfa "cli" [], .inst 0xfb "sti" [], .inst 0xfc "cld" [],
  .inst 0xfd "std" [], .word 0xfe (.grp .grp4_0xfe), .word 0xff (.grp .grp5_0xff)]

/-- `table twobytes`. -/
def twobytes : List Descriptor := [
  .word 0x00 (.grp .grp6_0x0f00), .word 0x01 .xxxGrp7, .inst 0x02 "lar" [G .v, E .w],
  .inst 0x03 "lsl" [G .v, E .w], .jump 0x05 "syscall" [], .inst 0x06 "clts" [], .jump 0x07 "sysret" [],
  .spec .none 0x10 "movups" [V .ps, W .ps], .spec .pf3 0x10 "movss" [V .ss, W .ss],
  .spec .p66 0x10 "movupd" [V .pd, W .pd], .spec .pf2 0x10 "movsd" [V .sd, W .sd],
  .spec .none 0x11 "movups" [W .ps, V .ps], .spec .pf3 0x11 "movss" [W .ss, V .ss],
  .spec .p66 0x11 "movupd" [W .pd, V .pd], .spec .pf2 0x11 "movsd" [W .sd, V .sd],
  .spec .none 0x12 "movlpsormovhlps" [V .q, W .q], .spec .p66 0x12 "movlpd" [V .q, M .q],
  .spec .pf2 0x12 "movddup" [V .q, W .q], .spec .pf3 0x12 "movsldup" [V .q, W .q],
  .spec .none 0x13 "movlps" [M .q, V .q], .spec .p66 0x13 "movlpd" [M .q, V .q],
  .spec .none 0x14 "unpcklps" [V .ps, W .q], .spec .p66 0x14 "unpcklpd" [V .pd, W .q],
  .spec .none 0x15 "unpckhps" [V .ps, W .q], .spec .p66 0x15 "unpckhpd" [V .pd, W .q],
  .spec .none 0x16 "movhpsormovlhps" [V .q, W .q], .spec .p66 0x16 "movhpd" [V .q, M .q],
  .spec .pf3 0x16 "movshdup" [V .q, W .q],
  .spec .none 0x17 "movhps" [M .q, V .q], .spec .p66 0x17 "movhpd" [M .q, V .q],
  .jump 0x20 "mov" [R .d, C .d], .inst 0x21 "mov" [R .d, D .d], .inst 0x22 "mov" [C .d, R .d],
  .inst 0x23 "mov" [D .d, R .d],
  .inst 0x30 "wrmsr" [], .jump 0x31 "rdtsc" [], .inst 0x32 "rdmsr" [], .jump 0x33 "rdpmc" [],
  .jump 0x34 "sysenter" [], .jump 0x35 "sysexit" [],
  .inst 0x40 "cmovo" [G .v, E .v], .inst 0x41 "cmovno" [G .v, E .v], .inst 0x42 "cmovb" [G .v, E .v],
  .inst 0x43 "cmovae" [G .v, E .v], .inst 0x44 "cmove" [G .v, E .v], .inst 0x45 "cmovne" [G .v, E .v],
  .inst 0x46 "cmovbe" [G .v, E .v], .inst 0x47 "cmova" [G .v, E .v],
  .spec .none 0x50 "movmskps" [G .d, U .ps], .spec .p66 0x50 "movmskpd" [G .d, U .ps],
  .spec .none 0x51 "sqrtps" [V .ps, W .ps], .spec .pf3 0x51 "sqrtss" [V .ss, W .ss],
  .spec .p66 0x51 "sqrtpd" [V .pd, W .pd], .spec .pf2 0x51 "sqrtsd" [V .sd, W .sd],
  .spec .none 0x52 "rsqrtps" [V .ps, W .ps], .spec .pf3 0x52 "rsqrtss" [V .ss, W .ss],
  .spec .none 0x53 "rcpps" [V .ps, W .ps], .spec .pf3 0x53 "rcpss" [V .ss, W .ss],
  .spec .none 0x54 "andps" [V .ps, W .ps], .spec .p66 0x54 "andpd" [V .pd, W .pd],
  .spec .none 0x55 "andnps" [V .ps, W .ps], .spec .p66 0x55 "andnpd" [V .pd, W .pd],
  .spec .none 0x56 "orps" [V .ps, W .ps], .spec .p66 0x56 "orpd" [V .pd, W .pd],
  .spec .none 0x57 "xorps" [V .ps, W .ps], .spec .p66 0x57 "xorpd" [V .pd, W .pd],
  .spec .none 0x60 "punpcklbw" [P .q, Q .d], .spec .p66 0x60 "punpcklbw" [V .dq, W .dq],
  .spec .none 0x61 "punpcklwd" [P .q, Q .d], .spec .p66 0x61 "punpcklwd" [V .dq, W .dq],
  .spec .none 0x62 "punpckldq" [P .q, Q .d], .spec .p66 0x62 "punpckldq" [V .dq, W .dq],
  .spec .none 0x63 "packsswb" [P .q, Q .d], .spec .p66 0x63 "packsswb" [V .dq, W .dq],
  .spec .none 0x64 "pcmpgtb" [P .q, Q .d], .spec .p66 0x64 "pcmpgtb" [V .dq, W .dq],
  .spec .none 0x65 "pcmpgtw" [P .q, Q .d], .spec .p66 0x65 "pcmpgtw" [V .dq, W .dq],
  .spec .none 0x66 "pcmpgtd" [P .q, Q .d], .spec .p66 0x66 "pcmpgtd" [V .dq, W .dq],
  .spec .none 0x67 "packuswb" [P .q, Q .d], .spec .p66 0x67 "packuswb" [V .dq, W .dq],
  .spec .none 0x70 "pshufw" [P .q, Q .d, I .b], .spec .p66 0x70 "pshufd" [V .dq, W .dq, I .b],
  .spec .pf3 0x70 "pshufhw" [V .dq, W .dq, I .b], .spec .pf2 0x70 "pshuflw" [V .dq, W .dq, I .b],
  .word 0x71 (.grp .grp12_0x0f71), .word 0x72 (.grp .grp13_0x0f72), .word 0x73 (.grp .grp14_0x0f73),
  .spec .none 0x74 "pcmpeqb" [P .q, Q .q], .spec .p66 0x74 "pcmpeqb" [V .dq, W .dq],
  .spec .none 0x75 "pcmpeqw" [P .q, Q .q], .spec .p66 0x75 "pcmpeqw" [V .dq, W .dq],
  .spec .none 0x76 "pcmpeqd" [P .q, Q .q], .spec .p66 0x76 "pcmpeqd" [V .dq, W .dq],
  .inst 0x77 "emms" [],
  .inst 0x08 "invd" [], .inst 0x09 "wbinvd" [], .word 0x0b .bad, .inst 0x0d "nop" [E .v],
  .word 0x18 (.grp .grp16_0x0f18),
  .inst 0x1f "nop" [E .v],
  .spec .none 0x28 "movaps" [V .ps, W .ps], .spec .p66 0x28 "movapd" [V .pd, W .pd],
  .spec .none 0x29 "movaps" [W .ps, V .ps], .spec .p66 0x29 "movapd" [W .pd, V .pd],
  .spec .none 0x2a "cvtpi2ps" [V .ps, Q .pi], .spec .pf3 0x2a "cvtsi2ss" [V .ss, E .q],
  .spec .p66 0x2a "cvtpi2pd" [V .pd, Q .pi], .spec .pf2 0x2a "cvtsi2sd" [V .sd, E .q],
  .spec .none 0x2b "movntps" [M .ps, V .ps], .spec .p66 0x2b "movntpd" [M .pd, V .pd],
  .spec .none 0x2c "cvttps2pi" [P .pi, W .ps], .spec .pf3 0x2c "cvttss2si" [G .q, W .sd],
  .spec .none 0x2d "cvtps2pi" [P .pi, W .ps], .spec .pf3 0x2d "cvtss2si" [G .q, W .ss],
  .spec .p66 0x2d "cvtpd2pi" [Q .pi, W .pd], .spec .pf2 0x2d "cvtsd2si" [G .q, W .sd],
  .spec .none 0x2e "ucomiss" [V .ss, W .ss], .spec .p66 0x2e "ucomisd" [V .sd, W .sd],
  .spec .none 0x2f "comiss" [V .ss, W .ss], .spec .p66 0x2f "comisd" [V .sd, W .sd],
  .word 0x38 .escapeThreeBytesA, .word 0x3a .escapeThreeBytesB,
  .inst 0x48 "cmovs" [G .v, E .v], .inst 0x49 "cmovns" [G .v, E .v], .inst 0x4a "cmovp" [G .v, E .v],
  .inst 0x4b "cmovnp" [G .v, E .v], .inst 0x4c "cmovl" [G .v, E .v], .inst 0x4d "cmovge" [G .v, E .v],
  .inst 0x4e "cmovle" [G .v, E .v], .inst 0x4f "cmovg" [G .v, E .v],
  .spec .none 0x58 "addps" [V .ps, W .ps], .spec .pf3 0x58 "addss" [V .ss, W .ss],
  .spec .p66 0x58 "addpd" [V .pd, W .pd], .spec .pf2 0x58 "addsd" [V .sd, W .sd],
  .spec .none 0x59 "mulps" [V .ps, W .ps], .spec .pf3 0x59 "mulss" [V .ss, W .ss],
  .spec .p66 0x59 "mulpd" [V .pd, W .pd], .spec .pf2 0x59 "mulsd" [V .sd, W .sd],
  .spec .none 0x5a "cvtps2pd" [V .pd, W .ps], .spec .pf3 0x5a "cvtss2sd" [V .sd, W .ss],
  .spec .p66 0x5a "cvtpd2ps" [V .ps, W .pd], .spec .pf2 0x5a "cvtsd2ss" [V .sd, W .sd],
  .spec .none 0x5b "cvtdq2ps" [V .ps, W .dq], .spec .p66 0x5b "cvtps2dq" [V .dq, W .ps],
  .spec .pf3 0x5b "cvttps2dq" [V .dq, W .ps],
  .spec .none 0x5c "subps" [V .ps, W .ps], .spec .pf3 0x5c "subss" [V .ss, W .ss],
  .spec .p66 0x5c "subpd" [V .pd, W .pd], .spec .pf2 0x5c "subsd" [V .sd, W .sd],
  .spec .none 0x5d "minps" [V .ps, W .ps], .spec .pf3 0x5d "minss" [V .ss, W .ss],
  .spec .p66 0x5d "minpd" [V .pd, W .pd], .spec .pf2 0x5d "minsd" [V .sd, W .sd],
  .spec .none 0x5e "divps" [V .ps, W .ps], .spec .pf3 0x5e "divss" [V .ss, W .ss],
  .spec .p66 0x5e "difpd" [V .pd, W .pd], .spec .pf2 0x5e "divsd" [V .sd, W .sd],
  .spec .none 0x5f "maxps" [V .ps, W .ps], .spec .pf3 0x5f "maxss" [V .ss, W .ss],
  .spec .p66 0x5f "maxpd" [V .pd, W .pd], .spec .pf2 0x5f "maxsd" [V .sd, W .sd],
  .spec .none 0x68 "punpckhbw" [P .q, Q .d], .spec .p66 0x68 "punpckhbw" [V .dq, W .dq],
  .spec .none 0x69 "punpckhwd" [P .q, D .q], .spec .p66 0x69 "punpckhwd" [V .dq, W .dq],
  .spec .none 0x6a "punpkchdq" [P .q, Q .d], .spec .p66 0x6a "punpckhdq" [V .dq, W .dq],
  .spec .none 0x6b "packssdw" [P .q, Q .d], .spec .p66 0x6b "packssdw" [V .dq, W .dq],
  .spec .p66 0x6c "punpcklqdq" [V .dq, W .dq],
  .spec .p66 0x6d "punpckhqdq" [V .dq, W .dq],
  .spec .none 0x6e "movdormovq" [P .d, E .q], .spec .p66 0x6e "movdormovq" [V .dq, E .q],
  .spec .none 0x6f "movdq" [P .q, Q .q], .spec .p66 0x6f "movdqa" [V .dq, W .dq],
  .spec .pf3 0x6f "movdqu" [V .dq, W .dq],
  .inst 0x78 "vmread" [E .q, G .q], .inst 0x79 "vmwrite" [G .q, E .q],
  .spec .pf2 0x7c "haddps" [V .ps, W .ps], .spec .p66 0x7c "haddpd" [V .pd, W .pd],
  .spec .pf2 0x7d "hsubps" [V .ps, W .ps], .spec .p66 0x7d "hsubpd" [V .pd, W .pd],
  .spec .none 0x7e "movdormovq" [E .q, P .d], .spec .p66 0x7e "movdormovq" [E .q, V .dq],
  .spec .pf3 0x7e "movq" [V .q, W .q],
  .spec .none 0x7f "movq" [Q .q, P .q], .spec .p66 0x7f "movdqa" [W .dq, V .dq],
  .spec .pf3 0x7f "movdqu" [W .dq, V .dq],
  .jump 0x80 "jo" [J .z], .jump 0x81 "jno" [J .z], .jump 0x82 "jb" [J .z], .jump 0x83 "jnb" [J .z],
  .jump 0x84 "je" [J .z], .jump 0x85 "jne" [J .z], .jump 0x86 "jna" [J .z], .jump 0x87 "ja" [J .z],
  .inst 0x90 "seto" [E .b], .inst 0x91 "setno" [E .b], .inst 0x92 "setb" [E .b],
  .inst 0x93 "setnb" [E .b], .inst 0x94 "sete" [E .b], .inst 0x95 "setne" [E .b],
  .inst 0x96 "setna" [E .b], .inst 0x97 "seta" [E .b],
  .inst 0xa0 "pushfs" [], .inst 0xa1 "popfs" [], .inst 0xa2 "cpuid" [], .inst 0xa3 "bt" [E .v, G .v],
  .inst 0xa4 "shld" [E .v, G .v, I .b], .inst 0xa5 "shld" [E .v, G .v, .reg "CL"],
  .inst 0xb0 "cmpxchg" [E .b, G .b], .inst 0xb1 "cmpxchg" [E .v, G .v], .inst 0xb2 "lss" [G .v, M .p],
  .inst 0xb3 "btr" [E .v, G .v], .inst 0xb4 "lfs" [G .v, M .p], .inst 0xb5 "lgs" [G .v, M .p],
  .inst 0xb6 "movzx" [G .v, E .b], .inst 0xb7 "movzx" [G .v, E .w],
  .inst 0xc0 "xadd" [E .b, G .b], .inst 0xc1 "xadd" [E .v, G .v],
  .spec .none 0xc2 "cmpps" [V .ps, W .ps, I .b], .spec .pf3 0xc2 "cmpss" [V .ss, W .ss, I .b],
  .spec .p66 0xc2 "cmppd" [V .pd, W .pd, I .b], .spec .pf2 0xc2 "cmpsd" [V .sd, W .sd, I .b],
  .inst 0xc3 "movnti" [M .q, G .q], .spec .none 0xc4 "pinsrw" [P .q, E .q, I .b],
  .spec .p66 0xc4 "pinsrw" [V .dq, E .q, I .b],
  .spec .none 0xc5 "pextrw" [G .d, N .q, I .b], .spec .p66 0xc5 "pextrw" [G .d, U .dq, I .b],
  .spec .none 0xc6 "shufps" [V .ps, W .ps, I .b], .spec .p66 0xc6 "shufpd" [V .pd, W .pd, I .b],
  .word 0xc7 (.grp .grp9_0x0fc7),
  .spec .pf2 0xd0 "addsubps" [V .ps, W .ps], .spec .p66 0xd0 "addsubpd" [V .pd, W .pd],
  .spec .none 0xd1 "psrlw" [P .q, D .q], .spec .p66 0xd1 "psrlw" [V .dq, W .dq],
  .spec .none 0xd2 "psrld" [P .q, Q .q], .spec .p66 0xd2 "psrld" [V .dq, W .dq],
  .spec .none 0xd3 "psrlq" [P .q, D .q], .spec .p66 0xd3 "parlq" [V .dq, W .dq],
  .spec .none 0xd4 "paddq" [P .q, Q .q], .spec .p66 0xd4 "paddq" [V .dq, W .dq],
  .spec .none 0xd5 "pmullw" [P .q, D .q], .spec .p66 0xd5 "pmullw" [V .dq, W .dq],
  .spec .p66 0xd6 "movq" [W .q, V .q], .spec .pf3 0xd6 "movq2dq" [V .dq, N .q],
  .spec .pf2 0xd6 "movdq2q" [P .q, U .q],
  .spec .none 0xd7 "pmovmskb" [G .d, N .q], .spec .p66 0xd7 "pmovmskb" [G .d, U .dq],
  .spec .none 0xe0 "pavgb" [P .q, Q .q], .spec .p66 0xe0 "pavgb" [V .dq, W .dq],
  .spec .none 0xe1 "psraw" [P .q, Q .q], .spec .p66 0xe1 "psraw" [V .dq, W .dq],
  .spec .none 0xe2 "psrad" [P .q, Q .q], .spec .p66 0xe2 "psrad" [V .dq, W .dq],
  .spec .none 0xe3 "pavgw" [P .q, Q .q], .spec .p66 0xe3 "pavgw" [V .dq, W .dq],
  .spec .none 0xe4 "pmulhuw" [P .q, Q .q], .spec .p66 0xe4 "pmulhuw" [V .dq, W .dq],
  .spec .none 0xe5 "pmulhw" [P .q, Q .q], .spec .p66 0xe5 "pmulhw" [V .dq, W .dq],
  .spec .pf2 0xe6 "cvtpd2dq" [V .dq, W .pd], .spec .p66 0xe6 "cvttpd2dq" [V .dq, W .pd],
  .spec .pf3 0xe6 "cvtdq2pd" [V .pd, W .dq],
  .spec .none 0xe7 "movntq" [M .q, P .q], .spec .p66 0xe7 "movntdq" [M .dq, V .dq],
  .spec .pf2 0xf0 "iddqu" [V .dq, M .dq],
  .spec .none 0xf1 "psllw" [P .q, Q .q], .spec .p66 0xf1 "psllw" [V .dq, W .dq],
  .spec .none 0xf2 "pslld" [P .q, Q .q], .spec .p66 0xf2 "pslld" [V .dq, W .dq],
  .spec .none 0xf3 "psllq" [P .q, Q .q], .spec .p66 0xf3 "psllq" [V .dq, W .dq],
  .spec .none 0xf4 "pmuludq" [P .q, Q .q], .spec .p66 0xf4 "pmuludq" [V .dq, W .dq],
  .spec .none 0xf5 "pmaddwd" [P .q, Q .q], .spec .p66 0xf5 "pmaddwd" [V .dq, W .dq],
  .spec .none 0xf6 "psadbw" [P .q, Q .q], .spec .p66 0xf6 "psadbw" [V .dq, W .dq],
  .spec .none 0xf7 "maskmovq" [P .q, N .q], .spec .p66 0xf7 "maskmovdqu" [V .dq, U .dq],
  .jump 0x88 "js" [J .z], .jump 0x89 "jns" [J .z], .jump 0x8a "jp" [J .z], .jump 0x8b "jnp" [J .z],
  .jump 0x8c "jl" [J .z], .jump 0x8d "jge" [J .z], .jump 0x8e "jle" [J .z], .jump 0x8f "jg" [J .z],
  .inst 0x98 "sets" [E .b], .inst 0x99 "setns" [E .b], .inst 0x9a "setp" [E .b],
  .inst 0x9b "setnp" [E .b], .inst 0x9c "setl" [E .b], .inst 0x9d "setge" [E .b],
  .inst 0x9e "setle" [E .b], .inst 0x9f "setg" [E .b],
  .inst 0xa8 "pushgs" [], .inst 0xa9 "popgs" [], .inst 0xaa "rsm" [], .inst 0xab "bts" [E .v, G .v],
  .inst 0xac "shrd" [E .v, G .v, I .b], .inst 0xad "shrd" [E .v, G .v, .reg "CL"], .word 0xae .xxxGrp15,
  .inst 0xaf "imul" [G .v, E .v],
  .jumps (.spec .none 0xb8 "jmpe" []), .spec .pf3 0xb8 "popcnt" [G .v, E .v],
  .word 0xb9 .bad,
  .word 0xba (.grp .grp8_0x0fba),
  .inst 0xbb "btc" [E .v, G .v], .inst 0xbc "bsf" [G .v, E .v], .inst 0xbd "bsr" [G .v, E .v],
  .inst 0xbe "movsx" [G .v, E .b], .inst 0xbf "movsx" [G .v, E .w],
  .inst 0xc8 "bswap" [.regs "rAX" "r8"], .inst 0xc9 "bswap" [.regs "rCX" "r9"],
  .inst 0xca "bswap" [.regs "rDX" "r10"], .inst 0xcb "bswap" [.regs "rBX" "r11"],
  .inst 0xcc "bswap" [.regs "rSP" "r12"], .inst 0xcd "bswap" [.regs "rBP" "r13"],
  .inst 0xce "bswap" [.regs "rSI" "r14"], .inst 0xcf "bswap" [.regs "rDI" "r15"],
  .spec .none 0xd8 "psubusb" [P .q, Q .q], .spec .p66 0xd8 "psubusb" [V .dq, W .dq],
  .spec .none 0xd9 "psubusw" [P .q, Q .q], .spec .p66 0xd9 "psubusw" [V .dq, W .dq],
  .spec .none 0xda "pminub" [P .q, Q .q], .spec .p66 0xda "pminub" [V .dq, W .dq],
  .spec .none 0xdb "pand" [P .q, Q .q], .spec .p66 0xdb "pand" [V .dq, W .dq],
  .spec .none 0xdc "paddusb" [P .q, Q .q], .spec .p66 0xdc "paddusb" [V .dq, W .dq],
  .spec .none 0xdd "paddusw" [P .q, Q .q], .spec .p66 0xdd "paddusw" [V .dq, W .dq],
  .spec .none 0xde "pmaxub" [P .q, Q .q], .spec .p66 0xde "pmaxub" [V .dq, W .dq],
  .spec .none 0xdf "pandn" [P .q, Q .q], .spec .p66 0xdf "pandn" [V .dq, W .dq],
  .spec .none 0xe8 "psubsb" [P .q, Q .q], .spec .p66 0xe8 "psubsb" [V .dq, W .dq],
  .spec .none 0xe9 "psubsw" [P .q, Q .q], .spec .p66 0xe9 "psubsw" [V .dq, W .dq],
  .spec .none 0xea "pminsw" [P .q, Q .q], .spec .p66 0xea "pminsw" [V .dq, W .dq],
  .spec .none 0xeb "por" [P .q, Q .q], .spec .p66 0xeb "por" [V .dq, W .dq],
  .spec .none 0xec "paddsb" [P .q, Q .q], .spec .p66 0xec "paddsb" [V .dq, W .dq],
  .spec .none 0xed "paddsw" [P .q, Q .q], .spec .p66 0xed "paddsw" [V .dq, W .dq],
  .spec .none 0xee "pmaxsw" [P .q, Q .q], .spec .p66 0xee "pmaxsw" [V .dq, W .dq],
  .spec .none 0xef "pxor" [P .q, Q .q], .spec .p66 0xef "pxor" [V .dq, W .dq],
  .spec .none 0xf8 "psubb" [P .q, Q .q], .spec .p66 0xf8 "psubb" [V .dq, W .dq],
  .spec .none 0xf9 "psubw" [P .q, Q .q], .spec .p66 0xf9 "psubw" [V .dq, W .dq],
  .spec .none 0xfa "psubd" [P .q, Q .q], .spec .p66 0xfa "psubd" [V .dq, W .dq],
  .spec .none 0xfb "psubq" [P .q, Q .q], .spec .p66 0xfb "psubq" [V .dq, W .dq],
  .spec .none 0xfc "paddb" [P .q, Q .q], .spec .p66 0xfc "paddb" [V .dq, W .dq],
  .spec .none 0xfd "paddw" [P .q, Q .q], .spec .p66 0xfd "paddw" [V .dq, W .dq],
  .spec .none 0xfe "paddd" [P .q, Q .q], .spec .p66 0xfe "paddd" [V .dq, W .dq]]

/-- `table threebytes_0f38`. -/
def threebytes_0f38 : List Descriptor := [
  .spec .none 0x00 "pshufb" [P .q, Q .q], .spec .p66 0x00 "pshufb" [V .dq, W .dq],
  .spec .none 0x01 "phaddw" [P .q, Q .q], .spec .p66 0x01 "phaddw" [V .dq, W .dq],
  .spec .none 0x02 "phaddd" [P .q, Q .q], .spec .p66 0x02 "phaddd" [V .dq, W .dq],
  .spec .none 0x03 "phaddsw" [P .q, Q .q], .spec .p66 0x03 "phaddsw" [V .dq, W .dq],
  .spec .none 0x04 "pmaddubsw" [P .q, Q .q], .spec .p66 0x04 "pmaddubsw" [V .dq, W .dq],
  .spec .none 0x05 "phsubw" [P .q, Q .q], .spec .p66 0x05 "phsubw" [V .dq, W .dq],
  .spec .none 0x06 "phsubd" [P .q, Q .q], .spec .p66 0x06 "phsubd" [V .dq, W .dq],
  .spec .none 0x07 "phsubsw" [P .q, Q .q], .spec .p66 0x07 "phsubsw" [V .dq, W .dq],
  .spec .p66 0x10 "pblendvb" [V .dq, W .dq], .spec .p66 0x14 "blendvps" [V .dq, W .dq],
  .spec .p66 0x15 "blendvpd" [V .dq, W .dq], .spec .p66 0x17 "ptest" [V .dq, W .dq],
  .spec .p66 0x20 "pmovsxbw" [V .dq, W .q], .spec .p66 0x21 "pmovsxbd" [V .dq, W .q],
  .spec .p66 0x22 "pmovsxbq" [V .dq, W .q], .spec .p66 0x23 "pmovsxwd" [V .dq, W .q],
  .spec .p66 0x24 "pmovsxwq" [V .dq, W .q], .spec .p66 0x25 "pmovsxdq" [V .dq, W .q],
  .spec .p66 0x30 "pmovsxbw" [V .dq, W .q], .spec .p66 0x31 "pmovsxbd" [V .dq, W .q],
  .spec .p66 0x32 "pmovsxbq" [V .dq, W .q], .spec .p66 0x33 "pmovsxwd" [V .dq, W .q],
  .spec .p66 0x34 "pmovsxwq" [V .dq, W .q], .spec .p66 0x35 "pmovsxdq" [V .dq, W .q],
  .spec .p66 0x37 "pcmpgtq" [V .dq, W .dq],
  .spec .p66 0x40 "pmulld" [V .dq, W .dq], .spec .p66 0x41 "phminposuw" [V .dq, W .dq],
  .spec .p66 0x80 "nvept" [G .q, M .dq], .spec .p66 0x81 "nvvpid" [G .q, M .dq],
  .spec .none 0xf0 "movbe" [G .v, M .v], .spec .pf2 0xf0 "crc32b" [G .d, E .b],
  .spec .none 0xf1 "movbe" [M .v, G .v], .spec .pf2 0xf1 "crc23l" [G .d, E .v],
  .spec .none 0x08 "psignb" [P .q, Q .q], .spec .p66 0x08 "psignb" [V .dq, W .dq],
  .spec .none 0x09 "psignw" [P .q, Q .q], .spec .p66 0x09 "psignw" [V .dq, W .dq],
  .spec .none 0x0a "psignd" [P .q, Q .q], .spec .p66 0x0a "psignd" [V .dq, W .dq],
  .spec .none 0x0b "pmulhrsw" [P .q, Q .q], .spec .p66 0x0b "pmulhrsw" [V .dq, W .dq],
  .spec .none 0x1c "pabsb" [P .q, Q .q], .spec .p66 0x1c "pabsb" [V .dq, W .dq],
  .spec .none 0x1d "pabsw" [P .q, Q .q], .spec .p66 0x1d "pabsw" [V .dq, W .dq],
  .spec .none 0x1e "pabsd" [P .q, Q .q], .spec .p66 0x1e "pabsd" [V .dq, W .dq],
  .spec .p66 0x28 "pmuldq" [V .dq, W .dq], .spec .p66 0x29 "pcmpeqq" [V .dq, W .dq],
  .spec .p66 0x2a "movntdqa" [V .dq, M .dq], .spec .p66 0x2b "packusdw" [V .dq, W .dq],
  .spec .p66 0x38 "pminsb" [V .dq, W .dq], .spec .p66 0x39 "pminsd" [V .dq, W .dq],
  .spec .p66 0x3a "pminuw" [V .dq, W .dq], .spec .p66 0x3b "pminud" [V .dq, W .dq],
  .spec .p66 0x3c "pmaxsb" [V .dq, W .dq], .spec .p66 0x3d "pmaxsd" [V .dq, W .dq],
  .spec .p66 0x3e "pmaxuw" [V .dq, W .dq], .spec .p66 0x3f "pmaxud" [V .dq, W .dq]]

/-- `table threebytes_0f3a`. -/
def threebytes_0f3a : List Descriptor := [
  .spec .p66 0x14 "pextrb" [E .b, V .dq, I .b], .spec .p66 0x15 "pextrw" [E .w, V .dq, I .b],
  .spec .p66 0x16 "pextrq" [E .q, V .dq, I .b], .spec .p66 0x17 "extractps" [E .d, V .dq, I .b],
  .spec .p66 0x20 "pinsrb" [V .dq, R .q, I .b], .spec .p66 0x21 "insertps" [V .dq, E .d, I .b],
  .spec .p66 0x22 "pinsrq" [V .dq, E .q, I .b],
  .spec .p66 0x40 "dpps" [V .dq, W .dq, I .b], .spec .p66 0x41 "dppd" [V .dq, W .dq, I .b],
  .spec .p66 0x42 "mpsadbw" [V .dq, W .dq, I .b],
  .spec .p66 0x60 "pcmpestrm" [V .dq, W .dq, I .b], .spec .p66 0x61 "pcmpestri" [V .dq, W .dq, I .b],
  .spec .p66 0x62 "pcmpistrm" [V .dq, W .dq, I .b], .spec .p66 0x63 "pcmpistri" [V .dq, W .dq, I .b],
  .spec .p66 0x08 "roundps" [V .dq, W .dq, I .b], .spec .p66 0x09 "roundpd" [V .dq, W .dq, I .b],
  .spec .p66 0x0a "roundss" [V .ss, W .ss, I .b], .spec .p66 0x0b "roundsd" [V .sd, W .sd, I .b],
  .spec .p66 0x0c "blendps" [V .dq, W .dq, I .b], .spec .p66 0x0d "blendpd" [V .dq, W .dq, I .b],
  .spec .p66 0x0e "pblendw" [V .dq, W .dq, I .b], .spec .none 0x0f "palignr" [P .q, Q .q, I .b],
  .spec .p66 0x0f "palignr" [V .dq, W .dq, I .b]]

/-- The tables of the groups, by the `reg` field of ModRM. -/
def groups : List (GroupName × List Descriptor) := [
  (.grp8_0x0fba, [.inst 0x04 "bt" [E .v, I .b], .inst 0x05 "bts" [E .v, I .b],
    .inst 0x06 "btr" [E .v, I .b], .inst 0x07 "btc" [E .v, I .b]]),
  (.grp15_0x0fae_mem, [.inst 0x00 "fxsave" [E .v], .inst 0x01 "fxrstor" [E .v],
    .inst 0x02 "ldmxcsr" [E .v], .inst 0x03 "stmxcsr" [E .v], .inst 0x04 "xsave" [E .v],
    .inst 0x05 "xrstor" [E .v], .inst 0x07 "clflush" [E .v]]),
  (.grp15_0x0fae_11b, [.inst 0x05 "lfence" [], .inst 0x06 "mfence" [], .inst 0x07 "sfence" []]),
  (.grp9_0x0fc7, [.inst 0x01 "cmpxchg8b" [M .q], .spec .none 0x06 "vmptrld" [M .q],
    .spec .p66 0x06 "vmclear" [M .q], .spec .pf3 0x06 "vmxon" [M .q], .inst 0x07 "vmptrst" [M .q]]),
  (.grp1_0x80, [.inst 0x00 "add" [E .b, I .b], .inst 0x01 "or" [E .b, I .b],
    .inst 0x02 "adc" [E .b, I .b], .inst 0x03 "sbb" [E .b, I .b], .inst 0x04 "and" [E .b, I .b],
    .inst 0x05 "sub" [E .b, I .b], .inst 0x06 "xor" [E .b, I .b], .inst 0x07 "cmp" [E .b, I .b]]),
  (.grp1_0x81, [.inst 0x00 "add" [E .v, I .z], .inst 0x01 "or" [E .v, I .z],
    .inst 0x02 "adc" [E .v, I .z], .inst 0x03 "sbb" [E .v, I .z], .inst 0x04 "and" [E .v, I .z],
    .inst 0x05 "sub" [E .v, I .z], .inst 0x06 "xor" [E .v, I .z], .inst 0x07 "cmp" [E .v, I .z]]),
  (.grp1_0x82, [.inst 0x00 "add" [E .b, I .b], .inst 0x01 "or" [E .b, I .b],
    .inst 0x02 "adc" [E .b, I .b], .inst 0x03 "sbb" [E .b, I .b], .inst 0x04 "and" [E .b, I .b],
    .inst 0x05 "sub" [E .b, I .b], .inst 0x06 "xor" [E .b, I .b], .inst 0x07 "cmp" [E .b, I .b]]),
  (.grp1_0x83, [.inst 0x00 "add" [E .v, I .b], .inst 0x01 "or" [E .v, I .b],
    .inst 0x02 "adc" [E .v, I .b], .inst 0x03 "sbb" [E .v, I .b], .inst 0x04 "and" [E .v, I .b],
    .inst 0x05 "sub" [E .v, I .b], .inst 0x06 "xor" [E .v, I .b], .inst 0x07 "cmp" [E .v, I .b]]),
  (.grp1A_0x8f, [.inst 0x00 "pop" [E .v]]),
  (.grp2_0xc0, [.inst 0x00 "rol" [E .b, I .b], .inst 0x01 "ror" [E .b, I .b],
    .inst 0x02 "rcl" [E .b, I .b], .inst 0x03 "rcr" [E .b, I .b], .inst 0x04 "shl" [E .b, I .b],
    .inst 0x05 "shr" [E .b, I .b], .inst 0x07 "sar" [E .b, I .b]]),
  (.grp2_0xc1, [.inst 0x00 "rol" [E .v, I .b], .inst 0x01 "ror" [E .v, I .b],
    .inst 0x02 "rcl" [E .v, I .b], .inst 0x03 "rcr" [E .v, I .b], .inst 0x04 "shl" [E .v, I .b],
    .inst 0x05 "shr" [E .v, I .b], .inst 0x07 "sar" [E .v, I .b]]),
  (.grp2_0xd0, [.inst 0x00 "rol" [E .b, .constant 1], .inst 0x01 "ror" [E .b, .constant 1],
    .inst 0x02 "rcl" [E .b, .constant 1], .inst 0x03 "rcr" [E .b, .constant 1],
    .inst 0x04 "shl" [E .b, .constant 1], .inst 0x05 "shr" [E .b, .constant 1],
    .inst 0x07 "sar" [E .b, .constant 1]]),
  (.grp2_0xd1, [.inst 0x00 "rol" [E .v, .constant 1], .inst 0x01 "ror" [E .v, .constant 1],
    .inst 0x02 "rcl" [E .v, .constant 1], .inst 0x03 "rcr" [E .v, .constant 1],
    .inst 0x04 "shl" [E .v, .constant 1], .inst 0x05 "shr" [E .v, .constant 1],
    .inst 0x07 "sar" [E .v, .constant 1]]),
  (.grp2_0xd2, [.inst 0x00 "rol" [E .b, .reg "CL"], .inst 0x01 "ror" [E .b, .reg "CL"],
    .inst 0x02 "rcl" [E .b, .reg "CL"], .inst 0x03 "rcr" [E .b, .reg "CL"],
    .inst 0x04 "shl" [E .b, .reg "CL"], .inst 0x05 "shr" [E .b, .reg "CL"],
    .inst 0x07 "sar" [E .b, .reg "CL"]]),
  (.grp2_0xd3, [.inst 0x00 "rol" [E .v, .reg "CL"], .inst 0x01 "ror" [E .v, .reg "CL"],
    .inst 0x02 "rcl" [E .v, .reg "CL"], .inst 0x03 "rcr" [E .v, .reg "CL"],
    .inst 0x04 "shl" [E .v, .reg "CL"], .inst 0x05 "shr" [E .v, .reg "CL"],
    .inst 0x07 "sar" [E .v, .reg "CL"]]),
  (.grp11_0xc6, [.inst 0x00 "mov" [E .b, I .b]]),
  (.grp11_0xc7, [.inst 0x00 "mov" [E .v, I .z]]),
  (.grp3_0xf6, [.inst 0x00 "test" [E .b, I .b], .inst 0x02 "not" [E .b], .inst 0x03 "neg" [E .b],
    .inst 0x04 "mul" [E .b, .reg "AL"], .inst 0x05 "imul" [E .b, .reg "AL"],
    .inst 0x06 "div" [E .b, .reg "AL"], .inst 0x07 "idiv" [E .b, .reg "AL"]]),
  (.grp3_0xf7, [.inst 0x00 "test" [E .v, I .z], .inst 0x02 "not" [E .v], .inst 0x03 "neg" [E .v],
    .inst 0x04 "mul" [E .v, .reg "rAX"], .inst 0x05 "imul" [E .v, .reg "rAX"],
    .inst 0x06 "div" [E .v, .reg "rAX"], .inst 0x07 "idiv" [E .v, .reg "rAX"]]),
  (.grp4_0xfe, [.inst 0x00 "inc" [E .b], .inst 0x01 "dec" [E .b]]),
  (.grp5_0xff, [.inst 0x00 "inc" [E .v], .inst 0x01 "dec" [E .v], .jump 0x02 "calln" [E .v],
    .jump 0x03 "callf" [E .p], .jump 0x04 "jmpn" [E .v], .jump 0x05 "jmpf" [E .p],
    .inst 0x06 "push" [E .v]]),
  (.grp6_0x0f00, [.inst 0x00 "sldt" [E .w], .inst 0x01 "str" [E .w], .inst 0x02 "lldt" [E .w],
    .inst 0x03 "ltr" [E .w], .inst 0x04 "verr" [E .w], .inst 0x05 "verw" [E .w]]),
  (.grp7_0x0f01_mem, [.inst 0x00 "sgdt" [M .s], .inst 0x01 "sidt" [M .s], .inst 0x02 "lgdt" [M .s],
    .inst 0x03 "lidt" [M .s], .inst 0x04 "smsw" [E .v], .inst 0x06 "lmsw" [E .w],
    .inst 0x07 "invlpg" [M .b]]),
  (.grp7_0x0f01_11b, [.inst 0x00 "vmxxx" [], .inst 0x01 "monitorormwait" [],
    .inst 0x02 "xgetorsetbv" [], .only64 (.inst 0x07 "swapgs" [])]),
  (.grp12_0x0f71, [.spec .none 0x02 "psrlw" [N .q, I .b], .spec .p66 0x02 "psrlw" [U .dq, I .b],
    .spec .none 0x04 "psraw" [N .q, I .b], .spec .p66 0x04 "psraw" [U .dq, I .b],
    .spec .none 0x06 "psllw" [N .q, I .b], .spec .p66 0x06 "psllw" [U .dq, I .b]]),
  (.grp13_0x0f72, [.spec .none 0x02 "psrld" [N .q, I .b], .spec .p66 0x02 "psrld" [U .dq, I .b],
    .spec .none 0x04 "psrad" [N .q, I .b], .spec .p66 0x04 "psrad" [U .dq, I .b],
    .spec .none 0x06 "pslld" [N .q, I .b], .spec .p66 0x06 "pslld" [U .dq, I .b]]),
  (.grp14_0x0f73, [.spec .none 0x02 "psrlq" [N .q, I .b], .spec .p66 0x02 "psrlq" [U .dq, I .b],
    .spec .p66 0x03 "psrldq" [U .dq, I .b], .spec .none 0x06 "psllq" [N .q, I .b],
    .spec .p66 0x06 "psllq" [U .dq, I .b], .spec .p66 0x07 "pslldq" [U .dq, I .b]]),
  (.grp16_0x0f18, [.upTo (.inst 0x00 "prefetch" [M .b]) 0x03])]

/-- `x86_instructions.tbl`. -/
def x86Instructions : List Section :=
  [(.onebyte, onebyte), (.twobytes, twobytes), (.threebytes_0f38, threebytes_0f38),
    (.threebytes_0f3a, threebytes_0f3a)] ++ groups.map fun g => (.group g.1, g.2)

/-- `x86_opcode.c.h`: the tables the builder prints. -/
def x86Opcode : Tables := ((buildTables x86Instructions).getD .empty).printTable

theorem x86Opcode_eq :
    x86Opcode = ((buildTables x86Instructions).getD .empty).printTable := rfl

attribute [irreducible] x86Opcode

end Snitchaser.Decoder
