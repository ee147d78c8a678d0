import Mathlib.Data.List.GetD
import Mathlib.Data.Set.Function
import Mathlib.Tactic.Ring
import Snitchaser.Foundation.LittleEndian
import Snitchaser.Foundation.X86

/-!
# The state of a 32-bit x86 processor

Registers, status flags and memory, with the instructions that save and restore them:
pushes and pops, `lahf` and `sahf`, `pushf` and `popf`, `pusha` and `popa`.

The main rule is `popa_popf`: a routine called between `pusha`, `pushf` and `popf`,
`popa` leaves registers and flags as they were, if it keeps the stack pointer and what
is on the stack.
-/

namespace Foundation.X86

/-! ### Memory -/

/-- Bytes are written from an address on. -/
def store (m : Mem) (a : BitVec 32) (bytes : List (BitVec 8)) : Mem :=
  fun x => bytes.getD (x - a).toNat (m x)

/-- A word is written. -/
def store32 (m : Mem) (a v : BitVec 32) : Mem := store m a (leBytes v)

/-- The offset of an address from another one. -/
theorem offset_add (a : BitVec 32) {i : ℕ} (hi : i < 2 ^ 32) :
    (a + BitVec.ofNat 32 i - a).toNat = i := by
  rw [BitVec.add_comm, BitVec.add_sub_cancel, BitVec.toNat_ofNat, Nat.mod_eq_of_lt hi]

theorem store_outside (m : Mem) {a x : BitVec 32} {bytes : List (BitVec 8)}
    (h : bytes.length ≤ (x - a).toNat) : store m a bytes x = m x :=
  List.getD_eq_default _ _ h

theorem store_inside (m : Mem) (a : BitVec 32) {bytes : List (BitVec 8)} {i : ℕ}
    (hi : i < bytes.length) (hlen : bytes.length ≤ 2 ^ 32) (d : BitVec 8) :
    store m a bytes (a + BitVec.ofNat 32 i) = bytes.getD i d := by
  unfold store
  rw [offset_add a (hi.trans_le hlen), List.getD_eq_getElem _ _ hi, List.getD_eq_getElem _ _ hi]

/-- A load sees four bytes. -/
theorem load32_congr {m m' : Mem} {a : BitVec 32}
    (h : ∀ i < 4, m (a + BitVec.ofNat 32 i) = m' (a + BitVec.ofNat 32 i)) :
    load32 m a = load32 m' a := by
  have h₀ : m (a + 0) = m' (a + 0) := h 0 (by decide)
  have h₁ : m (a + 1) = m' (a + 1) := h 1 (by decide)
  have h₂ : m (a + 2) = m' (a + 2) := h 2 (by decide)
  have h₃ : m (a + 3) = m' (a + 3) := h 3 (by decide)
  rw [add_zero] at h₀
  simp only [load32, h₀, h₁, h₂, h₃]

/-- A load is the little-endian word of its bytes. -/
theorem load32_eq_leWord {m : Mem} {a : BitVec 32} (bytes : List (BitVec 8))
    (h : ∀ i < 4, m (a + BitVec.ofNat 32 i) = bytes.getD i 0) : load32 m a = leWord bytes := by
  have h₀ : m (a + 0) = bytes.getD 0 0 := h 0 (by decide)
  have h₁ : m (a + 1) = bytes.getD 1 0 := h 1 (by decide)
  have h₂ : m (a + 2) = bytes.getD 2 0 := h 2 (by decide)
  have h₃ : m (a + 3) = bytes.getD 3 0 := h 3 (by decide)
  rw [add_zero] at h₀
  simp only [load32, leWord, h₀, h₁, h₂, h₃]

/-- **What was written is read back**, behind the first bytes, too. -/
theorem load32_store (m : Mem) (a : BitVec 32) (front : List (BitVec 8)) (v : BitVec 32)
    (back : List (BitVec 8)) (hlen : (front ++ leBytes v ++ back).length ≤ 2 ^ 32) :
    load32 (store m a (front ++ leBytes v ++ back)) (a + BitVec.ofNat 32 front.length) = v := by
  refine Eq.trans (load32_eq_leWord (leBytes v ++ back) ?_) (leWord_leBytes_append v back)
  intro i hi
  have hin : front.length + i < (front ++ leBytes v ++ back).length := by
    simp only [List.length_append, length_leBytes]
    omega
  rw [BitVec.add_assoc, ← BitVec.ofNat_add, store_inside m a hin hlen 0, List.append_assoc,
    List.getD_append_right _ _ _ _ (Nat.le_add_right _ _), Nat.add_sub_cancel_left]

/-- A word of a structure that was written. -/
theorem load32_store_words (m : Mem) (a : BitVec 32) (front : List (BitVec 32)) (v : BitVec 32)
    (back : List (BitVec 32)) (hlen : 4 * (front ++ v :: back).length ≤ 2 ^ 32) :
    load32 (store m a (leBytesList (front ++ v :: back))) (a + BitVec.ofNat 32 (4 * front.length)) = v := by
  rw [leBytesList_append, leBytesList_cons, ← List.append_assoc, ← length_leBytesList front]
  refine load32_store m a _ v _ ?_
  simp only [List.length_append, length_leBytesList, length_leBytes, List.length_cons] at hlen ⊢
  omega

/-- A structure of words at an address. -/
def loadWords (m : Mem) (a : BitVec 32) (n : ℕ) : List (BitVec 32) :=
  (List.range n).map fun i => load32 m (a + BitVec.ofNat 32 (4 * i))

/-- **A structure that was written is read back.** -/
theorem loadWords_store (m : Mem) (a : BitVec 32) (ws : List (BitVec 32))
    (hlen : 4 * ws.length ≤ 2 ^ 32) : loadWords (store m a (leBytesList ws)) a ws.length = ws := by
  refine List.ext_getElem (by simp [loadWords]) fun i hi hi' => ?_
  have hsplit : ws.take i ++ ws[i] :: ws.drop (i + 1) = ws := by
    rw [← List.drop_eq_getElem_cons hi', List.take_append_drop]
  have hload := load32_store_words m a (ws.take i) ws[i] (ws.drop (i + 1)) (by rwa [hsplit])
  rw [hsplit, List.length_take, Nat.min_eq_left hi'.le] at hload
  simpa [loadWords] using hload

/-- A load that keeps clear of what is written. -/
theorem load32_store_of_disjoint (m : Mem) {a b : BitVec 32} {bytes : List (BitVec 8)}
    (hfrom : bytes.length ≤ (b - a).toNat) (hto : (b - a).toNat + 4 ≤ 2 ^ 32) :
    load32 (store m a bytes) b = load32 m b := by
  apply load32_congr
  intro i hi
  apply store_outside
  have : b + BitVec.ofNat 32 i - a = b - a + BitVec.ofNat 32 i := by
    rw [BitVec.sub_eq_add_neg, BitVec.sub_eq_add_neg, BitVec.add_assoc, BitVec.add_assoc,
      BitVec.add_comm (BitVec.ofNat 32 i)]
  rw [this, BitVec.toNat_add, BitVec.toNat_ofNat, Nat.mod_eq_of_lt (show i < 2 ^ 32 by omega),
    Nat.mod_eq_of_lt (by omega)]
  omega

@[simp] theorem load32_store32 (m : Mem) (a v : BitVec 32) : load32 (store32 m a v) a = v := by
  simpa [store32] using load32_store m a [] v [] (by simp)

/-- Words at distances that differ by a word or more. -/
theorem load32_store32_add (m : Mem) (a v : BitVec 32) {i j : ℕ} (hi : i < 2 ^ 31) (hj : j < 2 ^ 31)
    (h : i + 4 ≤ j ∨ j + 4 ≤ i) :
    load32 (store32 m (a + BitVec.ofNat 32 i) v) (a + BitVec.ofNat 32 j) =
      load32 m (a + BitVec.ofNat 32 j) := by
  have hsub : a + BitVec.ofNat 32 j - (a + BitVec.ofNat 32 i) = BitVec.ofNat 32 j - BitVec.ofNat 32 i := by
    ring
  have hoff : (a + BitVec.ofNat 32 j - (a + BitVec.ofNat 32 i)).toNat = (2 ^ 32 - i + j) % 2 ^ 32 := by
    rw [hsub, BitVec.toNat_sub, BitVec.toNat_ofNat, BitVec.toNat_ofNat,
      Nat.mod_eq_of_lt (show i < 2 ^ 32 by omega), Nat.mod_eq_of_lt (show j < 2 ^ 32 by omega)]
  apply load32_store_of_disjoint
  · rw [hoff, length_leBytes]
    omega
  · rw [hoff]
    omega

/-- Two writes that meet are one. -/
theorem store_append (m : Mem) (a : BitVec 32) (front back : List (BitVec 8)) :
    store (store m (a + BitVec.ofNat 32 front.length) back) a front = store m a (front ++ back) := by
  funext x
  unfold store
  by_cases hx : (x - a).toNat < front.length
  · rw [List.getD_eq_getElem _ _ hx, List.getD_append _ _ _ _ hx, List.getD_eq_getElem _ _ hx]
  · rw [not_lt] at hx
    rw [List.getD_eq_default _ _ hx, List.getD_append_right _ _ _ _ hx]
    have hlen := (x - a).isLt
    congr 1
    rw [← BitVec.sub_sub, BitVec.toNat_sub_of_le, BitVec.toNat_ofNat, Nat.mod_eq_of_lt (by omega)]
    rw [BitVec.le_def, BitVec.toNat_ofNat, Nat.mod_eq_of_lt (by omega)]
    exact hx

/-- The offset of an address from a later one. -/
theorem offset_sub (a x : BitVec 32) (n : ℕ) : (x - (a + BitVec.ofNat 32 n)).toNat =
    (2 ^ 32 - n % 2 ^ 32 + (x - a).toNat) % 2 ^ 32 := by
  rw [← BitVec.sub_sub, BitVec.toNat_sub, BitVec.toNat_ofNat]

/-- Two writes that meet are one, in the other order. -/
theorem store_append_right (m : Mem) (a : BitVec 32) (front back : List (BitVec 8))
    (hlen : (front ++ back).length ≤ 2 ^ 32) :
    store (store m a front) (a + BitVec.ofNat 32 front.length) back = store m a (front ++ back) := by
  rw [List.length_append] at hlen
  funext x
  have hx := (x - a).isLt
  have hoff := offset_sub a x front.length
  unfold store
  by_cases hlt : (x - a).toNat < front.length
  · rw [List.getD_append _ _ _ _ hlt, List.getD_eq_default back _ (by omega)]
  · rw [not_lt] at hlt
    rw [List.getD_append_right _ _ _ _ hlt, List.getD_eq_default front _ hlt]
    congr 1
    omega

/-- A write in two parts. -/
theorem store_take_drop (m : Mem) (a : BitVec 32) {data : List (BitVec 8)} {k : ℕ}
    (hk : k ≤ data.length) (hlen : data.length ≤ 2 ^ 32) :
    store (store m a (data.take k)) (a + BitVec.ofNat 32 k) (data.drop k) = store m a data := by
  have hfront : (data.take k).length = k := by
    rw [List.length_take, Nat.min_eq_left hk]
  have hjoin := store_append_right m a (data.take k) (data.drop k)
  rw [hfront, List.take_append_drop] at hjoin
  exact hjoin hlen

/-- Bytes inside of what was written are written over. -/
theorem store_store_inside (m : Mem) (a : BitVec 32) (front : List (BitVec 8))
    {mid mid' : List (BitVec 8)} (hmid : mid'.length = mid.length) (back : List (BitVec 8))
    (hlen : (front ++ mid ++ back).length ≤ 2 ^ 32) :
    store (store m a (front ++ mid ++ back)) (a + BitVec.ofNat 32 front.length) mid' =
      store m a (front ++ mid' ++ back) := by
  simp only [List.length_append] at hlen
  funext x
  have hx := (x - a).isLt
  have hoff := offset_sub a x front.length
  unfold store
  by_cases hfront : (x - a).toNat < front.length
  · rw [List.getD_eq_default mid' _ (by omega)]
    simp only [List.append_assoc, List.getD_append _ _ _ _ hfront]
  · rw [not_lt] at hfront
    have hsub : (x - (a + BitVec.ofNat 32 front.length)).toNat = (x - a).toNat - front.length := by
      omega
    rw [hsub]
    simp only [List.append_assoc, List.getD_append_right _ _ _ _ hfront]
    by_cases hin : (x - a).toNat - front.length < mid'.length
    · rw [List.getD_append _ _ _ _ hin, List.getD_eq_getElem _ _ hin, List.getD_eq_getElem _ _ hin]
    · rw [not_lt] at hin
      rw [List.getD_eq_default mid' _ hin, List.getD_append_right _ _ _ _ hin,
        List.getD_append_right _ _ _ _ (hmid ▸ hin), hmid]

/-- Some bytes of memory. -/
def loadBytes (m : Mem) (a : BitVec 32) (n : ℕ) : List (BitVec 8) :=
  (List.range n).map fun i => m (a + BitVec.ofNat 32 i)

@[simp] theorem length_loadBytes (m : Mem) (a : BitVec 32) (n : ℕ) : (loadBytes m a n).length = n := by
  simp [loadBytes]

theorem loadBytes_add (m : Mem) (a : BitVec 32) (k n : ℕ) :
    loadBytes m a (k + n) = loadBytes m a k ++ loadBytes m (a + BitVec.ofNat 32 k) n := by
  unfold loadBytes
  rw [List.range_add, List.map_append, List.map_map]
  congr 1
  refine List.map_congr_left fun i _ => ?_
  rw [Function.comp_apply, BitVec.ofNat_add, BitVec.add_assoc]

theorem leBytes_load32 (m : Mem) (a : BitVec 32) : leBytes (load32 m a) = loadBytes m a 4 := by
  rw [load32, leBytes_append]
  simp [loadBytes, List.range_succ]

/-- Writing what is there changes nothing. -/
theorem store_loadBytes (m : Mem) (a : BitVec 32) (n : ℕ) : store m a (loadBytes m a n) = m := by
  funext x
  by_cases hx : (x - a).toNat < n
  · rw [store, List.getD_eq_getElem _ _ (by simpa using hx)]
    simp only [loadBytes, List.getElem_map, List.getElem_range]
    rw [BitVec.ofNat_toNat, BitVec.setWidth_eq, BitVec.add_comm, BitVec.sub_add_cancel]
  · exact store_outside m (by simpa using hx)

theorem loadBytes_store (m : Mem) (a : BitVec 32) {bytes : List (BitVec 8)}
    (hlen : bytes.length ≤ 2 ^ 32) : loadBytes (store m a bytes) a bytes.length = bytes := by
  refine List.ext_getElem (by simp) fun i hi hi' => ?_
  simp only [loadBytes, List.getElem_map, List.getElem_range]
  rw [store_inside m a hi' hlen 0, List.getD_eq_getElem _ _ hi']

/-- Writing within a set changes nothing outside. -/
theorem store_eqOn {s : Set (BitVec 32)} (m : Mem) {a : BitVec 32} {bytes : List (BitVec 8)}
    (h : ∀ i < bytes.length, a + BitVec.ofNat 32 i ∈ s) : Set.EqOn (store m a bytes) m sᶜ := by
  intro x hx
  apply store_outside
  by_contra hlt
  rw [not_le] at hlt
  apply hx
  have := h _ hlt
  rwa [BitVec.ofNat_toNat, BitVec.setWidth_eq, BitVec.add_comm, BitVec.sub_add_cancel] at this

/-- The same bytes written to memories that agree on a set. -/
theorem store_congr {s : Set (BitVec 32)} {m m' : Mem} (h : Set.EqOn m m' s) (a : BitVec 32)
    (bytes : List (BitVec 8)) : Set.EqOn (store m a bytes) (store m' a bytes) s := by
  intro x hx
  unfold store
  rw [h hx]

/-! ### Flags -/

/-- The flags after an addition. -/
def addFlags (x y : BitVec 32) : Flags where
  cf := x.uaddOverflow y
  pf := ((List.range 8).countP (x + y).getLsbD) % 2 == 0
  af := decide (16 ≤ x.toNat % 16 + y.toNat % 16)
  zf := x + y == 0
  sf := (x + y).msb
  of := x.saddOverflow y

/-- The flags after a subtraction. -/
def subFlags (x y : BitVec 32) : Flags where
  cf := x.usubOverflow y
  pf := ((List.range 8).countP (x - y).getLsbD) % 2 == 0
  af := decide (x.toNat % 16 < y.toNat % 16)
  zf := x - y == 0
  sf := (x - y).msb
  of := x.ssubOverflow y

/-- The flags as `lahf` puts them: all but the overflow flag. -/
def Flags.toByte (f : Flags) : BitVec 8 :=
  BitVec.ofBoolListLE [f.cf, true, f.pf, false, f.af, false, f.zf, f.sf]

/-- `sahf`: the overflow flag is kept. -/
def Flags.sahf (f : Flags) (ah : BitVec 8) : Flags where
  cf := ah.getLsbD 0
  pf := ah.getLsbD 2
  af := ah.getLsbD 4
  zf := ah.getLsbD 6
  sf := ah.getLsbD 7
  of := f.of

/-- The flags in the word that `pushf` pushes. The other flags of that word are not
status flags; the reserved bit 1 is set. -/
def Flags.toWord (f : Flags) : BitVec 32 :=
  BitVec.setWidth 32 (BitVec.ofBoolListLE
    [f.cf, true, f.pf, false, f.af, false, f.zf, f.sf, false, false, false, f.of])

/-- The flags `popf` takes from a word. -/
def Flags.ofWord (w : BitVec 32) : Flags where
  cf := w.getLsbD 0
  pf := w.getLsbD 2
  af := w.getLsbD 4
  zf := w.getLsbD 6
  sf := w.getLsbD 7
  of := w.getLsbD 11

@[simp] theorem Flags.ofWord_toWord (f : Flags) : Flags.ofWord f.toWord = f := by
  obtain ⟨cf, pf, af, zf, sf, of⟩ := f
  revert cf pf af zf sf of
  decide

/-- **`sahf` after `lahf`** brings all flags back but one. -/
@[simp] theorem Flags.sahf_toByte (f g : Flags) : f.sahf g.toByte = { g with of := f.of } := by
  obtain ⟨cf, pf, af, zf, sf, of⟩ := g
  unfold Flags.sahf Flags.toByte
  generalize f.of = o
  revert cf pf af zf sf of o
  decide

/-- The second byte of a register replaced. -/
def setHigh (r : BitVec 32) (b : BitVec 8) : BitVec 32 :=
  r.extractLsb' 16 16 ++ b ++ r.extractLsb' 0 8

/-- The second byte of a register. -/
def high (r : BitVec 32) : BitVec 8 := r.extractLsb' 8 8

@[simp] theorem high_setHigh (r : BitVec 32) (b : BitVec 8) : high (setHigh r b) = b := by
  apply BitVec.eq_of_getLsbD_eq
  intro i hi
  simp only [high, setHigh, BitVec.getLsbD_extractLsb', BitVec.getLsbD_append]
  simp [hi]

/-! ### The processor -/

/-- What a program sees of the processor. -/
@[ext]
structure Cpu where
  regs : Reg → BitVec 32
  flags : Flags
  mem : Mem

/-- The stack pointer. -/
def Cpu.esp (c : Cpu) : BitVec 32 := c.regs .esp

/-- A register is set. -/
def Cpu.setReg (c : Cpu) (r : Reg) (v : BitVec 32) : Cpu :=
  { c with regs := Function.update c.regs r v }

/-- Words are pushed, the first one on top. -/
def Cpu.push (c : Cpu) (ws : List (BitVec 32)) : Cpu :=
  let top := c.esp - BitVec.ofNat 32 (4 * ws.length)
  { c.setReg .esp top with mem := store c.mem top (leBytesList ws) }

/-- The stack pointer moves over `n` words. -/
def Cpu.drop (c : Cpu) (n : ℕ) : Cpu := c.setReg .esp (c.esp + BitVec.ofNat 32 (4 * n))

/-- `lahf`. -/
def Cpu.lahf (c : Cpu) : Cpu := c.setReg .eax (setHigh (c.regs .eax) c.flags.toByte)

/-- `sahf`. -/
def Cpu.sahf (c : Cpu) : Cpu := { c with flags := c.flags.sahf (high (c.regs .eax)) }

/-- `pushf`. -/
def Cpu.pushf (c : Cpu) : Cpu := c.push [c.flags.toWord]

/-- `popf`. -/
def Cpu.popf (c : Cpu) : Cpu := { c.drop 1 with flags := .ofWord (load32 c.mem c.esp) }

/-- The registers in the order `pusha` leaves them in memory. -/
def pushaOrder : List Reg := [.edi, .esi, .ebp, .esp, .ebx, .edx, .ecx, .eax]

/-- `pusha`. -/
def Cpu.pusha (c : Cpu) : Cpu := c.push (pushaOrder.map c.regs)

/-- `popa`: the stack pointer is not taken from the stack. -/
def Cpu.popa (c : Cpu) : Cpu :=
  { c with
    regs := fun r =>
      if r = .esp then c.esp + 32
      else load32 c.mem (c.esp + BitVec.ofNat 32 (4 * pushaOrder.idxOf r)) }

/-- The same registers and flags, and the same memory on a set. -/
structure Cpu.Agree (s : Set (BitVec 32)) (c c' : Cpu) : Prop where
  regs : c.regs = c'.regs
  flags : c.flags = c'.flags
  mem : Set.EqOn c.mem c'.mem s

theorem Cpu.Agree.refl (s : Set (BitVec 32)) (c : Cpu) : c.Agree s c := ⟨rfl, rfl, fun _ _ => rfl⟩

theorem Cpu.Agree.trans {s : Set (BitVec 32)} {c₁ c₂ c₃ : Cpu} (h : c₁.Agree s c₂)
    (h' : c₂.Agree s c₃) : c₁.Agree s c₃ :=
  ⟨h.regs.trans h'.regs, h.flags.trans h'.flags, h.mem.trans h'.mem⟩

theorem Cpu.Agree.symm {s : Set (BitVec 32)} {c₁ c₂ : Cpu} (h : c₁.Agree s c₂) : c₂.Agree s c₁ :=
  ⟨h.regs.symm, h.flags.symm, h.mem.symm⟩

/-- Processors that agree agree with the same ones. -/
theorem Cpu.Agree.congr {s : Set (BitVec 32)} {c₁ c₂ : Cpu} (h : c₁.Agree s c₂) (c : Cpu) :
    c₁.Agree s c ↔ c₂.Agree s c :=
  ⟨h.symm.trans, h.trans⟩

theorem Cpu.Agree.esp {s : Set (BitVec 32)} {c₁ c₂ : Cpu} (h : c₁.Agree s c₂) : c₁.esp = c₂.esp :=
  congrFun h.regs .esp

theorem Cpu.Agree.setReg {s : Set (BitVec 32)} {c₁ c₂ : Cpu} (h : c₁.Agree s c₂) (r : Reg)
    (v : BitVec 32) : (c₁.setReg r v).Agree s (c₂.setReg r v) := by
  refine ⟨?_, h.flags, h.mem⟩
  unfold Cpu.setReg
  rw [h.regs]

theorem Cpu.Agree.push {s : Set (BitVec 32)} {c₁ c₂ : Cpu} (h : c₁.Agree s c₂)
    (ws : List (BitVec 32)) : (c₁.push ws).Agree s (c₂.push ws) := by
  unfold Cpu.push
  rw [h.esp]
  exact ⟨(h.setReg _ _).regs, h.flags, store_congr h.mem _ _⟩

@[simp] theorem Cpu.setReg_flags (c : Cpu) (r : Reg) (v : BitVec 32) :
    (c.setReg r v).flags = c.flags := rfl

@[simp] theorem Cpu.setReg_mem (c : Cpu) (r : Reg) (v : BitVec 32) :
    (c.setReg r v).mem = c.mem := rfl

@[simp] theorem Cpu.push_flags (c : Cpu) (ws : List (BitVec 32)) : (c.push ws).flags = c.flags := rfl

@[simp] theorem Cpu.esp_push (c : Cpu) (ws : List (BitVec 32)) :
    (c.push ws).esp = c.esp - BitVec.ofNat 32 (4 * ws.length) := by
  simp [Cpu.push, Cpu.esp, Cpu.setReg]

theorem Cpu.push_mem (c : Cpu) (ws : List (BitVec 32)) :
    (c.push ws).mem = store c.mem (c.esp - BitVec.ofNat 32 (4 * ws.length)) (leBytesList ws) := rfl

@[simp] theorem Cpu.esp_popf (c : Cpu) : c.popf.esp = c.esp + 4 := by
  simp [Cpu.popf, Cpu.drop, Cpu.esp, Cpu.setReg]

theorem Cpu.regs_popa (c : Cpu) (r : Reg) : c.popa.regs r =
    if r = .esp then c.esp + 32
    else load32 c.mem (c.esp + BitVec.ofNat 32 (4 * pushaOrder.idxOf r)) := rfl

/-- Pushes add up. -/
theorem Cpu.push_push (c : Cpu) (ws vs : List (BitVec 32)) :
    (c.push ws).push vs = c.push (vs ++ ws) := by
  have htop : c.esp - BitVec.ofNat 32 (4 * ws.length) - BitVec.ofNat 32 (4 * vs.length) =
      c.esp - BitVec.ofNat 32 (4 * (vs ++ ws).length) := by
    rw [BitVec.sub_sub, ← BitVec.ofNat_add, List.length_append]
    congr 2
    omega
  have hbase : c.esp - BitVec.ofNat 32 (4 * ws.length) =
      c.esp - BitVec.ofNat 32 (4 * (vs ++ ws).length) + BitVec.ofNat 32 (leBytesList vs).length := by
    rw [← htop, length_leBytesList, BitVec.sub_add_cancel]
  have hmem : ((c.push ws).push vs).mem = (c.push (vs ++ ws)).mem := by
    rw [Cpu.push_mem, Cpu.push_mem, Cpu.push_mem, Cpu.esp_push, htop, leBytesList_append, hbase,
      store_append]
  have hregs : ((c.push ws).push vs).regs = (c.push (vs ++ ws)).regs := by
    simp only [Cpu.push, Cpu.setReg, Cpu.esp, Function.update_idem, Function.update_self] at htop ⊢
    rw [htop]
  exact Cpu.ext hregs rfl hmem

/-- **What was pushed is found on the stack.** -/
theorem Cpu.load32_push (c : Cpu) {ws : List (BitVec 32)} (h : 4 * ws.length ≤ 2 ^ 32) {i : ℕ}
    (hi : i < ws.length) :
    load32 (c.push ws).mem ((c.push ws).esp + BitVec.ofNat 32 (4 * i)) = ws.getD i 0 := by
  have hsplit : leBytesList ws =
      leBytesList (ws.take i) ++ leBytes (ws.getD i 0) ++ leBytesList (ws.drop (i + 1)) := by
    rw [← leBytesList_singleton, ← leBytesList_append, ← leBytesList_append, List.getD_eq_getElem _ _ hi,
      List.append_assoc, List.singleton_append, ← List.drop_eq_getElem_cons hi, List.take_append_drop]
  have hlen : 4 * i = (leBytesList (ws.take i)).length := by
    rw [length_leBytesList, List.length_take, Nat.min_eq_left hi.le]
  rw [Cpu.push_mem, Cpu.esp_push, hsplit, hlen]
  apply load32_store
  rw [← hsplit, length_leBytesList]
  exact h

/-- A push changes nothing above the stack pointer. -/
theorem Cpu.push_mem_above (c : Cpu) {ws : List (BitVec 32)} {i : ℕ}
    (h : i + 4 * ws.length < 2 ^ 32) :
    (c.push ws).mem (c.esp + BitVec.ofNat 32 i) = c.mem (c.esp + BitVec.ofNat 32 i) := by
  rw [Cpu.push_mem]
  apply store_outside
  have : c.esp + BitVec.ofNat 32 i - (c.esp - BitVec.ofNat 32 (4 * ws.length)) =
      BitVec.ofNat 32 (i + 4 * ws.length) := by
    rw [BitVec.ofNat_add]
    ring
  rw [this, BitVec.toNat_ofNat, Nat.mod_eq_of_lt h, length_leBytesList]
  omega

/-- Some bytes below an address. -/
def below (a : BitVec 32) (n : ℕ) : Set (BitVec 32) := { x | ∃ i, 1 ≤ i ∧ i ≤ n ∧ x = a - BitVec.ofNat 32 i }

theorem below_mono (a : BitVec 32) {n n' : ℕ} (h : n ≤ n') : below a n ⊆ below a n' := by
  rintro x ⟨i, hpos, hi, rfl⟩
  exact ⟨i, hpos, hi.trans h, rfl⟩

/-- What is below something further down. -/
theorem below_sub (a : BitVec 32) (k n : ℕ) : below (a - BitVec.ofNat 32 k) n ⊆ below a (k + n) := by
  rintro x ⟨i, hpos, hi, rfl⟩
  refine ⟨k + i, by omega, by omega, ?_⟩
  rw [BitVec.sub_sub, BitVec.ofNat_add]

/-- What is pushed lies below the stack pointer. -/
theorem Cpu.mem_below_push (c : Cpu) (ws : List (BitVec 32)) {i : ℕ} (hi : i < 4 * ws.length) :
    c.esp - BitVec.ofNat 32 (4 * ws.length) + BitVec.ofNat 32 i ∈ below c.esp (4 * ws.length) := by
  refine ⟨4 * ws.length - i, by omega, by omega, ?_⟩
  have hsum : 4 * ws.length = (4 * ws.length - i) + i := by omega
  conv_lhs => rw [hsum, BitVec.ofNat_add, ← BitVec.sub_sub, BitVec.sub_add_cancel]

/-- A push changes nothing but what is below the stack pointer. -/
theorem Cpu.push_eqOn (c : Cpu) (ws : List (BitVec 32)) :
    Set.EqOn (c.push ws).mem c.mem (below c.esp (4 * ws.length))ᶜ := by
  rw [Cpu.push_mem]
  refine store_eqOn _ fun i hi => ?_
  rw [length_leBytesList] at hi
  exact c.mem_below_push ws hi

/-- **Save, call, restore**: whatever a routine does between `pusha`, `pushf` and `popf`,
`popa`, as long as it keeps the stack pointer and what was pushed. -/
theorem Cpu.popa_popf (c c' : Cpu) (hesp : c'.esp = c.pusha.pushf.esp)
    (hmem : ∀ i < 36, c'.mem (c'.esp + BitVec.ofNat 32 i) =
      c.pusha.pushf.mem (c'.esp + BitVec.ofNat 32 i)) :
    c'.popf.popa = ⟨c.regs, c.flags, c'.mem⟩ := by
  have hlen : (c.flags.toWord :: pushaOrder.map c.regs).length = 9 := rfl
  have hpush : c.pusha.pushf = c.push (c.flags.toWord :: pushaOrder.map c.regs) :=
    Cpu.push_push c _ _
  have hload : ∀ i < 9, load32 c'.mem (c'.esp + BitVec.ofNat 32 (4 * i)) =
      (c.flags.toWord :: pushaOrder.map c.regs).getD i 0 := by
    intro i hi
    rw [← Cpu.load32_push c (by rw [hlen]; decide) (hlen.symm ▸ hi), ← hpush, ← hesp]
    apply load32_congr
    intro j hj
    rw [BitVec.add_assoc, ← BitVec.ofNat_add, hmem _ (by omega)]
  have hflags : Flags.ofWord (load32 c'.mem c'.esp) = c.flags := by
    have h₀ : load32 c'.mem (c'.esp + 0) = c.flags.toWord := hload 0 (by decide)
    rw [add_zero] at h₀
    rw [h₀, Flags.ofWord_toWord]
  have hregs : ∀ r, c'.popf.popa.regs r = c.regs r := by
    intro r
    rw [Cpu.regs_popa, Cpu.esp_popf]
    by_cases hr : r = .esp
    · rw [if_pos hr, hr, hesp, hpush, Cpu.esp_push, hlen, add_assoc]
      exact BitVec.sub_add_cancel _ _
    · have hidx : pushaOrder.idxOf r + 1 < 9 := by cases r <;> decide
      have hget : (pushaOrder.map c.regs).getD (pushaOrder.idxOf r) 0 = c.regs r := by cases r <;> rfl
      have hload' := hload _ hidx
      rw [Nat.mul_add, Nat.add_comm, BitVec.ofNat_add, ← add_assoc, List.getD_cons_succ, hget] at hload'
      rw [if_neg hr]
      exact hload'
  exact Cpu.ext (funext hregs) hflags rfl

end Foundation.X86
