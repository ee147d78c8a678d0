import Snitchaser.Syscalls.Table

/-!
# Sizes of what is logged

`append_buffer` asserts that it is given something, and takes its size as unsigned. The
sizes come from results of system calls, from lengths beside the buffers and from the
kernel's idea of a file.

## The model

The handlers are the scripts of `Syscalls.Script`. They are looked at on a memory without
holes: what the kernel has accepted it could reach. `Journal.sizes` are the sizes of all
calls of `append_buffer` that a script makes then, if each of them returns.

## What is proved

* `append_sizes_iff`: which arguments and results of `socketcall` and `_newselect` make a
  handler call `append_buffer` with nothing, or with a negative length.
* `mapping_recorded_iff`: when the length that `post_mmap2` records of a file is the right
  one. Its product for the offset is one of 32 bits.
-/

namespace Snitchaser.Syscalls

open Foundation Foundation.Journal Interp Log

/-! ### Buffers of no size -/

/-- `*(int *)(p)`, in a memory without holes. -/
def wordAt (m : Word → Byte) (p : Word) : Word := leWord ((region p 4).map m)

/-- **A script never calls `append_buffer` with nothing or a negative length.** -/
def GoodSizes {α : Type} (m : Word → Byte) (script : Script α) : Prop :=
  ∀ n ∈ sizes m script, 0 < n ∧ n < 2 ^ 31

/-- The handler's calls are these, where it comes to its end. -/
theorem sizes_of_post {script : PushaRegs → Script Unit} {env : PostEnv} {regs : PushaRegs}
    {out : Posted} (h : post script env regs = .ok out) :
    sizes env.mem.contents (script regs) = out.pieces.map List.length := by
  obtain ⟨rec, hrec, hout⟩ := bind_eq_ok.mp h
  cases hout
  refine sizes_of_record hrec fun a b hab => ?_
  change env.mem.read a = some b at hab
  unfold UserMem.read at hab
  split_ifs at hab
  exact Option.some.inj hab

/-- A buffer is absent, or has a positive size. -/
def Filled (p size : Word) : Prop := p ≠ 0 → 0 < size.toInt

section GoodSizes

variable {α : Type} {m : Word → Byte} {p q size : Word} {k : Unit → Script α}

@[simp] theorem goodSizes_ret (a : α) : GoodSizes m (.ret a : Script α) := by
  intro n hn
  cases hn

@[simp] theorem goodSizes_fail (e : Fault) : GoodSizes m (.fail e : Script α) := by
  intro n hn
  cases hn

/-- A size is good if it is positive as an `int`. -/
theorem toInt_pos_iff : 0 < size.toInt ↔ 0 < size.toNat ∧ size.toNat < 2 ^ 31 := by
  rw [BitVec.toInt_eq_toNat_cond]
  split_ifs with h
  · omega
  · have hlt := size.isLt
    omega

theorem length_region (p : Word) (n : ℕ) : (region p n).length = n := by
  simp [region]

theorem filled_iff (hp : p ≠ 0) : Filled p size ↔ 0 < size.toNat ∧ size.toNat < 2 ^ 31 := by
  rw [Filled, ← toInt_pos_iff]
  exact ⟨fun h => h hp, fun h _ => h⟩

@[simp] theorem filled_null : Filled 0#32 size := fun h => (h rfl).elim

/-- One more piece. -/
theorem goodSizes_save {addresses : List Word} {script : Script α} :
    GoodSizes m (.save addresses script) ↔
      (0 < addresses.length ∧ addresses.length < 2 ^ 31) ∧ GoodSizes m script :=
  List.forall_mem_cons

@[simp] theorem goodSizes_buffer_bind :
    GoodSizes m (buffer p size >>= k) ↔ Filled p size ∧ GoodSizes m (k ()) := by
  by_cases hp : p = 0
  · subst hp
    exact (and_iff_right filled_null).symm
  · rw [filled_iff hp, buffer, if_neg hp]
    rw [save_bind, goodSizes_save, length_region, ret_bind]

@[simp] theorem goodSizes_buffer : GoodSizes m (buffer p size) ↔ Filled p size := by
  have hbind : buffer p size = (buffer p size >>= .ret) := by
    unfold buffer
    split_ifs <;> rfl
  rw [hbind, goodSizes_buffer_bind]
  exact and_iff_left (goodSizes_ret ())

@[simp] theorem goodSizes_bufferIf_bind {cond : Prop} [Decidable cond] :
    GoodSizes m (bufferIf cond p size >>= k) ↔ (cond → Filled p size) ∧ GoodSizes m (k ()) := by
  unfold bufferIf
  split_ifs with h
  · simp [h]
  · rw [ret_bind, and_iff_right fun hc => (h hc).elim]

@[simp] theorem goodSizes_check_bind {cond : Prop} [Decidable cond] {text : String} :
    GoodSizes m (check cond text >>= k) ↔ (cond → GoodSizes m (k ())) := by
  unfold check
  split_ifs with h
  · rw [ret_bind, forall_prop_of_true h]
  · rw [fail_bind]
    exact iff_of_true (goodSizes_fail _) fun hc => (h hc).elim

@[simp] theorem goodSizes_loadWord_bind {k : Word → Script α} :
    GoodSizes m (loadWord q >>= k) ↔ GoodSizes m (k (wordAt m q)) :=
  Iff.rfl

@[simp] theorem goodSizes_loadBytes_bind {k : List Byte → Script α} {n : ℕ} :
    GoodSizes m (loadBytes q n >>= k) ↔ GoodSizes m (k ((region q n).map m)) :=
  Iff.rfl

@[simp] theorem goodSizes_bufferSized :
    GoodSizes m (bufferSized p q) ↔ Filled p (wordAt m q) := by
  unfold bufferSized
  split_ifs with hp
  · subst hp
    exact iff_of_true (goodSizes_ret ()) filled_null
  · rw [goodSizes_loadWord_bind, goodSizes_buffer]

@[simp] theorem goodSizes_bufferSized_bind :
    GoodSizes m (bufferSized p q >>= k) ↔ Filled p (wordAt m q) ∧ GoodSizes m (k ()) := by
  unfold bufferSized
  split_ifs with hp
  · subst hp
    exact (and_iff_right filled_null).symm
  · exact goodSizes_buffer_bind

/-- Each vector is absent, or has a positive size. -/
theorem goodSizes_bufferVecs {vecs : Word} {n i : ℕ} :
    GoodSizes m (bufferVecs vecs n i) ↔ ∀ j, i ≤ j → j < i + n →
      Filled (wordAt m (vecs + BitVec.ofNat 32 (8 * j)))
        (wordAt m (vecs + BitVec.ofNat 32 (8 * j + 4))) := by
  induction n generalizing i with
  | zero =>
    refine iff_of_true (goodSizes_ret ()) fun j hle hlt => ?_
    omega
  | succ n ih =>
    rw [bufferVecs, goodSizes_loadWord_bind, goodSizes_bufferSized_bind, ih]
    constructor
    · rintro ⟨hi, hrest⟩ j hle hlt
      rcases hle.eq_or_lt with rfl | hlt'
      · exact hi
      · exact hrest j hlt' (by omega)
    · intro h
      exact ⟨h i le_rfl (by omega), fun j hle hlt => h j (by omega) (by omega)⟩

end GoodSizes

/-- The header of `recvmsg`, word by word. -/
def msgHdr (m : Word → Byte) (msg : Word) (i : ℕ) : Word :=
  (leWords 7 ((region msg 28).map m)).getD i 0

/-- The arguments of `socketcall`. -/
def socketArg (m : Word → Byte) (regs : PushaRegs) (i : ℕ) : Word :=
  (leWords 6 ((region regs.ecx (nargs.getD regs.ebx.toNat 0)).map m)).getD i 0

/-- **What a call that receives must have left for its handler**: of each buffer that is
there, a positive size. `recv` and `getsockname` look for themselves. -/
def Received (m : Word → Byte) (call : ℕ) (a : ℕ → Word) (retval : Word) : Prop :=
  match call with
  | 5 => 0 < retval.toInt → a 2 ≠ 0 → Filled (a 1) (wordAt m (a 2))
  | 7 => 0 ≤ retval.toInt → a 2 ≠ 0 → Filled (a 1) (wordAt m (a 2))
  | 12 => 0 ≤ retval.toInt →
    Filled (a 1) retval ∧ (a 5 ≠ 0 → Filled (a 4) (wordAt m (a 5)))
  | 15 => 0 ≤ retval.toInt → a 4 ≠ 0 → Filled (a 3) (wordAt m (a 4))
  | 17 => 0 ≤ retval.toInt →
    Filled (msgHdr m (a 1) 0) (msgHdr m (a 1) 1) ∧
      Filled (msgHdr m (a 1) 2) (8 * msgHdr m (a 1) 3) ∧
      ∀ i < (msgHdr m (a 1) 3).toInt.toNat,
        Filled (wordAt m (msgHdr m (a 1) 2 + BitVec.ofNat 32 (8 * i)))
          (wordAt m (msgHdr m (a 1) 2 + BitVec.ofNat 32 (8 * i + 4)))
  | _ => True

section Received

variable {m : Word → Byte} {p q r s retval : Word}

@[simp] theorem filled_ofNat {n : ℕ} :
    Filled p (BitVec.ofNat 32 n) ↔ (p ≠ 0 → 0 < n % 2 ^ 32 ∧ n % 2 ^ 32 < 2 ^ 31) := by
  rw [Filled, toInt_pos_iff, BitVec.toNat_ofNat]

theorem goodSizes_accept :
    GoodSizes m (accept p q retval) ↔ (0 < retval.toInt → q ≠ 0 → Filled p (wordAt m q)) := by
  unfold accept
  split_ifs with hret hp
  · exact iff_of_true (goodSizes_ret ()) fun h => by omega
  · subst hp
    exact iff_of_true (goodSizes_ret ()) fun _ _ => filled_null
  · simp [not_le.mp hret]

theorem goodSizes_getsockname : GoodSizes m (getsockname p q retval) := by
  unfold getsockname
  split_ifs
  · exact goodSizes_ret ()
  · rw [goodSizes_buffer_bind, goodSizes_loadWord_bind, goodSizes_check_bind]
    refine ⟨by simp, fun hlen => ?_⟩
    unfold bufferIf
    split_ifs
    · exact goodSizes_buffer.mpr fun _ => hlen.1
    · exact goodSizes_ret ()

theorem goodSizes_getpeername :
    GoodSizes m (getpeername p q retval) ↔
      (0 ≤ retval.toInt → q ≠ 0 → Filled p (wordAt m q)) := by
  unfold getpeername
  split_ifs with hret hp
  · exact iff_of_true (goodSizes_ret ()) fun h => by omega
  · simp [not_lt.mp hret]
  · rw [not_not.mp hp]
    exact iff_of_true (goodSizes_ret ()) fun _ _ => filled_null

theorem goodSizes_socketpair : GoodSizes m (socketpair p retval) := by
  unfold socketpair
  split_ifs
  · exact goodSizes_ret ()
  · simp

theorem goodSizes_recv : GoodSizes m (recv p retval) := by
  unfold recv
  split_ifs with hret
  · exact goodSizes_ret ()
  · exact goodSizes_buffer.mpr fun _ => not_le.mp hret

theorem goodSizes_recvfrom :
    GoodSizes m (recvfrom p q r retval) ↔
      (0 ≤ retval.toInt → Filled p retval ∧ (r ≠ 0 → Filled q (wordAt m r))) := by
  unfold recvfrom
  split_ifs with hret hq
  · exact iff_of_true (goodSizes_ret ()) fun h => by omega
  · simp [not_lt.mp hret]
  · rw [not_not.mp hq]
    simp [not_lt.mp hret]

theorem goodSizes_getsockopt :
    GoodSizes m (getsockopt p q retval) ↔
      (0 ≤ retval.toInt → q ≠ 0 → Filled p (wordAt m q)) := by
  unfold getsockopt
  split_ifs with hret
  · exact iff_of_true (goodSizes_ret ()) fun h => by omega
  · simp [not_lt.mp hret]

theorem goodSizes_recvmsg :
    GoodSizes m (recvmsg p retval) ↔
      (0 ≤ retval.toInt →
        Filled (msgHdr m p 0) (msgHdr m p 1) ∧ Filled (msgHdr m p 2) (8 * msgHdr m p 3) ∧
          ∀ i < (msgHdr m p 3).toInt.toNat,
            Filled (wordAt m (msgHdr m p 2 + BitVec.ofNat 32 (8 * i)))
              (wordAt m (msgHdr m p 2 + BitVec.ofNat 32 (8 * i + 4)))) := by
  unfold recvmsg
  split_ifs with hret
  · exact iff_of_true (goodSizes_ret ()) fun h => by omega
  · rw [goodSizes_buffer_bind, goodSizes_loadBytes_bind, goodSizes_bufferIf_bind,
      goodSizes_buffer_bind, goodSizes_bufferVecs]
    simp [not_lt.mp hret, msgHdr, Filled]

theorem goodSizes_socketSub (call : ℕ) (a : ℕ → Word) :
    GoodSizes m (socketSub call a retval) ↔ Received m call a retval := by
  unfold socketSub Received
  split
  · exact goodSizes_accept
  · exact iff_of_true goodSizes_getsockname trivial
  · exact goodSizes_getpeername
  · exact iff_of_true goodSizes_socketpair trivial
  · exact iff_of_true goodSizes_recv trivial
  · exact goodSizes_recvfrom
  · exact goodSizes_getsockopt
  · exact goodSizes_recvmsg
  · rename_i h5 _ h7 _ _ h12 h15 h17
    refine iff_of_true (goodSizes_ret ()) ?_
    split
    · exact (h5 rfl).elim
    · exact (h7 rfl).elim
    · exact (h12 rfl).elim
    · exact (h15 rfl).elim
    · exact (h17 rfl).elim
    · trivial

end Received

/-- The block of arguments has a size. -/
theorem filled_nargs {p call : Word} (h1 : 1 ≤ call.toInt) (h2 : call.toInt ≤ 17) :
    Filled p (BitVec.ofNat 32 (nargs.getD call.toNat 0)) := by
  have hcall : call.toNat < 18 ∧ call.toNat ≠ 0 := by
    rw [BitVec.toInt_eq_toNat_cond] at h1 h2
    split_ifs at h1 h2 <;> omega
  have hsize : ∀ n < 18, n ≠ 0 → 0 < nargs.getD n 0 ∧ nargs.getD n 0 < 25 := by
    decide
  have := hsize _ hcall.1 hcall.2
  exact filled_ofNat.mpr fun _ => by omega

theorem goodSizes_socketcall {m : Word → Byte} {regs : PushaRegs} :
    GoodSizes m (socketcall regs) ↔
      (1 ≤ regs.ebx.toInt → regs.ebx.toInt ≤ 17 →
        Received m regs.ebx.toNat (socketArg m regs) regs.eax) := by
  rw [socketcall, goodSizes_check_bind, and_imp]
  refine forall_congr' fun h1 => forall_congr' fun h2 => ?_
  rw [goodSizes_buffer_bind, goodSizes_loadBytes_bind, goodSizes_socketSub,
    and_iff_right (filled_nargs h1 h2)]
  rfl

/-- Sets of descriptors have a size unless `n` is 0, or so large that `n + 31` wraps. -/
theorem fdsBytes_pos_iff (n : Word) :
    0 < (fdsBytes n).toInt ↔ 0 < n.toNat ∧ n.toNat + 31 < 2 ^ 32 := by
  have hn := n.isLt
  have hsum : (n + 31).toNat = (n.toNat + 31) % 2 ^ 32 := BitVec.toNat_add n 31
  have hsize : (fdsBytes n).toNat = (n.toNat + 31) % 2 ^ 32 / 32 * 4 := by
    rw [fdsBytes, BitVec.toNat_mul, BitVec.toNat_udiv, hsum]
    have h32 : (32 : Word).toNat = 32 := rfl
    have h4 : (4 : Word).toNat = 4 := rfl
    rw [h32, h4]
    omega
  rw [toInt_pos_iff, hsize]
  omega

theorem goodSizes_newselect {m : Word → Byte} {regs : PushaRegs} :
    GoodSizes m (newselect regs) ↔
      (regs.ecx ≠ 0 ∨ regs.edx ≠ 0 ∨ regs.esi ≠ 0 →
        0 < regs.ebx.toNat ∧ regs.ebx.toNat + 31 < 2 ^ 32) := by
  have hlast {p size : Word} : GoodSizes m (bufferIf (p ≠ 0) p size) ↔ Filled p size := by
    unfold bufferIf
    split_ifs with hp
    · exact goodSizes_buffer
    · exact iff_of_true (goodSizes_ret ()) fun h => (hp h).elim
  rw [newselect, goodSizes_bufferIf_bind, goodSizes_bufferIf_bind, hlast, ← fdsBytes_pos_iff]
  unfold Filled
  tauto

/-- **No receiving call, and no `_newselect`, makes its handler append a buffer without
bytes or of a negative size** exactly if everything it left a buffer for has a positive
size: the result of `recvfrom`, the length that comes with a name or an option, each
vector of `recvmsg`, and the number of descriptors. -/
theorem append_sizes_iff (m : Word → Byte) (regs : PushaRegs) :
    (GoodSizes m (socketcall regs) ↔
      (1 ≤ regs.ebx.toInt → regs.ebx.toInt ≤ 17 →
        Received m regs.ebx.toNat (socketArg m regs) regs.eax)) ∧
    (GoodSizes m (newselect regs) ↔
      (regs.ecx ≠ 0 ∨ regs.edx ≠ 0 ∨ regs.esi ≠ 0 →
        0 < regs.ebx.toNat ∧ regs.ebx.toNat + 31 < 2 ^ 32)) :=
  ⟨goodSizes_socketcall, goodSizes_newselect⟩

/-- The page of a program that receives into `0xb7f00100`. -/
def receiverPage : UserMem :=
  onePage fun a => ([0, 0xb7f00100].flatMap leBytes).getD (a - 0xb7f00000).toNat 0

/-- A post handler that finds it. -/
def receiverEnv : PostEnv := quietEnv receiverPage

/-- `recvfrom(0, 0xb7f00100, 0, 0, NULL, NULL)` on a connection that was closed: it returns 0. -/
def receiveNothing : PushaRegs := ⟨0x202, 0, 0, 0, 0xbf000000, 12, 0, 0xb7f00000, 0⟩

/-- `select(0, 0xb7f00100, NULL, NULL, &tv)`, after its time has passed. -/
def selectNothing : PushaRegs := ⟨0x202, 0xb7f00200, 0, 0, 0xbf000000, 0, 0, 0xb7f00100, 0⟩

/-- Both are legal, and both end the recorder. -/
theorem receive_nothing_aborts :
    (¬GoodSizes receiverPage.contents (socketcall receiveNothing) ∧
      post socketcall receiverEnv receiveNothing = .error (.assertion "size != 0")) ∧
    (¬GoodSizes receiverPage.contents (newselect selectNothing) ∧
      post newselect receiverEnv selectNothing = .error (.assertion "size != 0")) := by
  have hrecv : 0 ∈ sizes receiverPage.contents (socketcall receiveNothing) := by decide +kernel
  have hselect : 0 ∈ sizes receiverPage.contents (newselect selectNothing) := by decide +kernel
  exact ⟨⟨fun h => (h 0 hrecv).1.ne rfl, rfl⟩, fun h => (h 0 hselect).1.ne rfl, rfl⟩

/-! ### The part of a file that is mapped -/

/-- The asserts of `post_mmap2` itself. -/
def mmap2Asserts : List String := ["err == 0", "file_size > start_pos"]

/-- What is recorded of a mapping is what there is of the file, and nothing fails on the
way there. -/
def RecordsMapping (env : PostEnv) (regs : PushaRegs) : Prop :=
  ptrCorrect regs.eax ∧
    (∃ len, recordedLen env regs = .ok len ∧
      (len.toNat : ℤ) = min (regs.ecx.toNat : ℤ)
        ((env.fstat64 regs.edi).2.toInt - regs.ebp.toNat * 4096)) ∧
    ∀ text ∈ mmap2Asserts, postMmap2 env regs ≠ .error (.assertion text)

/-- `append_buffer` fails in its own words. -/
theorem appendCheck_ne {bytes : List Byte} {text : String} (htext : text ∈ mmap2Asserts) :
    appendCheck bytes ≠ .error (.assertion text) := by
  intro h
  rcases bind_eq_error.mp h with h | ⟨_, -, h⟩ <;>
  · unfold assert at h
    split_ifs at h
    cases h
    revert htext
    decide

theorem record_buffer_ne {mem : UserMem} {p size : Word} {text : String}
    (htext : text ∈ mmap2Asserts) :
    record mem.recorder (buffer p size) ≠ .error (.assertion text) := by
  intro h
  unfold buffer at h
  split_ifs at h with hp
  · cases h
  · rcases bind_eq_error.mp h with h | ⟨bytes, -, h⟩
    · unfold Recorder.read at h
      split at h <;> cases h
    · rcases bind_eq_error.mp h with h | ⟨_, -, h⟩
      · exact appendCheck_ne htext h
      · cases h

theorem record_intVal_ne {mem : UserMem} {x : Word} {text : String}
    (htext : text ∈ mmap2Asserts) :
    record mem.recorder (intVal x) ≠ .error (.assertion text) := by
  intro h
  rcases bind_eq_error.mp h with h | ⟨_, -, h⟩
  · exact appendCheck_ne htext h
  · cases h

/-- Behind the length, `mprotect` alone is asserted on. -/
theorem postMmap2_ne {env : PostEnv} {regs : PushaRegs} {len : Word}
    (hprot : ∀ mem p len prot, (env.mprotect mem p len prot).1 = 0)
    (hlen : recordedLen env regs = .ok len) {text : String} (htext : text ∈ mmap2Asserts) :
    postMmap2 env regs ≠ .error (.assertion text) := by
  intro h
  unfold postMmap2 at h
  split_ifs at h
  rw [hlen] at h
  rcases bind_eq_error.mp h with h | ⟨_, -, h⟩
  · cases h
  rcases bind_eq_error.mp h with h | ⟨_, -, h⟩
  · exact record_intVal_ne htext h
  rcases bind_eq_error.mp h with h | ⟨_, -, h⟩
  swap
  · cases h
  unfold withReadable at h
  split_ifs at h
  · exact record_buffer_ne htext h
  · simp only [hprot, assert_of_true] at h
    rcases bind_eq_error.mp h with h | ⟨_, -, h⟩
    · cases h
    rcases bind_eq_error.mp h with h | ⟨_, -, h⟩
    · exact record_buffer_ne htext h
    · cases h

/-- What is recorded of a file, by the offset as it has become. -/
theorem recordedLen_of_pos {env : PostEnv} {regs : PushaRegs} (hfd : 0 < regs.edi.toInt)
    (hstat : (env.fstat64 regs.edi).1 = 0)
    (hsize : ((regs.ebp * 4096).toNat : ℤ) < (env.fstat64 regs.edi).2.toInt) :
    ∃ len, recordedLen env regs = .ok len ∧
      (len.toNat : ℤ) = min (regs.ecx.toNat : ℤ)
        ((env.fstat64 regs.edi).2.toInt - (regs.ebp * 4096).toNat) := by
  unfold recordedLen
  rw [if_pos hfd]
  refine ⟨_, bind_eq_ok.mpr ⟨(), assert_of_true hstat _, bind_eq_ok.mpr
    ⟨(), assert_of_true hsize _, rfl⟩⟩, ?_⟩
  have hecx := regs.ecx.isLt
  split_ifs with hlt
  · omega
  · rw [BitVec.toNat_ofNat]
    omega

/-- The 32 bits that are left of an offset. -/
theorem toNat_startPos (pgoff : Word) : (pgoff * 4096).toNat = pgoff.toNat * 4096 % 2 ^ 32 :=
  BitVec.toNat_mul pgoff 4096

/-- **The recorded length of a file's mapping is exact, and `post_mmap2` passes its
asserts**, exactly if the mapping is below the kernel's addresses, and either the descriptor
is positive and the offset is below 4 GiB, or the file goes on to the mapping's end anyway.
The product for the offset is one of 32 bits, and a mapping of descriptor 0 is taken for an
anonymous one. -/
theorem mapping_recorded_iff (env : PostEnv) (regs : PushaRegs)
    (hfile : 0 ≤ regs.edi.toInt) (hstat : (env.fstat64 regs.edi).1 = 0)
    (hsize : regs.ebp.toNat * 4096 < (env.fstat64 regs.edi).2.toInt)
    (hprot : ∀ mem p len prot, (env.mprotect mem p len prot).1 = 0) :
    RecordsMapping env regs ↔
      ptrCorrect regs.eax ∧
        (0 < regs.edi.toInt ∧ regs.ebp.toNat * 4096 < 2 ^ 32 ∨
          regs.ecx.toNat ≤ (env.fstat64 regs.edi).2.toInt - regs.ebp.toNat * 4096) := by
  have hwrap := toNat_startPos regs.ebp
  -- behind the length nothing of its own can fail, so the length is what matters
  have hlen : RecordsMapping env regs ↔ ptrCorrect regs.eax ∧ ∃ len,
      recordedLen env regs = .ok len ∧ (len.toNat : ℤ) = min (regs.ecx.toNat : ℤ)
        ((env.fstat64 regs.edi).2.toInt - regs.ebp.toNat * 4096) := by
    refine and_congr_right fun _ => and_iff_left_of_imp ?_
    rintro ⟨len, hlen, -⟩ text htext
    exact postMmap2_ne hprot hlen htext
  rw [hlen]
  refine and_congr_right fun _ => ?_
  rcases hfile.eq_or_lt with hfd | hfd
  · have hecx : recordedLen env regs = .ok regs.ecx := if_neg (by omega)
    simp only [hecx, Except.ok.injEq, exists_eq_left']
    omega
  · obtain ⟨len, hok, hlen⟩ := recordedLen_of_pos hfd hstat (by omega)
    simp only [hok, Except.ok.injEq, exists_eq_left']
    omega

/-- A file of 8 KiB whose second page is mapped, with a length of two pages. -/
theorem mapping_recorded_iff_page :
    RecordsMapping { receiverEnv with fstat64 := fun _ => (0, 0x2000) }
      ⟨0x202, 3, 2, 1, 0xbf000000, 0, 1, 0x2000, 0xb7f00000⟩ :=
  (mapping_recorded_iff _ _ (by decide) rfl (by decide) fun _ _ _ _ => rfl).mpr
    (by decide +kernel)

/-- The last page of a file of 4 GiB and a page, with a length of two pages: the offset
has become 0, and two pages are recorded of the one there is. -/
theorem mapping_beyond_4G :
    ¬RecordsMapping { receiverEnv with fstat64 := fun _ => (0, 0x100001000) }
      ⟨0x202, 3, 2, 0x100000, 0xbf000000, 0, 1, 0x2000, 0xb7f00000⟩ ∧
    recordedLen { receiverEnv with fstat64 := fun _ => (0, 0x100001000) }
      ⟨0x202, 3, 2, 0x100000, 0xbf000000, 0, 1, 0x2000, 0xb7f00000⟩ = .ok 0x2000 := by
  have hlen : recordedLen { receiverEnv with fstat64 := fun _ => (0, 0x100001000) }
      ⟨0x202, 3, 2, 0x100000, 0xbf000000, 0, 1, 0x2000, 0xb7f00000⟩ = .ok 0x2000 := rfl
  refine ⟨?_, hlen⟩
  rintro ⟨-, ⟨len, hok, hmin⟩, -⟩
  rw [hlen] at hok
  cases hok
  revert hmin
  decide

end Snitchaser.Syscalls
