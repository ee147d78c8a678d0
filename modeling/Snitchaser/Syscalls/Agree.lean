import Snitchaser.Syscalls.Table
import Snitchaser.Replay.Record

/-!
# Post and replay handlers agree

What a post handler appended, the replay handler of the same call takes from the stream,
no less and no more, and puts it where it was.

For a script this is `Foundation.Journal.restore_record`, if what the script reads it has
saved before: the argument block of `socketcall`, the header and the vectors of
`recvmsg`, the lengths beside the buffers. There are two ways out of that, and the post
handler comes to an end in neither. A buffer at `NULL` is not saved, but then it cannot
be read. The vectors of `recvmsg` may be so many that the size of them all wraps: then the
loop over them leaves user space.

## What is proved

`post_replay_agree`: for every entry of the table.
-/

namespace Snitchaser.Syscalls

open Foundation Foundation.Journal Interp Log

/-! ### Scripts that read nothing -/

section LoadFree

theorem loadFree_buffer (p size : Word) : LoadFree (buffer p size) :=
  LoadFree.ite trivial trivial

theorem loadFree_check (cond : Prop) [Decidable cond] (text : String) :
    LoadFree (check cond text) :=
  LoadFree.ite trivial trivial

theorem loadFree_unlessFailed (regs : PushaRegs) {script : Script Unit} (h : LoadFree script) :
    LoadFree (unlessFailed regs script) :=
  LoadFree.ite trivial h

theorem loadFree_ifPositive (regs : PushaRegs) {script : Script Unit} (h : LoadFree script) :
    LoadFree (ifPositive regs script) :=
  LoadFree.ite trivial h

theorem loadFree_bufferIf (c : Prop) [Decidable c] (p size : Word) : LoadFree (bufferIf c p size) :=
  LoadFree.ite (loadFree_buffer p size) trivial

theorem loadFree_epollWait (regs : PushaRegs) : LoadFree (epollWait regs) :=
  loadFree_ifPositive regs ((loadFree_check _ _).bind fun _ => loadFree_buffer _ _)

theorem loadFree_gettimeofday (regs : PushaRegs) : LoadFree (gettimeofday regs) :=
  loadFree_unlessFailed regs ((loadFree_bufferIf _ _ _).bind fun _ => loadFree_bufferIf _ _ _)

theorem loadFree_prctl (regs : PushaRegs) : LoadFree (prctl regs) :=
  loadFree_unlessFailed regs (LoadFree.ite (loadFree_buffer _ _) (loadFree_bufferIf _ _ _))

theorem loadFree_fcntl64 (regs : PushaRegs) : LoadFree (fcntl64 regs) :=
  loadFree_unlessFailed regs (LoadFree.ite (loadFree_buffer _ _) (loadFree_bufferIf _ _ _))

theorem loadFree_futex (regs : PushaRegs) : LoadFree (futex regs) :=
  loadFree_unlessFailed regs ((loadFree_buffer _ _).bind fun _ => loadFree_bufferIf _ _ _)

theorem loadFree_newselect (regs : PushaRegs) : LoadFree (newselect regs) :=
  (loadFree_bufferIf _ _ _).bind fun _ => (loadFree_bufferIf _ _ _).bind fun _ =>
    loadFree_bufferIf _ _ _

theorem loadFree_ttyIoctl (cmd arg : Word) : LoadFree (ttyIoctl cmd arg) := by
  unfold ttyIoctl
  split
  · exact loadFree_bufferIf _ _ _
  · trivial

theorem loadFree_blkIoctl (regs : PushaRegs) (cmd arg : Word) : LoadFree (blkIoctl regs cmd arg) :=
  loadFree_unlessFailed regs
    (LoadFree.ite ((loadFree_check _ _).bind fun _ => loadFree_buffer _ _) trivial)

theorem loadFree_ioctl (regs : PushaRegs) : LoadFree (ioctl regs) :=
  LoadFree.ite (loadFree_ttyIoctl _ _) (LoadFree.ite (loadFree_blkIoctl _ _ _) trivial)

theorem loadFree_maskScript (size : ℕ) (regs : PushaRegs) : LoadFree (maskScript size regs) :=
  loadFree_unlessFailed regs (loadFree_bufferIf _ _ _)

end LoadFree

/-! ### Scripts that read what they saved -/

section Safe

variable {mem : UserMem} {done : Word → Prop}

theorem mem_region {p a : Word} {size : ℕ} :
    a ∈ region p size ↔ ∃ i < size, p + BitVec.ofNat 32 i = a := by
  simp [region]

/-- The addresses of a buffer at 0 begin with 0. -/
theorem read_null {size : ℕ} (hsize : 0 < size) (bytes : List Byte) :
    mem.recorder.read (region 0 size) ≠ .ok bytes := by
  intro h
  have hmap := Recorder.read_ok h
  obtain ⟨n, rfl⟩ := Nat.exists_eq_succ_of_ne_zero hsize.ne'
  rw [region, List.range_succ_eq_map, List.map_cons, List.mapM_cons] at hmap
  obtain ⟨b, hb, -⟩ := Option.bind_eq_some_iff.mp hmap
  have hread : mem.read 0 = some b := hb
  rw [UserMem.read, mem.null] at hread
  cases hread

/-- A region that cannot be read at one place is not read. -/
theorem read_hole {addrs : List Word} {a : Word} (ha : a ∈ addrs) (hhole : mem.readable a = false)
    (bytes : List Byte) : mem.recorder.read addrs ≠ .ok bytes := by
  intro h
  have hmap := Recorder.read_ok h
  induction addrs generalizing bytes with
  | nil => cases ha
  | cons x addrs ih =>
    rw [List.mapM_cons] at hmap
    obtain ⟨b, hb, hmap⟩ := Option.bind_eq_some_iff.mp hmap
    obtain ⟨bs, hbs, -⟩ := Option.bind_eq_some_iff.mp hmap
    rcases List.mem_cons.mp ha with rfl | ha
    · have hread : mem.read a = some b := hb
      rw [UserMem.read, hhole] at hread
      cases hread
    · refine ih ha bs ?_ hbs
      unfold Recorder.read
      rw [hbs]

theorem safe_ite {α : Type} {c : Prop} [Decidable c] {p q : Script α} (hp : c → Safe mem.recorder done p)
    (hq : ¬ c → Safe mem.recorder done q) : Safe mem.recorder done (if c then p else q) := by
  split
  · exact hp ‹_›
  · exact hq ‹_›

theorem safe_check {cond : Prop} [Decidable cond] {text : String} {k : Unit → Script Unit}
    (h : Safe mem.recorder done (k ())) : Safe mem.recorder done (check cond text >>= k) := by
  unfold check
  split
  · exact h
  · trivial

theorem safe_buffer {p size : Word} {k : Unit → Script Unit}
    (h : ∀ done', (∀ a, done a → done' a) → (p ≠ 0 → ∀ a ∈ region p size.toNat, done' a) →
      Safe mem.recorder done' (k ())) : Safe mem.recorder done (buffer p size >>= k) := by
  unfold buffer
  split
  · exact h done (fun _ ha => ha) fun hne => absurd ‹_› hne
  · exact h _ (fun a ha => .inl ha) fun _ a ha => .inr ha

/-- What is read was saved, or cannot be read. -/
theorem safe_load {α : Type} {p : Word} {size : ℕ} {k : List Byte → Script α} (hsize : 0 < size)
    (hp : p ≠ 0 → ∀ a ∈ region p size, done a) (hk : ∀ bytes, Safe mem.recorder done (k bytes)) :
    Safe mem.recorder done (.load (region p size) k) := by
  intro bytes hread
  refine ⟨fun _ => hp ?_, hk bytes⟩
  rintro rfl
  exact read_null hsize bytes hread

/-- A length beside a buffer: saved, and then read. -/
theorem safe_buffer_loadWord {p : Word} {k : Word → Script Unit}
    (hk : ∀ done w, Safe mem.recorder done (k w)) :
    Safe mem.recorder done (buffer p 4 >>= fun _ => loadWord p >>= k) :=
  safe_buffer fun _ _ hp => safe_load (by decide) hp fun bytes => hk _ (leWord bytes)

theorem safe_buffer_bufferSized {p q : Word} :
    Safe mem.recorder done (buffer q 4 >>= fun _ => bufferSized p q) := by
  refine safe_buffer fun _ _ hq => safe_ite (fun _ => trivial) fun _ => ?_
  exact safe_load (by decide) hq fun bytes => (loadFree_buffer _ _).safe _ _

/-! #### The vectors of `recvmsg` -/

/-- If one of the vectors cannot be read, the loop does not come to its end. -/
theorem not_completes_bufferVecs {vecs : Word} {n i : ℕ}
    (h : ∃ j < n, mem.readable (vecs + BitVec.ofNat 32 (8 * (i + j))) = false) :
    ¬ Completes mem.recorder (bufferVecs vecs n i) := by
  induction n generalizing i with
  | zero =>
    obtain ⟨j, hj, -⟩ := h
    exact absurd hj (Nat.not_lt_zero j)
  | succ n ih =>
    rintro ⟨out, hout⟩
    obtain ⟨bytes, hread, hrest⟩ := record_load hout
    obtain ⟨j, hj, hhole⟩ := h
    cases j with
    | zero => exact read_hole (mem_region.mpr ⟨0, by decide, BitVec.add_zero _⟩) hhole bytes hread
    | succ j =>
      have hc : Completes mem.recorder (bufferSized (leWord bytes) (vecs + BitVec.ofNat 32 (8 * i + 4)) >>=
          fun _ => bufferVecs vecs n (i + 1)) := ⟨out, hrest⟩
      obtain ⟨-, hc⟩ := hc.of_bind
      refine ih ⟨j, Nat.lt_of_succ_lt_succ hj, ?_⟩ hc
      rwa [Nat.add_right_comm i 1 j]

/-- The two words of a vector. -/
theorem region_vec_subset {p : Word} {i off : ℕ} (hoff : off ≤ 4) {a : Word}
    (ha : a ∈ region (p + BitVec.ofNat 32 (i + off)) 4) : a ∈ region (p + BitVec.ofNat 32 i) 8 := by
  obtain ⟨j, hj, rfl⟩ := mem_region.mp ha
  refine mem_region.mpr ⟨off + j, by omega, ?_⟩
  rw [add_ofNat_add_ofNat, add_ofNat_add_ofNat, Nat.add_assoc]

/-- If the first vector can be read, either all of them are saved or one of the others is a
hole. -/
theorem vecs_succ {vecs : Word} {n i : ℕ}
    (h : (∀ j < n + 1, ∀ a ∈ region (vecs + BitVec.ofNat 32 (8 * (i + j))) 8, done a) ∨
      ∃ j < n + 1, mem.readable (vecs + BitVec.ofNat 32 (8 * (i + j))) = false)
    (hread : mem.readable (vecs + BitVec.ofNat 32 (8 * i)) = true) :
    ((∀ a ∈ region (vecs + BitVec.ofNat 32 (8 * i)) 8, done a) ∧
        ∀ j < n, ∀ a ∈ region (vecs + BitVec.ofNat 32 (8 * (i + 1 + j))) 8, done a) ∨
      ∃ j < n, mem.readable (vecs + BitVec.ofNat 32 (8 * (i + 1 + j))) = false := by
  rcases h with h | ⟨j, hj, hhole⟩
  · refine .inl ⟨h 0 (Nat.succ_pos n), fun j hj a ha => h (j + 1) (by omega) a ?_⟩
    rwa [Nat.add_right_comm i 1 j] at ha
  · cases j with
    | zero => exact absurd (hread.symm.trans hhole) (by decide)
    | succ j =>
      refine .inr ⟨j, by omega, ?_⟩
      rwa [Nat.add_right_comm i 1 j]

/-- **The loop reads what was saved**, if all of the vectors were, or one of them cannot be
read. -/
theorem safe_bufferVecs {vecs : Word} {n i : ℕ}
    (h : (∀ j < n, ∀ a ∈ region (vecs + BitVec.ofNat 32 (8 * (i + j))) 8, done a) ∨
      ∃ j < n, mem.readable (vecs + BitVec.ofNat 32 (8 * (i + j))) = false) :
    Safe mem.recorder done (bufferVecs vecs n i) := by
  induction n generalizing i done with
  | zero => trivial
  | succ n ih =>
    have hrest : ∀ done', (∀ a, done a → done' a) →
        (mem.readable (vecs + BitVec.ofNat 32 (8 * i)) = true) →
        Safe mem.recorder done' (bufferVecs vecs n (i + 1)) := by
      intro done' hsub hread
      refine ih ((vecs_succ h hread).imp_left fun hsaved j hj a ha => hsub a (hsaved.2 j hj a ha))
    -- if the rest comes to its end, this vector was saved
    have hdone : mem.readable (vecs + BitVec.ofNat 32 (8 * i)) = true →
        Completes mem.recorder (bufferVecs vecs n (i + 1)) →
        ∀ a ∈ region (vecs + BitVec.ofNat 32 (8 * i)) 8, done a := by
      intro hread hc
      rcases vecs_succ h hread with hsaved | hhole
      · exact hsaved.1
      · exact absurd hc (not_completes_bufferVecs hhole)
    intro bytes hbytes
    have hread : mem.readable (vecs + BitVec.ofNat 32 (8 * i)) = true := by
      by_contra hne
      exact read_hole (mem_region.mpr ⟨0, by decide, BitVec.add_zero _⟩)
        (Bool.eq_false_iff.mpr hne) bytes hbytes
    refine ⟨fun hc a ha => ?_, ?_⟩
    · have hc' : Completes mem.recorder (bufferSized (leWord bytes)
          (vecs + BitVec.ofNat 32 (8 * i + 4)) >>= fun _ => bufferVecs vecs n (i + 1)) := hc
      obtain ⟨-, hc'⟩ := hc'.of_bind
      exact hdone hread hc' a (region_vec_subset (Nat.zero_le 4) ha)
    · show Safe mem.recorder done (bufferSized (leWord bytes) _ >>= fun _ => bufferVecs vecs n (i + 1))
      unfold bufferSized
      split
      · exact hrest done (fun _ ha => ha) hread
      · intro size _
        refine ⟨fun hc a ha => ?_, safe_buffer fun done' hsub _ => hrest done' hsub hread⟩
        have hc' : Completes mem.recorder (buffer (leWord bytes) (leWord size) >>=
            fun _ => bufferVecs vecs n (i + 1)) := hc
        obtain ⟨-, hc'⟩ := hc'.of_bind
        exact hdone hread hc' a (region_vec_subset le_rfl ha)

/-- As many vectors as the size of them all wraps at leave user space. -/
theorem exists_vec_kernel (vecs : Word) {n : ℕ} (h : 2 ^ 32 ≤ 8 * n) :
    ∃ j < n, mem.readable (vecs + BitVec.ofNat 32 (8 * j)) = false := by
  have hhole : ∀ a : Word, userEnd ≤ a.toNat → mem.readable a = false := by
    intro a ha
    by_contra hne
    exact absurd (mem.user a (by simpa using hne)) (not_lt.mpr ha)
  by_cases hvecs : userEnd ≤ vecs.toNat
  · exact ⟨0, by omega, hhole _ (by simpa using hvecs)⟩
  · refine ⟨(userEnd - vecs.toNat + 7) / 8, by unfold userEnd; omega, hhole _ ?_⟩
    rw [BitVec.toNat_add, BitVec.toNat_ofNat]
    unfold userEnd at hvecs ⊢
    omega

/-- The vectors are saved, all of them, before the loop over them. -/
theorem safe_bufferVecs_all {vecs count : Word} :
    Safe mem.recorder done
      (buffer vecs (8 * count) >>= fun _ => bufferVecs vecs count.toInt.toNat 0) := by
  refine safe_buffer fun done' _ hsaved => safe_bufferVecs ?_
  simp only [Nat.zero_add]
  by_cases hwrap : 2 ^ 32 ≤ 8 * count.toInt.toNat
  · exact .inr (exists_vec_kernel vecs hwrap)
  by_cases hnull : vecs = 0
  · subst hnull
    by_cases hzero : count.toInt.toNat = 0
    · exact .inl fun j hj => absurd hj (by omega)
    · exact .inr ⟨0, Nat.pos_of_ne_zero hzero, mem.null⟩
  refine .inl fun j hj a ha => hsaved hnull a ?_
  obtain ⟨k, hk, rfl⟩ := mem_region.mp ha
  refine mem_region.mpr ⟨8 * j + k, ?_, (add_ofNat_add_ofNat _ _ _).symm⟩
  have hcount : count.toInt.toNat = count.toNat := by
    rw [BitVec.toInt_eq_toNat_cond] at hj ⊢
    split_ifs at hj ⊢ <;> omega
  rw [BitVec.toNat_mul, show (8 : Word).toNat = 8 from rfl, ← hcount, Nat.mod_eq_of_lt (by omega)]
  omega

/-! #### `socketcall` -/

theorem safe_recvmsg (msg retval : Word) : Safe mem.recorder done (recvmsg msg retval) := by
  refine safe_ite (fun _ => trivial) fun _ => safe_buffer fun done' _ hmsg => ?_
  refine safe_load (by decide) hmsg fun bytes => ?_
  show Safe mem.recorder done' (bufferIf _ _ _ >>= _)
  unfold bufferIf
  split
  · exact safe_buffer fun _ _ _ => safe_bufferVecs_all
  · exact safe_bufferVecs_all

theorem safe_socketSub (call : ℕ) (a : ℕ → Word) (retval : Word) :
    Safe mem.recorder done (socketSub call a retval) := by
  unfold socketSub
  split
  · refine safe_ite (fun _ => trivial) fun _ => safe_ite (fun _ => trivial) fun _ => ?_
    exact safe_check (safe_buffer_loadWord fun _ _ => (loadFree_buffer _ _).safe _ _)
  · refine safe_ite (fun _ => trivial) fun _ => safe_buffer_loadWord fun _ _ => ?_
    exact safe_check ((loadFree_bufferIf _ _ _).safe _ _)
  · refine safe_ite (fun _ => trivial) fun _ => safe_ite (fun _ => ?_) fun _ => trivial
    exact safe_check safe_buffer_bufferSized
  · exact safe_ite (fun _ => trivial) fun _ => safe_check ((loadFree_buffer _ _).safe _ _)
  · exact safe_ite (fun _ => trivial) fun _ => (loadFree_buffer _ _).safe _ _
  · refine safe_ite (fun _ => trivial) fun _ => safe_buffer fun _ _ _ => ?_
    refine safe_ite (fun _ => ?_) fun _ => trivial
    exact safe_check (safe_buffer_loadWord fun _ _ => (loadFree_buffer _ _).safe _ _)
  · exact safe_ite (fun _ => trivial) fun _ => safe_check safe_buffer_bufferSized
  · exact safe_recvmsg _ _
  · trivial

/-- Every call has an argument block, and it fits a `size_t`. -/
theorem nargs_bounds : ∀ call ≤ 17, 1 ≤ call →
    0 < nargs.getD call 0 ∧ nargs.getD call 0 < 2 ^ 32 := by
  decide

theorem safe_socketcall (regs : PushaRegs) : Safe mem.recorder done (socketcall regs) := by
  unfold socketcall check
  split
  · rename_i hcall
    have hcall' : 1 ≤ regs.ebx.toNat ∧ regs.ebx.toNat ≤ 17 := by
      rw [BitVec.toInt_eq_toNat_cond] at hcall
      split_ifs at hcall <;> omega
    obtain ⟨hpos, hlt⟩ := nargs_bounds _ hcall'.2 hcall'.1
    refine safe_buffer fun done' _ hargs => ?_
    rw [toNat_ofNat_of_lt hlt] at hargs
    intro bytes hread
    exact safe_load hpos hargs (fun bytes => safe_socketSub _ (fun i => (leWords 6 bytes).getD i 0) _)
      bytes hread
  · trivial

end Safe

/-! ### Agreement -/

variable {S : Type}

/-- **The calls that map memory succeed**: `mmap2` gives the address it is asked for,
`mprotect` does what it is asked for and touches no contents, and `brk` gives what it gave
when it was recorded. -/
structure Kernel.Maps (kernel : Kernel S) (regs : PushaRegs) : Prop where
  mmap2 : ∀ target addr len prot fd pgoff,
    (kernel.mmap2 target addr len prot anonFlags fd pgoff).1 = addr
  mprotect : ∀ target addr len prot, (kernel.mprotect target addr len prot).1 = 0
  mprotect_mem : ∀ target addr len prot, (kernel.mprotect target addr len prot).2.mem = target.mem
  brk : ∀ target, (kernel.brk target regs.ebx).1 = regs.eax

/-- **The two handlers of a call agree**: the replay handler takes exactly the pieces of the
post handler, one for one, and leaves each where it was. -/
def Entry.Agrees (entry : Entry S) (regs : PushaRegs) : Prop :=
  ∀ (env : PostEnv) (out : Posted), entry.post env regs = .ok out →
    ∀ kernel : Kernel S, kernel.Maps regs → ∀ (target : Target S) (rest : List Byte),
      ∃ target', entry.replay kernel regs target (out.pieces.flatten ++ rest) =
          .ok ⟨target', rest, out.pieces.map List.length, false⟩ ∧
        ∀ a ∈ out.saved, target'.mem a = env.mem.contents a

/-- What a memory says of an address is what it has there. -/
theorem UserMem.contents_of_read {mem : UserMem} {a : Word} {b : Byte} (h : mem.read a = some b) :
    b = mem.contents a := by
  unfold UserMem.read at h
  split at h
  · exact (Option.some.inj h).symm
  · cases h

/-- A script that was recorded is restored. -/
theorem restoreScript_record {mem : UserMem} {script : Script Unit} {out : Recorded Word Byte Unit}
    (h : record mem.recorder script = .ok out) (hsafe : Safe mem.recorder (fun _ => False) script)
    (target : Target S) (rest : List Byte) :
    ∃ mem', restoreScript script target (out.pieces.flatten ++ rest) =
        .ok ⟨{ target with mem := mem' }, rest, out.pieces.map List.length, false⟩ ∧
      ∀ a ∈ out.saved, mem' a = mem.contents a := by
  obtain ⟨mem', hrun, hagree⟩ :=
    restore_record Fault.diverges h hsafe (m := target.mem) (fun _ h => h.elim) rest
  refine ⟨mem', ?_, fun a ha => UserMem.contents_of_read (hagree a (.inr ha))⟩
  unfold restoreScript
  rw [hrun]
  rfl

theorem agrees_ofScript {script : PushaRegs → Script Unit} {regs : PushaRegs}
    (hsafe : ∀ mem : UserMem, Safe mem.recorder (fun _ => False) (script regs)) :
    (Entry.ofScript script : Entry S).Agrees regs := by
  intro env out hpost kernel _ target rest
  obtain ⟨rec, hrec, hout⟩ := bind_eq_ok.mp hpost
  cases hout
  obtain ⟨mem', hrun, hmem⟩ := restoreScript_record hrec (hsafe env.mem) target rest
  exact ⟨{ target with mem := mem' }, hrun, hmem⟩

theorem agrees_of_loadFree {script : PushaRegs → Script Unit} {regs : PushaRegs}
    (h : LoadFree (script regs)) : (Entry.ofScript script : Entry S).Agrees regs :=
  agrees_ofScript fun mem => h.safe mem.recorder _

/-- Where nothing is appended, it is enough that nothing is asked for. -/
theorem agrees_of_silent {entry : Entry S} {regs : PushaRegs}
    (hpost : ∀ env out, entry.post env regs = .ok out → out.pieces = [] ∧ out.saved = [])
    (hreplay : ∀ kernel : Kernel S, kernel.Maps regs → ∀ target rest, ∃ target',
      entry.replay kernel regs target rest = .ok ⟨target', rest, [], false⟩) :
    entry.Agrees regs := by
  intro env out hok kernel hkernel target rest
  obtain ⟨hpieces, hsaved⟩ := hpost env out hok
  obtain ⟨target', hrun⟩ := hreplay kernel hkernel target rest
  rw [hpieces, hsaved]
  exact ⟨target', hrun, fun a ha => (List.not_mem_nil ha).elim⟩

theorem agrees_trivial (regs : PushaRegs) : (Entry.ofTrivial : Entry S).Agrees regs :=
  agrees_of_silent (fun _ _ h => by cases h; exact ⟨rfl, rfl⟩)
    fun _ _ target _ => ⟨target, rfl⟩

theorem agrees_reissue (call : Kernel S → PushaRegs → Target S → Option (Word × Target S))
    (regs : PushaRegs) : (⟨trivialPostHandler, reissue call⟩ : Entry S).Agrees regs := by
  refine agrees_of_silent (fun _ _ h => by cases h; exact ⟨rfl, rfl⟩) fun kernel _ target rest => ?_
  cases hcall : call kernel regs target with
  | none => exact ⟨target, by simp only [reissue, hcall]⟩
  | some answer => exact ⟨answer.2, by simp only [reissue, hcall]⟩

theorem agrees_brk (regs : PushaRegs) :
    (⟨trivialPostHandler, replayBrk⟩ : Entry S).Agrees regs := by
  refine agrees_of_silent (fun _ _ h => by cases h; exact ⟨rfl, rfl⟩) fun kernel hk target rest => ?_
  exact ⟨(kernel.brk target regs.ebx).2, if_pos (hk.brk target)⟩

theorem agrees_clone (regs : PushaRegs) :
    (⟨postClone, trivialReplayHandler⟩ : Entry S).Agrees regs := by
  refine agrees_of_silent (fun env out h => ?_) fun _ _ target _ => ⟨target, rfl⟩
  have h' : postClone env regs = .ok out := h
  unfold postClone at h'
  split_ifs at h' <;> cases h' <;> exact ⟨rfl, rfl⟩

/-- The mask that is given back is one buffer. -/
theorem agrees_mask (size : ℕ) (text : String) (regs : PushaRegs) :
    (⟨postMask size text, replay (maskScript size)⟩ : Entry S).Agrees regs := by
  intro env out hpost kernel _ target rest
  have hscript : ∃ rec, record env.mem.recorder (maskScript size regs) = .ok rec ∧
      rec.pieces = out.pieces ∧ rec.saved = out.saved := by
    have hpost' : postMask size text env regs = .ok out := hpost
    unfold postMask at hpost'
    unfold maskScript unlessFailed
    split_ifs at hpost' ⊢
    · cases hpost'
      exact ⟨_, rfl, rfl, rfl⟩
    · obtain ⟨_, -, hpost'⟩ := bind_eq_ok.mp hpost'
      obtain ⟨rec, hrec, hout⟩ := bind_eq_ok.mp hpost'
      cases hout
      exact ⟨rec, hrec, rfl, rfl⟩
  obtain ⟨rec, hrec, hpieces, hsaved⟩ := hscript
  obtain ⟨mem', hrun, hmem⟩ :=
    restoreScript_record hrec ((loadFree_maskScript size regs).safe _ _) target rest
  rw [hpieces] at hrun
  rw [hsaved] at hmem
  exact ⟨{ target with mem := mem' }, hrun, hmem⟩

/-! #### `mmap2` -/

/-- Pages that were opened for it are recorded with what they contain. -/
theorem withReadable_ok {env : PostEnv} {ptr len prot : Word}
    {f : UserMem → Except Fault (Recorded Word Byte Unit)} {out : Recorded Word Byte Unit}
    (h : withReadable env ptr len prot f = .ok out) :
    ∃ mem : UserMem, f mem = .ok out ∧ mem.contents = env.mem.contents := by
  unfold withReadable at h
  split_ifs at h
  · exact ⟨env.mem, h, rfl⟩
  · obtain ⟨_, -, h⟩ := bind_eq_ok.mp h
    obtain ⟨out', hout, h⟩ := bind_eq_ok.mp h
    obtain ⟨_, -, h⟩ := bind_eq_ok.mp h
    cases h
    exact ⟨_, hout, env.mprotect_contents _ _ _ _⟩

theorem restoreScript_mmap2Script (ptr len : Word) (target : Target S) (stream : List Byte) :
    restoreScript (mmap2Script ptr 0) target stream =
      restoreScript (mmap2Script ptr len) target stream := by
  unfold restoreScript mmap2Script intVal
  rw [emit_bind, emit_bind, restore_emit_congr _ (show (leBytes 0).length = (leBytes len).length from rfl)]

/-- The length first, and as much as it says: what `post_mmap2` appended is what
`replay_mmap2` takes. -/
theorem restoreScript_of_postMmap2 {env : PostEnv} {regs : PushaRegs} {out : Posted}
    (hptr : ptrCorrect regs.eax) (hpost : postMmap2 env regs = .ok out) (mapped : Target S)
    (rest : List Byte) :
    ∃ mem', restoreScript (mmap2Script regs.eax 0) mapped (out.pieces.flatten ++ rest) =
        .ok ⟨{ mapped with mem := mem' }, rest, out.pieces.map List.length, false⟩ ∧
      ∀ a ∈ out.saved, mem' a = env.mem.contents a := by
  unfold postMmap2 at hpost
  rw [if_pos hptr] at hpost
  obtain ⟨len, -, hpost⟩ := bind_eq_ok.mp hpost
  obtain ⟨head, hhead, hpost⟩ := bind_eq_ok.mp hpost
  obtain ⟨data, hdata, hpost⟩ := bind_eq_ok.mp hpost
  cases hpost
  obtain ⟨mem, hrec, hcontents⟩ := withReadable_ok hdata
  -- the length goes to the log whatever the memory is
  have hlen : record mem.recorder (intVal len) = .ok head := hhead
  have hvalue : head.value = len := by
    obtain ⟨out', -, hout', rfl⟩ := record_emit hlen
    cases hout'
    exact leWord_leBytes len
  have hscript : record mem.recorder (mmap2Script regs.eax len) = _ :=
    record_bind_of hlen (hvalue.symm ▸ hrec)
  have hfree : LoadFree (mmap2Script regs.eax len) := fun bytes => loadFree_buffer _ _
  rw [restoreScript_mmap2Script _ len, ← hcontents]
  exact restoreScript_record hscript (hfree.safe _ _) mapped rest

theorem agrees_mmap2 (regs : PushaRegs) : (⟨postMmap2, replayMmap2⟩ : Entry S).Agrees regs := by
  intro env out hpost kernel hk target rest
  have hpost' : postMmap2 env regs = .ok out := hpost
  show ∃ target', replayMmap2 kernel regs target _ = _ ∧ _
  unfold replayMmap2
  by_cases hptr : ptrCorrect regs.eax
  · rw [if_pos hptr, if_neg (not_not.mpr (hk.mmap2 _ _ _ _ _ _))]
    generalize (kernel.mmap2 target regs.eax regs.ecx (regs.edx ||| protWrite) anonFlags (-1) 0).2 =
      mapped
    obtain ⟨mem', hrun, hmem⟩ := restoreScript_of_postMmap2 hptr hpost' mapped rest
    rw [hrun]
    refine ⟨(kernel.mprotect { mapped with mem := mem' } regs.eax regs.ecx regs.edx).2, ?_, ?_⟩
    · simp only [bind, Except.bind, hk.mprotect, assert_of_true]
    · intro a ha
      rw [hk.mprotect_mem]
      exact hmem a ha
  · unfold postMmap2 at hpost'
    rw [if_neg hptr] at hpost' ⊢
    cases hpost'
    exact ⟨target, rfl, fun a ha => (List.not_mem_nil ha).elim⟩

/-! #### The table -/

/-- A handler of one buffer, under a condition. -/
theorem agrees_bufferIf {script : PushaRegs → Script Unit} {regs : PushaRegs} {c : Prop} [Decidable c]
    {p size : Word} (h : script regs = bufferIf c p size) :
    (Entry.ofScript script : Entry S).Agrees regs :=
  agrees_of_loadFree (h ▸ loadFree_bufferIf c p size)

theorem handlers_agree (regs : PushaRegs) : ∀ e ∈ (handlers : List (Word × Entry S)),
    e.1 ≠ nrExit → e.1 ≠ nrExitGroup → e.2.Agrees regs := by
  have hok : ∀ {script : PushaRegs → Script Unit} {p size : Word},
      script regs = unlessFailed regs (buffer p size) → (Entry.ofScript script : Entry S).Agrees regs :=
    fun h => agrees_of_loadFree (h ▸ loadFree_unlessFailed regs (loadFree_buffer _ _))
  have hpos : ∀ {script : PushaRegs → Script Unit} {p size : Word},
      script regs = ifPositive regs (buffer p size) → (Entry.ofScript script : Entry S).Agrees regs :=
    fun h => agrees_of_loadFree (h ▸ loadFree_ifPositive regs (loadFree_buffer _ _))
  unfold handlers
  -- one by one, without those that do nothing and those that exit
  simp only [List.forall_mem_cons, agrees_trivial, ne_eq, not_true_eq_false, false_implies,
    implies_true, true_and]
  exact ⟨fun _ _ => hok rfl, fun _ _ => agrees_mmap2 regs, fun _ _ => agrees_reissue _ regs,
    fun _ _ => agrees_mask 8 _ regs, fun _ _ => agrees_mask 4 _ regs,
    fun _ _ => agrees_bufferIf rfl, fun _ _ => agrees_bufferIf rfl, fun _ _ => agrees_brk regs,
    fun _ _ => hok rfl, fun _ _ => hpos rfl, fun _ _ => agrees_reissue _ regs,
    fun _ _ => agrees_of_loadFree (loadFree_futex regs),
    fun _ _ => agrees_of_loadFree (loadFree_ioctl regs), fun _ _ => agrees_bufferIf rfl,
    fun _ _ => agrees_of_loadFree (loadFree_unlessFailed regs (loadFree_bufferIf _ _ _)),
    fun _ _ => agrees_ofScript fun _ => safe_socketcall regs, fun _ _ => hok rfl,
    fun _ _ => agrees_reissue _ regs, fun _ _ => agrees_of_loadFree (loadFree_fcntl64 regs),
    fun _ _ => agrees_of_loadFree (loadFree_newselect regs), fun _ _ => hok rfl, fun _ _ => hok rfl,
    fun _ _ => hok rfl, fun _ _ => hok rfl, fun _ _ => hpos rfl, fun _ _ => hok rfl,
    fun _ _ => agrees_clone regs, fun _ _ => agrees_bufferIf rfl, fun _ _ => hpos rfl,
    fun _ _ => agrees_of_loadFree (loadFree_epollWait regs),
    fun _ _ => agrees_of_loadFree (loadFree_gettimeofday regs), fun _ _ => hpos rfl,
    fun _ _ => agrees_of_loadFree (loadFree_prctl regs), fun _ _ => agrees_bufferIf rfl,
    fun _ h => (List.not_mem_nil h).elim⟩

/-- **Post and replay handlers agree**, for every call of the table that comes back: what
the post handler appended is what the replay handler takes, whatever memory it runs on, and
all of it is where it was. -/
theorem post_replay_agree {nr : Word} {entry : Entry S} (hentry : syscallTable nr = some entry)
    (hexit : nr ≠ nrExit) (hgroup : nr ≠ nrExitGroup) {regs : PushaRegs}
    (_hparent : ¬ Replay.isChild nr regs) {env : PostEnv} {out : Posted}
    (hpost : entry.post env regs = .ok out) {kernel : Kernel S} (hkernel : kernel.Maps regs)
    (target : Target S) (rest : List Byte) :
    ∃ target', entry.replay kernel regs target (out.pieces.flatten ++ rest) =
        .ok ⟨target', rest, out.pieces.map List.length, false⟩ ∧
      ∀ a ∈ out.saved, target'.mem a = env.mem.contents a := by
  obtain ⟨e, hfind, rfl⟩ := Option.map_eq_some_iff.mp hentry
  have hnr : e.1 = nr := by simpa using List.find?_some hfind
  have hmem := List.mem_of_find?_eq_some hfind
  exact handlers_agree regs e hmem (hnr ▸ hexit) (hnr ▸ hgroup) env out hpost kernel hkernel target rest

/-- A page with the arguments of a `getsockopt`: the option is at `0xb7f00100`, its length at
`0xb7f00200`. -/
def somePage : UserMem :=
  onePage fun a =>
    if a = 0xb7f00200 then 4 else if a = 0xb7f00102 then 7
    else ([0, 0, 0, 0xb7f00100, 0xb7f00200].flatMap leBytes).getD (a - 0xb7f00000).toNat 0

/-- A post handler that finds it. -/
def someEnv : PostEnv := quietEnv somePage

/-- The registers after the call: `socketcall(SYS_GETSOCKOPT, 0xb7f00000)` returned 0. -/
def someRegs : PushaRegs := ⟨0x202, 0, 0, 0, 0xbf000000, 15, 0, 0xb7f00000, 0⟩

/-- A kernel that does what it is asked for, and keeps nothing. -/
def someKernel : Kernel Unit where
  mmap2 target addr _ _ _ _ _ := (addr, target)
  munmap target _ _ := (0, target)
  mprotect target _ _ _ := (0, target)
  brk target _ := (0, target)
  write target _ _ len := (len, target)

theorem post_replay_agree_getsockopt :
    ∃ out, (Entry.ofScript socketcall : Entry Unit).post someEnv someRegs = .ok out ∧
      out.pieces.map List.length = [20, 4, 4] ∧
      ∃ target', (Entry.ofScript socketcall : Entry Unit).replay someKernel someRegs ⟨fun _ => 255, ()⟩
          (out.pieces.flatten ++ [1, 2]) = .ok ⟨target', [1, 2], out.pieces.map List.length, false⟩ ∧
        ∀ a ∈ out.saved, target'.mem a = somePage.contents a := by
  obtain ⟨out, hout, hlen⟩ := exists_ok (fun out : Posted => out.pieces.map List.length)
    (x := (Entry.ofScript socketcall : Entry Unit).post someEnv someRegs) (b := [20, 4, 4])
    (by decide +kernel)
  refine ⟨out, hout, hlen, ?_⟩
  have hentry : syscallTable 102 = some (Entry.ofScript socketcall : Entry Unit) := rfl
  exact post_replay_agree hentry (by decide) (by decide) (by decide) hout
    ⟨fun _ _ _ _ _ _ => rfl, fun _ _ _ _ => rfl, fun _ _ _ _ => rfl, fun _ => rfl⟩ _ _

end Snitchaser.Syscalls
