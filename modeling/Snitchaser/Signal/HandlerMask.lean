import Mathlib.Data.Set.Insert
import Snitchaser.Signal.KillSignal

/-!
# The mask inside a handler

While a handler runs, its thread is to block the signals of the action's `sa_mask` and the
signal itself, and if the signal broke an `rt_sigsuspend` also those of the suspend mask.
`signal_handler` computes this set in the two words of `tpd->unblock_sigmask`. It puts the
signal in with `unblock_sigmask[_num / 64] |= 1UL << (_num % 64)`, on words of 32 bits.

## The model

* `Sigset.signals` is the set of signals that two words stand for.
* `writeHandlerMask` are the writes to `unblock_sigmask`, in the memory the thread's data
  are in. They leave what `handlerMask` says (`loadSigset_writeHandlerMask`).
* Whether a signal broke an `rt_sigsuspend` cannot be told from the thread alone: right
  behind the system call it can also be found because the call has failed, or because a
  handler has returned there. So it is given with the signal (`Breaks`).

## What is proved

`handlerMask_right_iff`: the words are right, and nothing else has been written, **if and
only if** the signal is one of the first 32, or both it and the signal 32 before it are in
the set anyway; and no mask is taken from an `rt_sigsuspend` that the signal did not break,
or it makes no difference.
-/

namespace Snitchaser.Signal

open Foundation Foundation.X86

/-! ### Sets of signals -/

/-- The signals of a set, each by its number less one. -/
def Sigset.signals (m : Sigset) : Set (Fin 64) := {s | (m.hi ++ m.lo).getLsbD s = true}

/-- The union of two sets, word by word. -/
def Sigset.union (m m' : Sigset) : Sigset := ⟨m.lo ||| m'.lo, m.hi ||| m'.hi⟩

section Signals

variable (m m' : Sigset) (s : Fin 64)

theorem Sigset.mem_signals :
    s ∈ m.signals ↔ (if s.val < 32 then m.lo.getLsbD s else m.hi.getLsbD (s - 32)) = true := by
  unfold Sigset.signals
  rw [Set.mem_ofPred_eq, BitVec.getLsbD_append]

instance : Decidable (s ∈ m.signals) := decidable_of_iff _ (m.mem_signals s).symm

theorem Sigset.signals_union : (m.union m').signals = m.signals ∪ m'.signals := by
  ext s
  rw [Set.mem_union, Sigset.mem_signals, Sigset.mem_signals, Sigset.mem_signals]
  unfold Sigset.union
  split_ifs
  · rw [BitVec.getLsbD_or, Bool.or_eq_true]
  · rw [BitVec.getLsbD_or, Bool.or_eq_true]

/-- The signal of the lower word that has the bit of a signal. -/
def lowSignal : Fin 64 := ⟨s.val % 32, by omega⟩

theorem lowSignal_eq_iff : lowSignal s = s ↔ s.val < 32 := by
  rw [Fin.ext_iff]
  exact Nat.mod_eq_iff_lt (by decide)

/-- `1UL << (_num % 64)`: the processor takes the count of the shift modulo 32. -/
def signalBit : Word := (1 : Word) <<< (s.val % 64 % 32)

theorem getLsbD_signalBit {i : ℕ} (hi : i < 32) :
    (signalBit s).getLsbD i = decide (i = (lowSignal s).val) := by
  revert s i
  decide +kernel

/-- A bit of the lower word. -/
theorem Sigset.signals_low :
    { m with lo := m.lo ||| signalBit s }.signals = insert (lowSignal s) m.signals := by
  ext t
  rw [Set.mem_insert_iff, Sigset.mem_signals, Sigset.mem_signals, Fin.ext_iff]
  split_ifs with ht
  · rw [BitVec.getLsbD_or, Bool.or_eq_true, getLsbD_signalBit s ht, decide_eq_true_eq, or_comm]
  · have hne : t.val ≠ (lowSignal s).val := fun heq => ht (heq ▸ Nat.mod_lt s.val (by decide))
    rw [or_iff_right hne]

end Signals

/-! ### The writes -/

/-- Where `correct_sigsuspend` takes a mask: behind the system call of an
`rt_sigsuspend`, with the address of its mask. -/
def AtSuspend (d : Delivery) (tpd : Tpd) : Prop :=
  tpd.currentSyscallNr = some nrRtSigsuspend ∧ d.frame.sc.ip = d.afterNormalInt80 ∧ d.frame.sc.bx ≠ 0

instance (d : Delivery) (tpd : Tpd) : Decidable (AtSuspend d tpd) :=
  inferInstanceAs (Decidable (_ ∧ _ ∧ _))

/-- The mask of `rt_sigsuspend`. -/
def suspendMask (d : Delivery) : Sigset := loadSigset d.mem d.frame.sc.bx

/-- What the signal is added to. -/
def baseMask (d : Delivery) (tpd : Tpd) : Sigset :=
  if AtSuspend d tpd then (tpd.sigactions d.num).saMask.union (suspendMask d)
  else (tpd.sigactions d.num).saMask

theorem handlerMask_eq (d : Delivery) (tpd : Tpd) :
    handlerMask d tpd =
      { baseMask d tpd with lo := (baseMask d tpd).lo ||| signalBit d.num } := by
  have hbit : ((1 <<< (d.num.val % 64 % 32) : ℕ) : Word) = signalBit d.num := by
    generalize d.num = s
    revert s
    decide +kernel
  have hbase : baseMask d tpd =
      if tpd.currentSyscallNr = some nrRtSigsuspend then
        correctSigsuspend d d.frame.sc.ip (tpd.sigactions d.num).saMask
      else (tpd.sigactions d.num).saMask := by
    by_cases hat : AtSuspend d tpd
    · obtain ⟨hnr, hip, hbx⟩ := hat
      rw [baseMask, if_pos ⟨hnr, hip, hbx⟩, if_pos hnr, correctSigsuspend, if_pos hip, if_neg hbx]
      rfl
    · rw [baseMask, if_neg hat]
      unfold correctSigsuspend
      split_ifs with hnr hip hbx
      · rfl
      · exact absurd ⟨hnr, hip, hbx⟩ hat
      · rfl
      · rfl
  unfold handlerMask
  rw [hbit, hbase]

/-- `words[i] |= bits`, for words from `p` on. -/
def orWord (p : Word) (i : ℕ) (bits : Word) (mem : Mem) : Mem :=
  store32 mem (p + BitVec.ofNat 32 (4 * i)) (load32 mem (p + BitVec.ofNat 32 (4 * i)) ||| bits)

/-- The writes of `signal_handler` and `correct_sigsuspend` to `tpd->unblock_sigmask`, which
is at `p`. -/
def writeHandlerMask (d : Delivery) (tpd : Tpd) (p : Word) (mem : Mem) : Mem :=
  let mem := store32 mem p (tpd.sigactions d.num).saMask.lo
  let mem := store32 mem (p + 4) (tpd.sigactions d.num).saMask.hi
  let mem :=
    if AtSuspend d tpd then
      orWord p 1 (load32 d.mem (d.frame.sc.bx + 4)) (orWord p 0 (load32 d.mem d.frame.sc.bx) mem)
    else mem
  orWord p (d.num.val / 64) (signalBit d.num) mem

section Writes

variable (p v : Word) (mem : Mem)

theorem loadSigset_store32_lo :
    loadSigset (store32 mem p v) p = { loadSigset mem p with lo := v } := by
  have hhi : load32 (store32 mem (p + BitVec.ofNat 32 0) v) (p + BitVec.ofNat 32 4) =
      load32 mem (p + BitVec.ofNat 32 4) :=
    load32_store32_add mem p v (by decide) (by decide) (by decide)
  rw [BitVec.add_zero] at hhi
  unfold loadSigset
  rw [load32_store32, show p + 4 = p + BitVec.ofNat 32 4 from rfl, hhi]

theorem loadSigset_store32_hi :
    loadSigset (store32 mem (p + 4) v) p = { loadSigset mem p with hi := v } := by
  have hlo : load32 (store32 mem (p + BitVec.ofNat 32 4) v) (p + BitVec.ofNat 32 0) =
      load32 mem (p + BitVec.ofNat 32 0) :=
    load32_store32_add mem p v (by decide) (by decide) (by decide)
  rw [BitVec.add_zero] at hlo
  unfold loadSigset
  rw [load32_store32, show p + 4 = p + BitVec.ofNat 32 4 from rfl, hlo]

theorem loadSigset_orWord_zero :
    loadSigset (orWord p 0 v mem) p = { loadSigset mem p with lo := (loadSigset mem p).lo ||| v } := by
  have hp : p + BitVec.ofNat 32 (4 * 0) = p := BitVec.add_zero p
  rw [orWord, hp]
  exact loadSigset_store32_lo p _ mem

theorem loadSigset_orWord_one :
    loadSigset (orWord p 1 v mem) p = { loadSigset mem p with hi := (loadSigset mem p).hi ||| v } :=
  loadSigset_store32_hi p _ mem

/-- **The writes leave the mask.** -/
theorem loadSigset_writeHandlerMask (d : Delivery) (tpd : Tpd) :
    loadSigset (writeHandlerMask d tpd p mem) p = handlerMask d tpd := by
  have hword : d.num.val / 64 = 0 := Nat.div_eq_of_lt d.num.isLt
  rw [handlerMask_eq, writeHandlerMask, hword, loadSigset_orWord_zero]
  unfold baseMask
  split_ifs
  · rw [loadSigset_orWord_one, loadSigset_orWord_zero, loadSigset_store32_hi, loadSigset_store32_lo]
    rfl
  · rw [loadSigset_store32_hi, loadSigset_store32_lo]

/-- A write to one of the two words. -/
theorem store32_outside {x : Word} {i : ℕ} (hi : i < 2) (h : 8 ≤ (x - p).toNat) :
    store32 mem (p + BitVec.ofNat 32 (4 * i)) v x = mem x := by
  apply store_outside
  have hsub : x - (p + BitVec.ofNat 32 (4 * i)) = x - p - BitVec.ofNat 32 (4 * i) := by ring
  rw [hsub, length_leBytes, BitVec.toNat_sub_of_le, BitVec.toNat_ofNat]
  · omega
  · rw [BitVec.le_def, BitVec.toNat_ofNat]
    omega

/-- **They stay in the two words.** -/
theorem writeHandlerMask_outside (d : Delivery) (tpd : Tpd) {x : Word} (h : 8 ≤ (x - p).toNat) :
    writeHandlerMask d tpd p mem x = mem x := by
  have hlo : ∀ (mem : Mem) v, store32 mem p v x = mem x := fun mem v => by
    have hstore := store32_outside p v mem (i := 0) (by decide) h
    rwa [Nat.mul_zero, BitVec.add_zero] at hstore
  have hhi : ∀ (mem : Mem) v, store32 mem (p + 4) v x = mem x := fun mem v =>
    store32_outside p v mem (i := 1) (by decide) h
  have hor : ∀ (mem : Mem) {i} v, i < 2 → orWord p i v mem x = mem x := fun mem i v hi =>
    store32_outside p _ mem hi h
  have hword : d.num.val / 64 < 2 := by omega
  rw [writeHandlerMask, hor _ _ hword]
  split_ifs
  · rw [hor _ _ (by decide), hor _ _ (by decide), hhi, hlo]
  · rw [hhi, hlo]

end Writes

/-! ### The set that is due -/

/-- Whether a signal broke an `rt_sigsuspend`. One that did finds the thread behind the
system call, with the address of the mask: without one the call fails with `EFAULT`. -/
structure Breaks (d : Delivery) (tpd : Tpd) where
  broke : Bool
  atSuspend : broke = true → AtSuspend d tpd

/-- The signals that are to be blocked. -/
def dueSignals (d : Delivery) (tpd : Tpd) (b : Breaks d tpd) : Set (Fin 64) :=
  (tpd.sigactions d.num).saMask.signals ∪ {d.num} ∪
    if b.broke then (suspendMask d).signals else ∅

/-- **The mask inside the handler is right**, in the thread's data and in the words at `p`,
and nothing else is written for it. -/
structure HandlerMaskRight (d : Delivery) (tpd : Tpd) (b : Breaks d tpd) (p : Word) (mem : Mem) :
    Prop where
  signals : (signalHandler d tpd).1.unblockSigmask.signals = dueSignals d tpd b
  words : loadSigset (writeHandlerMask d tpd p mem) p = (signalHandler d tpd).1.unblockSigmask
  outside : ∀ x, 8 ≤ (x - p).toNat → writeHandlerMask d tpd p mem x = mem x

/-- Two sets that got different elements, and one of them some more. -/
theorem insert_union_eq_insert_iff {α : Type} {a b : α} {s t : Set α} :
    insert a (s ∪ t) = insert b s ↔ t ⊆ insert b s ∧ (a = b ∨ b ∈ s ∪ t ∧ a ∈ s ∪ t) := by
  constructor
  · intro h
    refine ⟨fun x hx => h ▸ .inr (.inr hx), ?_⟩
    by_cases hab : a = b
    · exact .inl hab
    · have hb : b ∈ insert a (s ∪ t) := h ▸ Set.mem_insert b s
      have ha : a ∈ insert b s := h ▸ Set.mem_insert a (s ∪ t)
      exact .inr ⟨hb.resolve_left (Ne.symm hab), .inl (ha.resolve_left hab)⟩
  · rintro ⟨ht, rfl | ⟨hb, ha⟩⟩
    · rw [← Set.insert_union, Set.union_eq_left.mpr ht]
    · rw [Set.insert_eq_of_mem ha]
      refine Set.Subset.antisymm (Set.union_subset (Set.subset_insert b s) ht) ?_
      exact Set.insert_subset hb Set.subset_union_left

theorem insert_eq_insert_iff {α : Type} {a b : α} {s : Set α} :
    insert a s = insert b s ↔ a = b ∨ b ∈ s ∧ a ∈ s := by
  have h := insert_union_eq_insert_iff (a := a) (b := b) (s := s) (t := ∅)
  rwa [Set.union_empty, and_iff_right (Set.empty_subset _)] at h

/-- The signals after `signal_handler`. -/
theorem signals_signalHandler (d : Delivery) (tpd : Tpd) :
    (signalHandler d tpd).1.unblockSigmask.signals =
      insert (lowSignal d.num) (baseMask d tpd).signals := by
  change (handlerMask d tpd).signals = _
  rw [handlerMask_eq, Sigset.signals_low]

/-- The set that is due, if the mask of an `rt_sigsuspend` is taken as it should be. -/
theorem dueSignals_of_iff {d : Delivery} {tpd : Tpd} (b : Breaks d tpd)
    (h : b.broke = true ↔ AtSuspend d tpd) :
    dueSignals d tpd b = insert d.num (baseMask d tpd).signals := by
  unfold dueSignals baseMask
  simp only [h]
  split_ifs
  · rw [Sigset.signals_union, Set.union_singleton, Set.insert_union]
  · rw [Set.union_empty, Set.union_singleton]

/-- **When the mask inside a handler is right.** -/
theorem handlerMask_right_iff (d : Delivery) (tpd : Tpd) (b : Breaks d tpd) (p : Word) (mem : Mem) :
    HandlerMaskRight d tpd b p mem ↔
      (AtSuspend d tpd → b.broke = false →
        (suspendMask d).signals ⊆ insert d.num (tpd.sigactions d.num).saMask.signals) ∧
      (d.num.val < 32 ∨
        d.num ∈ (baseMask d tpd).signals ∧ lowSignal d.num ∈ (baseMask d tpd).signals) := by
  have hright : HandlerMaskRight d tpd b p mem ↔
      insert (lowSignal d.num) (baseMask d tpd).signals = dueSignals d tpd b := by
    rw [← signals_signalHandler]
    exact ⟨fun h => h.signals, fun h => ⟨h, loadSigset_writeHandlerMask p mem d tpd,
      fun x hx => writeHandlerMask_outside p mem d tpd hx⟩⟩
  rw [hright, ← lowSignal_eq_iff]
  by_cases hiff : b.broke = true ↔ AtSuspend d tpd
  · -- the mask is taken if and only if the signal broke the call
    rw [dueSignals_of_iff b hiff, insert_eq_insert_iff, iff_and_self]
    intro _ hat hbroke
    exact absurd (hiff.mpr hat) (by simp [hbroke])
  · -- it is taken from a call that the signal did not break
    have hat : AtSuspend d tpd := by
      by_contra hat
      exact hiff ⟨b.atSuspend, fun h => absurd h hat⟩
    have hbroke : b.broke = false := by
      rw [Bool.eq_false_iff]
      exact fun hbroke => hiff ⟨b.atSuspend, fun _ => hbroke⟩
    have hbase : (baseMask d tpd).signals =
        (tpd.sigactions d.num).saMask.signals ∪ (suspendMask d).signals := by
      rw [baseMask, if_pos hat, Sigset.signals_union]
    have hdue : dueSignals d tpd b = insert d.num (tpd.sigactions d.num).saMask.signals := by
      simp [dueSignals, hbroke]
    rw [hbase, hdue, insert_union_eq_insert_iff]
    simp only [hat, hbroke, forall_const]

/-- Signal 34, in a `read`. -/
def realTimeSignal : Delivery := { someDelivery with num := 33 }

/-- `SIGINT` behind an `rt_sigsuspend`, with a mask of signals 1, 9, 17 and so on. -/
def behindSuspend : Delivery :=
  { someDelivery with
    num := 1
    frame := { someDelivery.frame with sc := { someDelivery.frame.sc with bx := 0x9000 } }
    mem := fun _ => 1 }

/-- A thread in `rt_sigsuspend`. -/
def suspended : Tpd := { interruptedRead.tpd with currentSyscallNr := some nrRtSigsuspend }

/-- **Signal 34 is not blocked in its handler**, and signal 2 is in its place. And signals
are blocked in the handler of one that came when the `rt_sigsuspend` had already failed. -/
theorem realTimeSignal_not_blocked :
    (signalHandler realTimeSignal interruptedRead.tpd).1.unblockSigmask = ⟨2, 0⟩ ∧
      ¬HandlerMaskRight realTimeSignal interruptedRead.tpd ⟨false, by simp⟩ 0x5000 (fun _ => 0) ∧
      (signalHandler behindSuspend suspended).1.unblockSigmask = ⟨0x01010103, 0x01010101⟩ ∧
      ¬HandlerMaskRight behindSuspend suspended ⟨false, by simp⟩ 0x5000 (fun _ => 0) := by
  refine ⟨by decide, fun h => ?_, by decide, fun h => ?_⟩
  · have hblocked : (33 : Fin 64) ∈
        (signalHandler realTimeSignal interruptedRead.tpd).1.unblockSigmask.signals :=
      h.signals ▸ .inl (.inr rfl)
    exact absurd hblocked (by decide)
  · have hblocked : (0 : Fin 64) ∈ dueSignals behindSuspend suspended ⟨false, by simp⟩ :=
      h.signals ▸ (by decide)
    rcases hblocked with (haction | hsignal) | hsuspend
    · exact absurd haction (by decide)
    · exact absurd hsignal (by decide)
    · exact hsuspend

end Snitchaser.Signal
