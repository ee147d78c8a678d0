import Snitchaser.Foundation.Runs
import Snitchaser.Interp.Tls

/-!
# Slot numbers as selectors

The number of a thread's slot is also its entry in the local descriptor table, and the
selector that is loaded into `fs` is made of it: index, table bit and privilege level in 16
bits. So there is room for `MAX_THREADS` slots. But `SZ_MAP` divides by the bytes of a word and
not by its bits: `thread_map` has eight times as many.

## What is proved

`find_set_free_slot` takes the lowest free slot (`findSetFreeSlot_lowest`) and ends in `FATAL`
only when all bits are set (`findSetFreeSlot_error`). Therefore `selectors_fit_iff`: all slots
of a run are below `MAX_THREADS`, with selectors of 16 bits that are all different, **if and only
if** every allocation of it finds one of the first `MAX_THREADS` slots free.
-/

namespace Snitchaser.Interp

open Foundation Bithacks

/-- `tpd->fs_val`: index, table bit 4 and privilege level 3. -/
def fsVal (tnr : ℕ) : Word := BitVec.ofNat 32 tnr * 8 + 4 + 3

theorem toNat_fsVal {n : ℕ} (hn : n < maxThreads) : (fsVal n).toNat = n * 8 + 7 := by
  unfold maxThreads at hn
  unfold fsVal
  rw [BitVec.add_assoc, show (4 + 3 : Word) = BitVec.ofNat 32 7 from rfl, BitVec.toNat_add,
    BitVec.toNat_mul, BitVec.toNat_ofNat, BitVec.toNat_ofNat, show (8 : Word).toNat = 8 from rfl]
  omega

/-! ### Which slot is found -/

/-- All slots of a full word are taken. -/
theorem usedAt_full {ws : List Word} {i m : ℕ} (hm : m / 32 = i) :
    usedAt (0xffffffff :: ws) i m = true := by
  unfold usedAt
  rw [hm, Nat.sub_self, List.getD_cons_zero, show (0xffffffff : Word) = BitVec.allOnes 32 from rfl,
    BitVec.getLsbD_allOnes]
  exact decide_eq_true (Nat.mod_lt m (by decide))

/-- The loop takes the lowest free slot. -/
theorem findSetFree_lowest {ws ws' : List Word} {i n : ℕ} (h : findSetFree ws i = some (n, ws'))
    {m : ℕ} (hi : i ≤ m / 32) (hm : m < n) : usedAt ws i m = true := by
  induction ws generalizing i ws' with
  | nil => cases h
  | cons w ws ih =>
    unfold findSetFree at h
    split_ifs at h with hw
    · -- the lowest clear bit of this word
      obtain ⟨k, hk⟩ := exists_lowestClear hw
      rw [last0Pos_eq hk] at h
      cases h
      have hlt := hk.1
      unfold usedAt
      rw [show m / 32 - i = 0 by omega, List.getD_cons_zero]
      exact hk.2.2 (m % 32) (by omega)
    · obtain ⟨⟨n', ws₁⟩, hfind, heq⟩ := Option.map_eq_some_iff.mp h
      cases heq
      rw [not_not] at hw
      subst hw
      obtain hmi | hmi := hi.eq_or_lt
      · exact usedAt_full hmi.symm
      · rw [usedAt_cons hmi]
        exact ih hfind hmi

/-- It finds none only if all are taken. -/
theorem usedAt_of_findSetFree_none {ws : List Word} {i : ℕ} (h : findSetFree ws i = none) {m : ℕ}
    (hi : i ≤ m / 32) (hm : m / 32 < i + ws.length) : usedAt ws i m = true := by
  induction ws generalizing i with
  | nil => exact absurd hm (not_lt.mpr hi)
  | cons w ws ih =>
    unfold findSetFree at h
    split_ifs at h with hw
    rw [not_not] at hw
    subst hw
    obtain hmi | hmi := hi.eq_or_lt
    · exact usedAt_full hmi.symm
    · rw [usedAt_cons hmi]
      refine ih (Option.map_eq_none_iff.mp h) hmi ?_
      rw [List.length_cons] at hm
      omega

/-- **`find_set_free_slot` takes the lowest free slot.** -/
theorem findSetFreeSlot_lowest {map map' : ThreadMap} {n : ℕ}
    (h : findSetFreeSlot map = .ok (n, map')) {m : ℕ} (hm : m < n) : map.used m = true := by
  unfold findSetFreeSlot at h
  split at h
  · rename_i n' words hfind
    cases h
    exact findSetFree_lowest hfind (Nat.zero_le _) hm
  · cases h

/-- **It ends in `FATAL` only if every bit of the map is set.** -/
theorem findSetFreeSlot_error {map : ThreadMap} {e : Fault} (h : findSetFreeSlot map = .error e)
    {m : ℕ} (hm : m / 32 < szMap) : map.used m = true := by
  unfold findSetFreeSlot at h
  split at h
  · cases h
  · rename_i hfind
    refine usedAt_of_findSetFree_none hfind (Nat.zero_le _) ?_
    rwa [Nat.zero_add, map.length_eq]

/-! ### Runs -/

/-- **The slots fit the selector.** -/
structure Slots.Fit (s : Slots) : Prop where
  /-- The slots are those there are descriptors for. -/
  below : ∀ n ∈ s.live, n < maxThreads
  /-- A selector has 16 bits. -/
  bits : ∀ n ∈ s.live, (fsVal n).toNat < 2 ^ 16
  /-- No two threads have the same. -/
  distinct : ∀ m ∈ s.live, ∀ n ∈ s.live, m ≠ n → fsVal m ≠ fsVal n
  /-- A thread is refused only when all slots are in use. -/
  full : ∀ e, s.step .allocate = .error e → ∀ n < maxThreads, n ∈ s.live

/-- An allocation finds one of the first `MAX_THREADS` slots free. -/
def Slots.HasFree (s : Slots) (op : SlotOp) : Prop := op = .allocate → ∃ n < maxThreads, n ∉ s.live

theorem Slots.Inv.fit {s : Slots} (h : s.Inv) (hbelow : ∀ n ∈ s.live, n < maxThreads) : s.Fit where
  below := hbelow
  bits n hn := by
    have hlt := hbelow n hn
    rw [toNat_fsVal hlt]
    unfold maxThreads at hlt
    omega
  distinct m hm n hn hne heq := by
    have hnat := congrArg BitVec.toNat heq
    rw [toNat_fsVal (hbelow m hm), toNat_fsVal (hbelow n hn)] at hnat
    omega
  full e herror n hn := by
    rcases bind_eq_error.mp herror with hfind | ⟨_, _, hok⟩
    · refine (h.used_iff n).mp (findSetFreeSlot_error hfind ?_)
      unfold szMap
      unfold maxThreads at hn ⊢
      omega
    · cases hok

/-- What an allocation that succeeds takes: the lowest slot that is not live. -/
theorem Slots.Inv.allocate_cases {s s' : Slots} (h : s.Inv) (hok : s.step .allocate = .ok s') :
    ∃ n, s'.live = n :: s.live ∧ n ∉ s.live ∧ ∀ m < n, m ∈ s.live := by
  obtain ⟨⟨n, map⟩, hfind, hok⟩ := bind_eq_ok.mp hok
  cases hok
  exact ⟨n, rfl, h.fresh hfind, fun m hm => (h.used_iff m).mp (findSetFreeSlot_lowest hfind hm)⟩

/-- **The slots fit the selector all along a run, if and only if** every allocation of it finds
one of the first `MAX_THREADS` slots free. -/
theorem selectors_fit_iff (ops : List SlotOp) :
    Throughout Slots.step Slots.Fit initSlots ops ↔
      MeetsEach Slots.step Slots.HasFree initSlots ops := by
  have hinit : initSlots.Inv ∧ ∀ n ∈ initSlots.live, n < maxThreads :=
    ⟨inv_initSlots, fun n hn => absurd hn List.not_mem_nil⟩
  refine throughout_iff (fun s (h : s.Inv ∧ ∀ n ∈ s.live, n < maxThreads) => h.1.fit h.2) ?_ ?_ hinit ops
  · rintro s op s' ⟨hinv, hbelow⟩ hfree hstep
    refine ⟨hinv.step hstep, ?_⟩
    cases op with
    | allocate =>
      obtain ⟨n, hlive, -, hlowest⟩ := hinv.allocate_cases hstep
      obtain ⟨k, hk, hnot⟩ := hfree rfl
      have hn : n ≤ k := le_of_not_gt fun hlt => hnot (hlowest k hlt)
      rw [hlive]
      exact List.forall_mem_cons.mpr ⟨hn.trans_lt hk, hbelow⟩
    | release tnr =>
      obtain ⟨map, -, hok⟩ := bind_eq_ok.mp hstep
      cases hok
      exact fun n hn => hbelow n (List.mem_of_mem_erase hn)
  · rintro s op s' ⟨hinv, -⟩ hnone hstep hfit
    unfold Slots.HasFree at hnone
    push Not at hnone
    obtain ⟨rfl, hall⟩ := hnone
    obtain ⟨n, hlive, hfresh, -⟩ := hinv.allocate_cases hstep
    have hn : n < maxThreads := hfit.below n (by rw [hlive]; exact List.mem_cons_self)
    exact hfresh (hall n hn)

/-! ### Many threads -/

/-- As long as there are bits, threads that begin get the slots in order. -/
theorem run_allocate (n : ℕ) (hn : n / 32 < szMap) :
    ∃ s, initSlots.run (List.replicate n .allocate) = .ok s ∧ s.Inv ∧ ∀ m, m ∈ s.live ↔ m < n := by
  induction n with
  | zero => exact ⟨initSlots, rfl, inv_initSlots, fun m => by simp [initSlots]⟩
  | succ n ih =>
    obtain ⟨s, hrun, hinv, hlive⟩ := ih (by omega)
    have hfree : s.map.used n = false := by
      rw [← Bool.not_eq_true, hinv.used_iff, hlive]
      exact Nat.lt_irrefl n
    cases hstep : s.step .allocate with
    | error e =>
      rcases bind_eq_error.mp hstep with hfind | ⟨_, _, hok⟩
      · rw [findSetFreeSlot_error hfind (by omega)] at hfree
        cases hfree
      · cases hok
    | ok s' =>
      obtain ⟨k, hlive', hfresh, hlowest⟩ := hinv.allocate_cases hstep
      have hk : k = n := by
        have hge : n ≤ k := le_of_not_gt fun hlt => hfresh ((hlive k).mpr hlt)
        have hle : k ≤ n := le_of_not_gt fun hlt =>
          Nat.lt_irrefl n ((hlive n).mp (hlowest n hlt))
        omega
      refine ⟨s', ?_, hinv.step hstep, fun m => ?_⟩
      · rw [List.replicate_succ', Slots.run, List.foldlM_append]
        exact bind_eq_ok.mpr ⟨s, hrun, bind_eq_ok.mpr ⟨s', hstep, rfl⟩⟩
      · rw [hlive', hk, List.mem_cons, hlive]
        omega

/-- `MAX_THREADS` threads live, and one more begins: it gets slot `MAX_THREADS`, whose selector
has 17 bits. -/
theorem slot_beyond_selectors :
    ∃ s s', initSlots.run (List.replicate maxThreads .allocate) = .ok s ∧
      s.step .allocate = .ok s' ∧ maxThreads ∈ s'.live ∧ (fsVal maxThreads).toNat = 2 ^ 16 + 7 ∧
      ¬ s'.Fit := by
  obtain ⟨s', hrun, -, hlive⟩ := run_allocate (maxThreads + 1) (by decide)
  rw [List.replicate_succ', Slots.run, List.foldlM_append] at hrun
  obtain ⟨s, hrun, hlast⟩ := bind_eq_ok.mp hrun
  obtain ⟨s₁, hstep, hs₁⟩ := bind_eq_ok.mp hlast
  cases hs₁
  have hmem : maxThreads ∈ s'.live := (hlive maxThreads).mpr (Nat.lt_succ_self _)
  exact ⟨s, s', hrun, hstep, hmem, by decide, fun hfit => Nat.lt_irrefl _ (hfit.below _ hmem)⟩

end Snitchaser.Interp
