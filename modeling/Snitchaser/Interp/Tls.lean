import Snitchaser.Common.Bithacks
import Mathlib.Data.Set.BooleanAlgebra
import Mathlib.Order.CompletePartialOrder
import Mathlib.Data.Set.Disjoint
import Mathlib.Data.List.Nodup

/-!
# Thread slots

`tls.c`: each thread has a number, a slot of the bitmap `thread_map`, and with it a fixed
area for its stack and its private data. A thread that begins takes the lowest free slot,
one that ends gives its slot back.

The map is larger than it has to be (`SZ_MAP` divides by the size of a word, not by its
bits), so numbers from `MAX_THREADS` on are handed out as well. Locks, descriptors and the
mapping of the areas are left out.

## What is proved

A bit of the map is set exactly if the slot is live (`Slots.Inv`), so that
`slots_exclusive`: whatever is allocated and released, a slot that is handed out was free,
no two threads hold the same, and their areas do not overlap.
-/

namespace Snitchaser.Interp

open Bithacks

/-- `MAX_THREADS`. -/
def maxThreads : ℕ := 1 <<< 13

/-- `SZ_MAP`. -/
def szMap : ℕ := maxThreads / 4

/-- `thread_map`. -/
structure ThreadMap where
  words : List Word
  length_eq : words.length = szMap

/-- The slot is taken. -/
def ThreadMap.used (map : ThreadMap) (n : ℕ) : Bool := (map.words.getD (n / 32) 0).getLsbD (n % 32)

/-- All slots are free at first. -/
def emptyMap : ThreadMap := ⟨List.replicate szMap 0, List.length_replicate⟩

/-- The loop of `find_set_free_slot`, from word `i` on. -/
def findSetFree : List Word → ℕ → Option (ℕ × List Word)
  | [], _ => none
  | w :: ws, i =>
    if w ≠ 0xffffffff then some (i * 32 + (last0Pos w).toNat, setLast0 w :: ws)
    else (findSetFree ws (i + 1)).map fun (n, ws') => (n, w :: ws')

theorem length_findSetFree {ws ws' : List Word} {i n : ℕ} (h : findSetFree ws i = some (n, ws')) :
    ws'.length = ws.length := by
  induction ws generalizing i ws' with
  | nil => cases h
  | cons w ws ih =>
    unfold findSetFree at h
    split_ifs at h
    · cases h
      rfl
    · obtain ⟨⟨m, ws₁⟩, hfind, heq⟩ := Option.map_eq_some_iff.mp h
      cases heq
      rw [List.length_cons, List.length_cons, ih hfind]

/-- `find_set_free_slot`. -/
def findSetFreeSlot (map : ThreadMap) : Except Fault (ℕ × ThreadMap) :=
  match h : findSetFree map.words 0 with
  | some (n, words) => .ok (n, ⟨words, (length_findSetFree h).trans map.length_eq⟩)
  | none => .error (.fatal "TLS slot is full\n")

/-- `clear_tls_slot(tnr)`, on the map. -/
def clearTlsSlot (map : ThreadMap) (tnr : ℕ) : Except Fault ThreadMap :=
  if tnr / 32 < szMap then
    .ok ⟨map.words.set (tnr / 32) (unsetBitN (map.words.getD (tnr / 32) 0) (tnr % 32)),
      (List.length_set).trans map.length_eq⟩
  else .error .overrun

/-- `TLS_STACK_SIZE`. -/
def tlsStackSize : ℕ := 0x3000

/-- `TNR_TO_STACK(n)`. -/
def tnrToStack (n : ℕ) : Word := (BitVec.ofNat 32 n + 1) * BitVec.ofNat 32 tlsStackSize

/-- The area of a thread. -/
def area (n : ℕ) : Set Word := { a | ∃ i < tlsStackSize, a = tnrToStack n + BitVec.ofNat 32 i }

/-! ### The map -/

/-- A slot of the words from `i` on. -/
def usedAt (ws : List Word) (i n : ℕ) : Bool := (ws.getD (n / 32 - i) 0).getLsbD (n % 32)

/-- A slot behind the first word is a slot of the other words. -/
theorem usedAt_cons {w : Word} {ws : List Word} {i m : ℕ} (hm : i + 1 ≤ m / 32) :
    usedAt (w :: ws) i m = usedAt ws (i + 1) m := by
  unfold usedAt
  rw [show m / 32 - i = m / 32 - (i + 1) + 1 by omega, List.getD_cons_succ]

/-- **The slot that is found was free, and is the one that is set.** -/
theorem findSetFree_spec {ws ws' : List Word} {i n : ℕ} (h : findSetFree ws i = some (n, ws')) :
    i ≤ n / 32 ∧ n / 32 < i + ws.length ∧ usedAt ws i n = false ∧
      ∀ m, i ≤ m / 32 → usedAt ws' i m = (usedAt ws i m || decide (m = n)) := by
  induction ws generalizing i ws' with
  | nil => cases h
  | cons w ws ih =>
    unfold findSetFree at h
    split_ifs at h with hw
    · -- this word has a clear bit
      obtain ⟨k, hk⟩ := exists_lowestClear hw
      rw [last0Pos_eq hk] at h
      cases h
      have hdiv : (i * 32 + k) / 32 = i := by have := hk.1; omega
      have hmod : (i * 32 + k) % 32 = k := by have := hk.1; omega
      refine ⟨hdiv.ge, by rw [hdiv]; simp, ?_, fun m hm => ?_⟩
      · unfold usedAt
        rw [hdiv, hmod, Nat.sub_self]
        exact hk.2.1
      · unfold usedAt
        by_cases hmi : m / 32 = i
        · rw [hmi, Nat.sub_self, List.getD_cons_zero, List.getD_cons_zero, getLsbD_setLast0 hk]
          congr 2
          rw [eq_iff_iff]
          omega
        · obtain ⟨d, hd⟩ : ∃ d, m / 32 - i = d + 1 := ⟨m / 32 - i - 1, by omega⟩
          have hne : m ≠ i * 32 + k := by
            rintro rfl
            exact hmi hdiv
          rw [hd, List.getD_cons_succ, List.getD_cons_succ, decide_eq_false hne, Bool.or_false]
    · -- it is full: the slot is in a later one
      obtain ⟨⟨n', ws₁⟩, hfind, heq⟩ := Option.map_eq_some_iff.mp h
      cases heq
      obtain ⟨hle, hlt, hfree, hset⟩ := ih hfind
      refine ⟨by omega, by rw [List.length_cons]; omega, ?_, fun m hm => ?_⟩
      · rw [usedAt_cons hle]
        exact hfree
      · by_cases hmi : m / 32 = i
        · have hne : m ≠ n := by
            rintro rfl
            omega
          unfold usedAt
          rw [hmi, Nat.sub_self, List.getD_cons_zero, List.getD_cons_zero, decide_eq_false hne,
            Bool.or_false]
        · have hm' : i + 1 ≤ m / 32 := by omega
          rw [usedAt_cons hm', usedAt_cons hm', hset m hm']

/-- **`find_set_free_slot` takes a slot that was free.** -/
theorem findSetFreeSlot_spec {map map' : ThreadMap} {n : ℕ} (h : findSetFreeSlot map = .ok (n, map')) :
    n / 32 < szMap ∧ map.used n = false ∧ ∀ m, map'.used m = (map.used m || decide (m = n)) := by
  unfold findSetFreeSlot at h
  split at h
  · rename_i n' words hfind
    cases h
    obtain ⟨-, hlt, hfree, hset⟩ := findSetFree_spec hfind
    rw [Nat.zero_add, map.length_eq] at hlt
    exact ⟨hlt, hfree, fun m => hset m (Nat.zero_le _)⟩
  · cases h

/-- **`clear_tls_slot` frees the slot**, and no other. -/
theorem clearTlsSlot_spec {map map' : ThreadMap} {tnr : ℕ} (h : clearTlsSlot map tnr = .ok map')
    (m : ℕ) : map'.used m = (map.used m && decide (m ≠ tnr)) := by
  unfold clearTlsSlot at h
  split_ifs at h with hlt
  cases h
  have hlen : tnr / 32 < map.words.length := by rwa [map.length_eq]
  unfold ThreadMap.used
  by_cases hdiv : m / 32 = tnr / 32
  · rw [hdiv, List.getD_eq_getElem _ _ (by rwa [List.length_set]), List.getElem_set_self,
      getLsbD_unsetBitN]
    congr 2
    rw [eq_iff_iff]
    omega
  · have hne : m ≠ tnr := by
      rintro rfl
      exact hdiv rfl
    show ((map.words.set _ _).getD (m / 32) 0).getLsbD _ = _
    rw [decide_eq_true hne, Bool.and_true, List.getD_eq_getElem?_getD,
      List.getElem?_set_ne (Ne.symm hdiv), ← List.getD_eq_getElem?_getD]

/-! ### Threads -/

/-- The map, and the slots of the threads that live. -/
structure Slots where
  map : ThreadMap
  live : List ℕ

/-- No thread lives at first. -/
def initSlots : Slots := ⟨emptyMap, []⟩

/-- What happens to slots. -/
inductive SlotOp where
  /-- A thread begins. -/
  | allocate
  /-- A thread ends. -/
  | release (tnr : ℕ)

/-- One of them. -/
def Slots.step (s : Slots) : SlotOp → Except Fault Slots
  | .allocate => do
    let (n, map) ← findSetFreeSlot s.map
    .ok ⟨map, n :: s.live⟩
  | .release tnr => do
    let map ← clearTlsSlot s.map tnr
    .ok ⟨map, s.live.erase tnr⟩

/-- One after the other. -/
def Slots.run (s : Slots) (ops : List SlotOp) : Except Fault Slots := ops.foldlM Slots.step s

/-- **A bit of the map is set exactly if its slot is live**, and no slot is twice. -/
structure Slots.Inv (s : Slots) : Prop where
  used_iff : ∀ n, s.map.used n = true ↔ n ∈ s.live
  nodup : s.live.Nodup

theorem used_emptyMap (n : ℕ) : emptyMap.used n = false := by
  have hword : emptyMap.words.getD (n / 32) 0 = 0 := by
    show (List.replicate szMap (0 : Word)).getD (n / 32) 0 = 0
    rw [List.getD_eq_getElem?_getD, List.getElem?_replicate]
    split_ifs <;> rfl
  unfold ThreadMap.used
  rw [hword]
  exact BitVec.getLsbD_zero

theorem inv_initSlots : initSlots.Inv where
  used_iff n := by
    show emptyMap.used n = true ↔ n ∈ []
    rw [used_emptyMap]
    simp
  nodup := List.nodup_nil

/-- A slot that is found is not live. -/
theorem Slots.Inv.fresh {s : Slots} (h : s.Inv) {n : ℕ} {map : ThreadMap}
    (hfind : findSetFreeSlot s.map = .ok (n, map)) : n ∉ s.live := by
  intro hlive
  have hused := (h.used_iff n).mpr hlive
  rw [(findSetFreeSlot_spec hfind).2.1] at hused
  cases hused

/-- One step keeps the invariant. -/
theorem Slots.Inv.step {s s' : Slots} (h : s.Inv) {op : SlotOp} (hok : s.step op = .ok s') : s'.Inv := by
  cases op with
  | allocate =>
    obtain ⟨⟨n, map⟩, hfind, hok⟩ := bind_eq_ok.mp hok
    cases hok
    refine ⟨fun m => ?_, List.nodup_cons.mpr ⟨h.fresh hfind, h.nodup⟩⟩
    rw [(findSetFreeSlot_spec hfind).2.2, Bool.or_eq_true, h.used_iff, decide_eq_true_iff,
      List.mem_cons, or_comm]
  | release tnr =>
    obtain ⟨map, hclear, hok⟩ := bind_eq_ok.mp hok
    cases hok
    refine ⟨fun m => ?_, h.nodup.erase tnr⟩
    rw [clearTlsSlot_spec hclear, Bool.and_eq_true, h.used_iff, decide_eq_true_iff,
      h.nodup.mem_erase_iff, and_comm]

/-- A run keeps it. -/
theorem Slots.Inv.run {s s' : Slots} (h : s.Inv) {ops : List SlotOp} (hok : s.run ops = .ok s') :
    s'.Inv := by
  induction ops generalizing s with
  | nil =>
    cases hok
    exact h
  | cons op ops ih =>
    obtain ⟨s₁, hstep, hok⟩ := bind_eq_ok.mp hok
    exact ih (h.step hstep) hok

/-! ### Areas -/

theorem toNat_tnrToStack_add {n i : ℕ} (hn : n < maxThreads) (hi : i < tlsStackSize) :
    (tnrToStack n + BitVec.ofNat 32 i).toNat = (n + 1) * tlsStackSize + i := by
  unfold maxThreads at hn
  unfold tlsStackSize at hi
  unfold tnrToStack tlsStackSize
  rw [BitVec.toNat_add, BitVec.toNat_mul, BitVec.toNat_add, BitVec.toNat_ofNat, BitVec.toNat_ofNat,
    BitVec.toNat_ofNat, show (1 : Word).toNat = 1 from rfl]
  omega

/-- Different slots have areas apart. -/
theorem disjoint_area {m n : ℕ} (hm : m < maxThreads) (hn : n < maxThreads) (h : m ≠ n) :
    Disjoint (area m) (area n) := by
  rw [Set.disjoint_left]
  rintro a ⟨i, hi, rfl⟩ ⟨j, hj, heq⟩
  have hnat := congrArg BitVec.toNat heq
  rw [toNat_tnrToStack_add hm hi, toNat_tnrToStack_add hn hj] at hnat
  unfold tlsStackSize at *
  omega

/-- **Slots are exclusive**: after any allocations and releases, the slot that is handed out
next is free, no two threads hold the same, and the areas of those below `MAX_THREADS` do not
overlap. -/
theorem slots_exclusive {ops : List SlotOp} {s : Slots} (hrun : initSlots.run ops = .ok s) :
    (∀ n map, findSetFreeSlot s.map = .ok (n, map) → s.map.used n = false ∧ n ∉ s.live) ∧
      s.live.Nodup ∧
      ∀ m ∈ s.live, ∀ n ∈ s.live, m ≠ n → m < maxThreads → n < maxThreads →
        Disjoint (area m) (area n) := by
  have hinv := inv_initSlots.run hrun
  refine ⟨fun n map hfind => ?_, hinv.nodup, fun m _ n _ hne hm hn => disjoint_area hm hn hne⟩
  exact ⟨(findSetFreeSlot_spec hfind).2.1, hinv.fresh hfind⟩

theorem slots_exclusive_reuse :
    ∃ s, initSlots.run [.allocate, .allocate, .release 0, .allocate, .allocate] = .ok s ∧
      s.live = [2, 0, 1] ∧ s.live.Nodup := by
  obtain ⟨s, hrun, hlive⟩ := exists_ok (b := [2, 0, 1])
    (x := initSlots.run [.allocate, .allocate, .release 0, .allocate, .allocate]) Slots.live
    (by decide +kernel)
  exact ⟨s, hrun, hlive, (slots_exclusive hrun).2.1⟩

end Snitchaser.Interp
