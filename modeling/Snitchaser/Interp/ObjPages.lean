import Mathlib.Data.List.Pairwise
import Snitchaser.Foundation.Runs
import Snitchaser.Foundation.X86State
import Snitchaser.Interp.Mm

/-!
# Object pages in memory

`Snitchaser.Interp.Mm` has the runs of object pages as a list. In `mm.c` the list is in memory:
each group of pages begins with a `struct obj_page_head`, `alloc_obj` walks the chain of
`next_obj_page`, compares pointers as machine words, and writes its changes into the heads, while
the owners of the objects write theirs next to them.

## The model

`findLoop`, `allocObjPages`, `allocObj` and `clearObjPages` work on a memory of bytes. A run is one
of a `Heap`: requests, with what the kernel would answer to `mmap2`, and writes into objects.
Besides memory and `*phead` a heap has what nothing in the program looks at: the groups the kernel
gave and the objects handed out. A request has a size for which the sums of the source do not leave
the range of an `int`.

A request for which the kernel has no pages, and a write that is not into an object, are the end of
a run that is not the allocator's.

## What is proved

`Chain` says that memory holds a list of runs, and `Represented` that it is one of the list model.
Each event of a run is a step of that model (`step_represented`), unless `next_free_byte + sz`
wraps on the way to a group with room (`NoWrap`). Then the object is no part of any group
(`Represented.wrapped`). So `allocator_sound_iff`: the allocator is sound throughout a run **if and only
if** no request of it meets a sum that wraps.

Below `maxObj` nothing wraps: there `allocObj` does what its model in `Snitchaser.Interp.Mm` does
(`allocObj_refines`).
-/

namespace Snitchaser.Interp.Memory

open Foundation Foundation.X86

/-! ### Groups of pages -/

/-- What `alloc_pages` returned, and for how many pages. -/
structure Group where
  start : Word
  nr : Word
  deriving DecidableEq

/-- The bytes of a group. -/
def Group.size (g : Group) : ℕ := g.nr.toNat * pageSize

instance decidableApart (a m b n : ℕ) : Decidable (Apart a m b n) :=
  inferInstanceAs (Decidable (_ ∨ _))

/-- What `mmap2` promises: whole pages of user space, apart from those it gave before. -/
def Group.Fresh (g : Group) (groups : List Group) : Prop :=
  0 < g.start.toNat ∧ g.start.toNat % pageSize = 0 ∧ g.start.toNat + g.size ≤ userEnd ∧
    ∀ h ∈ groups, Apart g.start.toNat g.size h.start.toNat h.size

instance decidableFresh (g : Group) (groups : List Group) : Decidable (g.Fresh groups) :=
  inferInstanceAs (Decidable (_ ∧ _))

/-- Why a run does not go on. -/
inductive Stop where
  /-- The allocator fails. -/
  | fault (f : Fault)
  /-- The kernel has no such pages. -/
  | noPages
  /-- A write that is not into an object. -/
  | notAnObject
  deriving DecidableEq

/-- An assertion of the allocator. -/
def check (cond : Prop) [Decidable cond] (text : String) : Except Stop Unit :=
  (assert cond text).mapError .fault

/-- `alloc_pages(nr, TRUE)`, where the kernel would answer so. -/
def allocPages (groups : List Group) (answer nr : Word) : Except Stop Word :=
  if (Group.mk answer nr).Fresh groups then do
    check (answer.toNat < userEnd) "(uint32_t)p < 0xc0000000"
    .ok answer
  else .error .noPages

/-- `free_pages(start, nr)`: what is unmapped, and what is in memory then. -/
def freePages (gone : Mem) (m : Mem) (start nr : Word) : Group × Mem :=
  let g : Group := ⟨start &&& 0xfffff000, nr⟩
  (g, fun x => if (x - g.start).toNat < g.size then gone x else m x)

/-! ### `alloc_obj` -/

/-- The loop of `alloc_obj`, from `head` on. -/
def findLoop (sz : Word) : ℕ → Mem → Word → Except Stop (Option (Mem × Word))
  | 0, _, _ => .error (.fault .diverges)
  | fuel + 1, m, head =>
    if head = 0 then .ok none
    else if load32 m (head + 4) + sz < head + load32 m head then
      .ok (some (store32 m (head + 4) (load32 m (head + 4) + sz), load32 m (head + 4)))
    else findLoop sz fuel m (load32 m (head + 8))

/-- `alloc_obj_pages(sz, next)`. -/
def allocObjPages (groups : List Group) (answer : Word) (m : Mem) (sz next : Word) :
    Except Stop (Mem × Group) := do
  let sz := alignUp (sz + 4) 4096
  let nr := sz.sshiftRight 12
  let start ← allocPages groups answer nr
  check (start ≠ 0) "start != NULL"
  let m := store32 m start sz
  let m := store32 m (start + 4) (start + 12)
  let m := store32 m (start + 8) next
  .ok (m, ⟨start, nr⟩)

/-- `alloc_obj(phead, sz)`: memory, `*phead`, the object, and the groups there are. -/
def allocObj (groups : List Group) (answer : Word) (fuel : ℕ) (m : Mem) (phead sz : Word) :
    Except Stop (Mem × Word × Word × List Group) := do
  match ← findLoop sz fuel m phead with
  | some (m, ptr) => .ok (m, phead, ptr, groups)
  | none => do
    let (m, new) ← allocObjPages groups answer m (sz + 12) phead
    check (new.start ≠ 0) "new_head != NULL"
    let ptr := load32 m (new.start + 4)
    let m := store32 m (new.start + 4) (ptr + sz)
    check (load32 m (new.start + 4) < new.start + load32 m new.start)
      "new_head->next_free_byte < (void*)(new_head) + (new_head)->space_sz"
    .ok (m, new.start, ptr, new :: groups)

/-- `clear_obj_pages(phead)`: what is freed, in order. The memory of a group that was freed holds
anything. -/
def clearObjPages (gone : Mem) : ℕ → Mem → Word → Except Stop (List Group)
  | 0, _, _ => .error (.fault .diverges)
  | fuel + 1, m, head =>
    if head = 0 then .ok []
    else do
      let next := load32 m (head + 8)
      let spaceSz := load32 m head
      let (g, m) := freePages gone m head (spaceSz >>> 12)
      let rest ← clearObjPages gone fuel m next
      .ok (g :: rest)

/-! ### Runs -/

/-- A size, such that no sum is out of the range of an `int`. -/
structure Size where
  sz : Word
  pos : 0 < sz.toNat
  sums : sz.toNat + objPageHeadSz + 4 + (pageSize - 1) < 2 ^ 31

/-- Memory and `*phead`; the groups the kernel gave and the objects handed out, by address and
size. -/
structure Heap where
  m : Mem
  phead : Word
  groups : List Group
  objs : List (ℕ × ℕ)

/-- What happens to a heap. -/
inductive Event where
  /-- A request, with the kernel's answer if it is asked. -/
  | alloc (size : Size) (answer : Word)
  /-- The owner of an object writes into it. -/
  | write (obj : ℕ × ℕ) (offset : ℕ) (bytes : List Byte)

/-- What an event does. A chain of so many groups takes one more round. -/
def step (s : Heap) : Event → Except Stop Heap
  | .alloc size answer => do
    let (m, phead, ptr, groups) ← allocObj s.groups answer (s.groups.length + 1) s.m s.phead size.sz
    .ok ⟨m, phead, groups, (ptr.toNat, size.sz.toNat) :: s.objs⟩
  | .write obj offset bytes =>
    if obj ∈ s.objs ∧ offset + bytes.length ≤ obj.2 then
      .ok { s with m := store s.m (BitVec.ofNat 32 (obj.1 + offset)) bytes }
    else .error .notAnObject

/-- No group yet. -/
def Heap.empty (m : Mem) : Heap := ⟨m, 0, [], []⟩

/-- What the allocator is for. -/
structure Heap.Sound (s : Heap) : Prop where
  /-- No two objects overlap. -/
  disjoint : s.objs.Pairwise fun o o' => Apart o.1 o.2 o'.1 o'.2
  /-- Each lies in one group, behind its head. -/
  inside : ∀ obj ∈ s.objs, ∃ g ∈ s.groups,
    g.start.toNat + objPageHeadSz ≤ obj.1 ∧ obj.1 + obj.2 ≤ g.start.toNat + g.size
  /-- No object overlaps a head. -/
  heads : ∀ obj ∈ s.objs, ∀ g ∈ s.groups, Apart obj.1 obj.2 g.start.toNat objPageHeadSz
  /-- No assertion fails, and no search goes on for ever. -/
  answered : ∀ e f, step s e ≠ .error (.fault f)
  /-- All groups are freed, each with its size. -/
  cleared : ∀ gone, clearObjPages gone (s.groups.length + 1) s.m s.phead = .ok s.groups
  /-- Each of them once. -/
  once : s.groups.Nodup

/-- `next_free_byte` of a group. -/
def nextFree (m : Mem) (g : Group) : ℕ := (load32 m (g.start + 4)).toNat

/-- In each group a search comes to, `next_free_byte + sz` does not wrap. -/
def NoWrap (m : Mem) (sz : ℕ) : List Group → Prop
  | [] => True
  | g :: groups =>
    nextFree m g + sz < 2 ^ 32 ∧ (nextFree m g + sz < g.start.toNat + g.size ∨ NoWrap m sz groups)

/-- No sum wraps when the event is taken. -/
def Event.Fits (s : Heap) : Event → Prop
  | .alloc size _ => NoWrap s.m size.sz.toNat s.groups
  | .write _ _ _ => True

/-! ### Words and memory -/

/-- A write changes nothing before and behind it. -/
theorem store_apart (m : Mem) {a x : ℕ} {bytes : List Byte} (ha : a + bytes.length ≤ 2 ^ 32)
    (hx : x < 2 ^ 32) (h : x < a ∨ a + bytes.length ≤ x) :
    store m (BitVec.ofNat 32 a) bytes (BitVec.ofNat 32 x) = m (BitVec.ofNat 32 x) := by
  cases bytes with
  | nil => rfl
  | cons b bytes =>
    rw [List.length_cons] at ha h
    apply store_outside
    rw [List.length_cons, BitVec.toNat_sub, toNat_ofNat_of_lt hx,
      toNat_ofNat_of_lt (show a < 2 ^ 32 by omega)]
    omega

/-! The fields of a head: `space_sz`, `next_free_byte` and `next_obj_page`. -/

theorem spaceSz_store_free (m : Mem) (a v : Word) : load32 (store32 m (a + 4) v) a = load32 m a := by
  have h := load32_store32_add m a v (i := 4) (j := 0) (by decide) (by decide) (by decide)
  rwa [BitVec.add_zero] at h

theorem spaceSz_store_next (m : Mem) (a v : Word) : load32 (store32 m (a + 8) v) a = load32 m a := by
  have h := load32_store32_add m a v (i := 8) (j := 0) (by decide) (by decide) (by decide)
  rwa [BitVec.add_zero] at h

theorem free_store_next (m : Mem) (a v : Word) :
    load32 (store32 m (a + 8) v) (a + 4) = load32 m (a + 4) :=
  load32_store32_add m a v (i := 8) (j := 4) (by decide) (by decide) (by decide)

theorem next_store_free (m : Mem) (a v : Word) :
    load32 (store32 m (a + 4) v) (a + 8) = load32 m (a + 8) :=
  load32_store32_add m a v (i := 4) (j := 8) (by decide) (by decide) (by decide)

/-- What there is to know of the numbers of a run of pages. -/
theorem page_bounds (page : ObjPage) : page.head + 12 ≤ page.nextFreeByte ∧
    page.nextFreeByte < page.head + page.spaceSz ∧ page.head + page.spaceSz ≤ 0xC0000000 :=
  ⟨page.data_le, page.free_lt, page.end_le⟩

/-- The head of a run is as it was. -/
def HeadKept (m m' : Mem) (page : ObjPage) : Prop :=
  ∀ i < objPageHeadSz, m' (BitVec.ofNat 32 (page.head + i)) = m (BitVec.ofNat 32 (page.head + i))

theorem HeadKept.load32_eq {m m' : Mem} {page : ObjPage} (h : HeadKept m m' page) {k : ℕ}
    (hk : k + 4 ≤ 12) :
    load32 m' (BitVec.ofNat 32 page.head + BitVec.ofNat 32 k) =
      load32 m (BitVec.ofNat 32 page.head + BitVec.ofNat 32 k) := by
  apply load32_congr
  intro i hi
  rw [← BitVec.ofNat_add, ← BitVec.ofNat_add, Nat.add_assoc]
  exact h (k + i) (show k + i < 12 by omega)

theorem HeadKept.trans {m₁ m₂ m₃ : Mem} {page : ObjPage} (h : HeadKept m₁ m₂ page)
    (h' : HeadKept m₂ m₃ page) : HeadKept m₁ m₃ page :=
  fun i hi => (h' i hi).trans (h i hi)

/-- A write that is apart from a head keeps it. -/
theorem headKept_store (m : Mem) {a : ℕ} {bytes : List Byte} {page : ObjPage}
    (ha : a + bytes.length ≤ 2 ^ 32) (h : Apart a bytes.length page.head objPageHeadSz) :
    HeadKept m (store m (BitVec.ofNat 32 a) bytes) page := by
  intro i hi
  have hpage := page_bounds page
  have hhead : objPageHeadSz = 12 := rfl
  unfold Apart at h
  exact store_apart m ha (by omega) (by omega)

/-! ### The chain -/

/-- Memory holds this list of runs, from an address on. -/
def Chain (m : Mem) : Word → List ObjPage → Prop
  | p, [] => p = 0
  | p, page :: pages => p = BitVec.ofNat 32 page.head ∧ load32 m p = BitVec.ofNat 32 page.spaceSz ∧
      load32 m (p + 4) = BitVec.ofNat 32 page.nextFreeByte ∧ Chain m (load32 m (p + 8)) pages

theorem chain_cons {m : Mem} {p next : Word} {page : ObjPage} {pages : List ObjPage}
    (hp : p = BitVec.ofNat 32 page.head) (hsize : load32 m p = BitVec.ofNat 32 page.spaceSz)
    (hfree : load32 m (p + 4) = BitVec.ofNat 32 page.nextFreeByte) (hnext : load32 m (p + 8) = next)
    (hrest : Chain m next pages) : Chain m p (page :: pages) :=
  ⟨hp, hsize, hfree, by rw [hnext]; exact hrest⟩

/-- A head that is kept, before another rest of the chain. -/
theorem Chain.cons_of_kept {m m' : Mem} {p : Word} {page : ObjPage} {pages pages' : List ObjPage}
    (h : Chain m p (page :: pages)) (hkept : HeadKept m m' page)
    (hrest : Chain m' (load32 m (p + 8)) pages') : Chain m' p (page :: pages') := by
  obtain ⟨rfl, hsize, hnext, -⟩ := h
  have h₀ : load32 m' (BitVec.ofNat 32 page.head) = load32 m (BitVec.ofNat 32 page.head) := by
    simpa using hkept.load32_eq (k := 0) (by decide)
  have h₄ : load32 m' (BitVec.ofNat 32 page.head + 4) = load32 m (BitVec.ofNat 32 page.head + 4) :=
    hkept.load32_eq (k := 4) (by decide)
  have h₈ : load32 m' (BitVec.ofNat 32 page.head + 8) = load32 m (BitVec.ofNat 32 page.head + 8) :=
    hkept.load32_eq (k := 8) (by decide)
  exact chain_cons rfl (h₀.trans hsize) (h₄.trans hnext) h₈ hrest

/-- **The chain is in the heads.** -/
theorem Chain.congr {m m' : Mem} {p : Word} {pages : List ObjPage} (h : Chain m p pages)
    (hkept : ∀ page ∈ pages, HeadKept m m' page) : Chain m' p pages := by
  induction pages generalizing p with
  | nil => exact h
  | cons page pages ih =>
    refine h.cons_of_kept (hkept page List.mem_cons_self) ?_
    exact ih h.2.2.2 fun q hq => hkept q (List.mem_cons_of_mem _ hq)

theorem Chain.ne_zero {m : Mem} {p : Word} {page : ObjPage} {pages : List ObjPage}
    (h : Chain m p (page :: pages)) : p ≠ 0 := by
  rintro rfl
  have hpage := page_bounds page
  have hpos := page.head_pos
  have hzero := congrArg BitVec.toNat h.1
  rw [toNat_ofNat_of_lt (by omega)] at hzero
  exact absurd hzero (Nat.ne_of_lt hpos)

/-- The group of a run. -/
def group (page : ObjPage) : Group := ⟨BitVec.ofNat 32 page.head, BitVec.ofNat 32 (page.spaceSz / pageSize)⟩

theorem toNat_start_group (page : ObjPage) : (group page).start.toNat = page.head := by
  have := page_bounds page
  exact toNat_ofNat_of_lt (by omega)

theorem size_group {page : ObjPage} (h : pageSize ∣ page.spaceSz) : (group page).size = page.spaceSz := by
  have := page_bounds page
  have hdiv := Nat.div_le_self page.spaceSz pageSize
  unfold Group.size group
  rw [toNat_ofNat_of_lt (by omega), Nat.div_mul_cancel h]

/-- The test of the source, with sums that wrap. -/
theorem test_iff (page : ObjPage) (sz : Word) :
    BitVec.ofNat 32 page.nextFreeByte + sz < BitVec.ofNat 32 page.head + BitVec.ofNat 32 page.spaceSz ↔
      page.fits sz.toNat ∨ 2 ^ 32 ≤ page.nextFreeByte + sz.toNat := by
  have hpage := page_bounds page
  have hsz := sz.isLt
  rw [BitVec.lt_def, BitVec.toNat_add, ← BitVec.ofNat_add, toNat_ofNat_of_lt (by omega),
    toNat_ofNat_of_lt (by omega)]
  unfold ObjPage.fits
  omega

/-! ### The search -/

section Search

variable {m : Mem} {p sz : Word} {pages : List ObjPage} {fuel : ℕ}

/-- A round of the search. -/
theorem findLoop_cons {page : ObjPage} (h : Chain m p (page :: pages)) :
    findLoop sz (fuel + 1) m p =
      if page.fits sz.toNat ∨ 2 ^ 32 ≤ page.nextFreeByte + sz.toNat then
        .ok (some (store32 m (BitVec.ofNat 32 page.head + 4) (BitVec.ofNat 32 page.nextFreeByte + sz),
          BitVec.ofNat 32 page.nextFreeByte))
      else findLoop sz fuel m (load32 m (p + 8)) := by
  have hp := h.ne_zero
  obtain ⟨rfl, hsize, hnext, -⟩ := h
  rw [findLoop, if_neg hp, hsize, hnext]
  exact if_congr (test_iff page sz) rfl rfl

theorem noWrap_cons {page : ObjPage} (h : Chain m p (page :: pages)) (hdiv : pageSize ∣ page.spaceSz)
    (n : ℕ) : NoWrap m n ((page :: pages).map group) ↔
      page.nextFreeByte + n < 2 ^ 32 ∧ (page.fits n ∨ NoWrap m n (pages.map group)) := by
  have hpage := page_bounds page
  obtain ⟨rfl, -, hnext, -⟩ := h
  have hfree : nextFree m (group page) = page.nextFreeByte := by
    unfold nextFree group
    rw [hnext, toNat_ofNat_of_lt (by omega)]
  rw [List.map_cons, NoWrap, hfree, toNat_start_group, size_group hdiv]
  rfl

/-- **Where nothing wraps, the search is the one of the list model.** -/
theorem findLoop_of_noWrap (h : Chain m p pages) (hdiv : ∀ page ∈ pages, pageSize ∣ page.spaceSz)
    (hfuel : pages.length < fuel) (hno : NoWrap m sz.toNat (pages.map group)) :
    (takeFirst pages sz.toNat = none ∧ findLoop sz fuel m p = .ok none) ∨
    ∃ (before : List ObjPage) (page : ObjPage) (after : List ObjPage) (hfit : page.fits sz.toNat),
      pages = before ++ page :: after ∧
      takeFirst pages sz.toNat = some (before ++ page.take sz.toNat hfit :: after, page.nextFreeByte) ∧
      findLoop sz fuel m p =
        .ok (some (store32 m (BitVec.ofNat 32 page.head + 4) (BitVec.ofNat 32 page.nextFreeByte + sz),
          BitVec.ofNat 32 page.nextFreeByte)) := by
  induction pages generalizing p fuel with
  | nil =>
    obtain ⟨fuel, rfl⟩ := Nat.exists_eq_add_one_of_ne_zero (Nat.ne_zero_of_lt hfuel)
    exact .inl ⟨rfl, if_pos h⟩
  | cons page pages ih =>
    obtain ⟨fuel, rfl⟩ := Nat.exists_eq_add_one_of_ne_zero (Nat.ne_zero_of_lt hfuel)
    obtain ⟨hsum, hrest⟩ := (noWrap_cons h (hdiv page List.mem_cons_self) _).mp hno
    rw [findLoop_cons h, takeFirst]
    by_cases hfit : page.fits sz.toNat
    · exact .inr ⟨[], page, pages, hfit, rfl, dif_pos hfit, if_pos (.inl hfit)⟩
    · rw [if_neg (not_or.mpr ⟨hfit, Nat.not_le.mpr hsum⟩), dif_neg hfit]
      rcases ih h.2.2.2 (fun q hq => hdiv q (List.mem_cons_of_mem _ hq)) (Nat.lt_of_succ_lt_succ hfuel)
        (hrest.resolve_left hfit) with ⟨htake, hnone⟩ | ⟨before, q, after, hq, rfl, htake, hsome⟩
      · rw [htake]
        exact .inl ⟨rfl, hnone⟩
      · rw [htake]
        exact .inr ⟨page :: before, q, after, hq, rfl, rfl, hsome⟩

/-- **Where a sum wraps, the group it wraps in is taken.** -/
theorem findLoop_of_wrap (h : Chain m p pages) (hdiv : ∀ page ∈ pages, pageSize ∣ page.spaceSz)
    (hfuel : pages.length < fuel) (hwrap : ¬ NoWrap m sz.toNat (pages.map group)) :
    ∃ page ∈ pages, 2 ^ 32 ≤ page.nextFreeByte + sz.toNat ∧
      ∃ m', findLoop sz fuel m p = .ok (some (m', BitVec.ofNat 32 page.nextFreeByte)) := by
  induction pages generalizing p fuel with
  | nil => exact absurd trivial hwrap
  | cons page pages ih =>
    obtain ⟨fuel, rfl⟩ := Nat.exists_eq_add_one_of_ne_zero (Nat.ne_zero_of_lt hfuel)
    rw [noWrap_cons h (hdiv page List.mem_cons_self)] at hwrap
    rw [findLoop_cons h]
    by_cases hsum : 2 ^ 32 ≤ page.nextFreeByte + sz.toNat
    · exact ⟨page, List.mem_cons_self, hsum, _, if_pos (.inr hsum)⟩
    · have hfit : ¬ page.fits sz.toNat := fun hfit => hwrap ⟨Nat.lt_of_not_le hsum, .inl hfit⟩
      rw [if_neg (not_or.mpr ⟨hfit, hsum⟩)]
      obtain ⟨q, hq, hqwrap, hsome⟩ := ih h.2.2.2 (fun q hq => hdiv q (List.mem_cons_of_mem _ hq))
        (Nat.lt_of_succ_lt_succ hfuel) fun hno => hwrap ⟨Nat.lt_of_not_le hsum, .inr hno⟩
      exact ⟨q, List.mem_cons_of_mem _ hq, hqwrap, hsome⟩

/-- A word that is written behind the beginning of a run keeps the heads of the others. -/
theorem headKept_store32 {page q : ObjPage} (hapart : Apart q.head q.spaceSz page.head page.spaceSz)
    (v : Word) {k : ℕ} (hk : k + 4 ≤ 12) :
    HeadKept m (store32 m (BitVec.ofNat 32 page.head + BitVec.ofNat 32 k) v) q := by
  have hpage := page_bounds page
  have hq := page_bounds q
  have hlen := length_leBytes v
  have hhead : objPageHeadSz = 12 := rfl
  rw [store32, ← BitVec.ofNat_add]
  unfold Apart at hapart
  exact headKept_store m (by omega) (show _ ∨ _ by omega)

/-- An object is taken from a run of the chain. -/
theorem Chain.take {before after : List ObjPage} {page : ObjPage}
    (h : Chain m p (before ++ page :: after))
    (hapart : (before ++ page :: after).Pairwise fun q q' => Apart q.head q.spaceSz q'.head q'.spaceSz)
    (hfit : page.fits sz.toNat) :
    Chain (store32 m (BitVec.ofNat 32 page.head + 4) (BitVec.ofNat 32 page.nextFreeByte + sz)) p
      (before ++ page.take sz.toNat hfit :: after) := by
  induction before generalizing p with
  | nil =>
    obtain ⟨rfl, hsize, hnext, hrest⟩ := h
    have hafter := (List.pairwise_cons.mp hapart).1
    refine chain_cons rfl ((spaceSz_store_free m _ _).trans hsize) ?_ (next_store_free m _ _)
      (hrest.congr fun q hq => headKept_store32 (hafter q hq).symm _ (k := 4) (by decide))
    rw [load32_store32]
    exact ((BitVec.ofNat_add _ _).trans (congrArg _ (BitVec.ofNat_toNat 32 sz))).symm
  | cons q before ih =>
    obtain ⟨hq, hapart⟩ := List.pairwise_cons.mp hapart
    refine h.cons_of_kept (headKept_store32 (hq page ?_) _ (k := 4) (by decide)) (ih h.2.2.2 hapart)
    exact List.mem_append_right _ List.mem_cons_self

end Search

/-! ### A new group -/

theorem newPages_mul_lt (size : Size) : newPages size.sz.toNat * pageSize < 2 ^ 31 := by
  have hsums := size.sums
  simp only [newPages, pageSize, objPageHeadSz] at hsums ⊢
  omega

/-- The size of a new group, as the source computes it. -/
theorem alignUp_size (size : Size) :
    alignUp (size.sz + 12 + 4) 4096 = BitVec.ofNat 32 (newPages size.sz.toNat * pageSize) := by
  have hsums := size.sums
  have hlt := newPages_mul_lt size
  have hall : size.sz + 12 + 4 + 4096 - 1 = size.sz + BitVec.ofNat 32 4111 := by
    simp only [BitVec.sub_eq_add_neg, BitVec.add_assoc]
    rfl
  have hdown := toNat_alignDown (size.sz + BitVec.ofNat 32 4111) (k := 12) (by decide)
  rw [toNat_add_ofNat (by simp only [pageSize, objPageHeadSz] at hsums; omega)] at hdown
  apply BitVec.eq_of_toNat_eq
  rw [alignUp, hall, toNat_ofNat_of_lt (by omega)]
  exact hdown

/-- The number of its pages. -/
theorem sshiftRight_size (size : Size) :
    (BitVec.ofNat 32 (newPages size.sz.toNat * pageSize)).sshiftRight 12 =
      BitVec.ofNat 32 (newPages size.sz.toNat) := by
  have hlt := newPages_mul_lt size
  have hval := toNat_ofNat_of_lt (show newPages size.sz.toNat * pageSize < 2 ^ 32 by omega)
  have hmsb : (BitVec.ofNat 32 (newPages size.sz.toNat * pageSize)).msb = false :=
    BitVec.msb_eq_false_iff_two_mul_lt.mpr (by omega)
  have hle : newPages size.sz.toNat < 2 ^ 32 := by
    simp only [pageSize] at hlt
    omega
  apply BitVec.eq_of_toNat_eq
  rw [BitVec.sshiftRight_eq_of_msb_false hmsb, BitVec.toNat_ushiftRight, hval, Nat.shiftRight_eq_div_pow,
    toNat_ofNat_of_lt hle]
  exact Nat.mul_div_cancel _ (by decide)

section New

variable {m : Mem} {phead answer : Word} {pages : List ObjPage} {groups : List Group} {fuel : ℕ}
  {size : Size}

/-- The group that is asked for. -/
def asked (size : Size) (answer : Word) : Group := ⟨answer, BitVec.ofNat 32 (newPages size.sz.toNat)⟩

theorem size_asked (size : Size) (answer : Word) :
    (asked size answer).size = newPages size.sz.toNat * pageSize := by
  have hlt := newPages_mul_lt size
  unfold Group.size asked
  rw [toNat_ofNat_of_lt (by simp only [pageSize] at hlt; omega)]

theorem allocObj_noPages (hfind : findLoop size.sz fuel m phead = .ok none)
    (hstale : ¬ (asked size answer).Fresh groups) :
    allocObj groups answer fuel m phead size.sz = .error .noPages := by
  have hpages : allocPages groups answer (BitVec.ofNat 32 (newPages size.sz.toNat)) = .error .noPages :=
    if_neg hstale
  simp only [allocObj, allocObjPages, hfind, alignUp_size, sshiftRight_size, hpages, bind, Except.bind]

/-- The head of a new group. -/
def newHead (m : Mem) (start spaceSz next nextFree : Word) : Mem :=
  store32 (store32 (store32 (store32 m start spaceSz) (start + 4) (start + 12)) (start + 8) next)
    (start + 4) nextFree

theorem load32_newHead (m : Mem) (start spaceSz next nextFree : Word) :
    load32 (newHead m start spaceSz next nextFree) start = spaceSz ∧
    load32 (newHead m start spaceSz next nextFree) (start + 4) = nextFree ∧
    load32 (newHead m start spaceSz next nextFree) (start + 8) = next := by
  unfold newHead
  refine ⟨?_, load32_store32 _ _ _, ?_⟩
  · rw [spaceSz_store_free, spaceSz_store_next, spaceSz_store_free, load32_store32]
  · rw [next_store_free, load32_store32]

theorem check_of_true {cond : Prop} [Decidable cond] (h : cond) (text : String) :
    check cond text = .ok () := by
  rw [check, assert_of_true h]
  rfl

/-- **A new group has room for the object**: the assertion at the end holds. -/
theorem allocObj_new (hfind : findLoop size.sz fuel m phead = .ok none)
    (hfresh : (asked size answer).Fresh groups) :
    allocObj groups answer fuel m phead size.sz = .ok
      (newHead m answer (BitVec.ofNat 32 (newPages size.sz.toNat * pageSize)) phead (answer + 12 + size.sz),
        answer, answer + 12, asked size answer :: groups) := by
  have hpos : 0 < answer.toNat := hfresh.1
  have hend : answer.toNat + (asked size answer).size ≤ 0xC0000000 := hfresh.2.2.1
  have hroom : 12 + size.sz.toNat < newPages size.sz.toNat * pageSize := lt_newPages size.sz.toNat
  rw [size_asked] at hend
  have hne : answer ≠ 0 := by
    rintro rfl
    exact absurd hpos (by decide)
  have hpages : allocPages groups answer (BitVec.ofNat 32 (newPages size.sz.toNat)) = .ok answer := by
    have huser : userEnd = 0xC0000000 := rfl
    have hfresh' : (Group.mk answer (BitVec.ofNat 32 (newPages size.sz.toNat))).Fresh groups := hfresh
    rw [allocPages, if_pos hfresh', check_of_true (by omega)]
    rfl
  -- the first free byte lies before the end, and no sum wraps
  have hassert : answer + 12 + size.sz <
      answer + BitVec.ofNat 32 (newPages size.sz.toNat * pageSize) := by
    have hdata : (answer + 12).toNat = answer.toNat + 12 := toNat_add_ofNat (n := 12) (by omega)
    rw [BitVec.lt_def, BitVec.toNat_add, hdata, toNat_add_ofNat (by omega)]
    omega
  simp only [allocObj, allocObjPages, hfind, alignUp_size, sshiftRight_size, hpages, bind, Except.bind,
    check_of_true hne, free_store_next, load32_store32, spaceSz_store_free, spaceSz_store_next,
    check_of_true hassert]
  rfl

theorem start_mem_pages (hfresh : (asked size answer).Fresh groups) :
    0 < answer.toNat ∧ answer.toNat + newPages size.sz.toNat * pageSize ≤ userEnd :=
  ⟨hfresh.1, size_asked size answer ▸ hfresh.2.2.1⟩

/-- The run of a fresh group. -/
def freshRun (hfresh : (asked size answer).Fresh groups) : ObjPage :=
  newRun size.sz.toNat ⟨answer.toNat, start_mem_pages hfresh⟩

theorem group_freshRun (hfresh : (asked size answer).Fresh groups) :
    group (freshRun hfresh) = asked size answer := by
  have hspace : newPages size.sz.toNat * pageSize / pageSize = newPages size.sz.toNat :=
    Nat.mul_div_cancel _ (by decide)
  unfold group freshRun newRun asked
  simp only [hspace, BitVec.ofNat_toNat, BitVec.setWidth_eq]

/-- It is apart from the others. -/
theorem freshRun_apart (hdiv : ∀ page ∈ pages, pageSize ∣ page.spaceSz)
    (hfresh : (asked size answer).Fresh (pages.map group)) (page : ObjPage) (hpage : page ∈ pages) :
    Apart (freshRun hfresh).head (freshRun hfresh).spaceSz page.head page.spaceSz := by
  have h := hfresh.2.2.2 (group page) (List.mem_map_of_mem hpage)
  rwa [size_asked, toNat_start_group, size_group (hdiv page hpage)] at h

/-- **The new run is at the head of the chain.** -/
theorem Chain.new (h : Chain m phead pages) (hdiv : ∀ page ∈ pages, pageSize ∣ page.spaceSz)
    (hfresh : (asked size answer).Fresh (pages.map group)) :
    Chain (newHead m answer (BitVec.ofNat 32 (newPages size.sz.toNat * pageSize)) phead
      (answer + 12 + size.sz)) answer (freshRun hfresh :: pages) := by
  obtain ⟨hsize, hfree, hnext⟩ := load32_newHead m answer
    (BitVec.ofNat 32 (newPages size.sz.toNat * pageSize)) phead (answer + 12 + size.sz)
  have hstart : answer = BitVec.ofNat 32 (freshRun hfresh).head := (BitVec.ofNat_toNat 32 answer).symm
  refine chain_cons hstart hsize (hfree.trans ?_) hnext (h.congr fun page hpage => ?_)
  · have hdata : (freshRun hfresh).nextFreeByte = answer.toNat + objPageHeadSz + size.sz.toNat := rfl
    rw [hdata, BitVec.ofNat_add, BitVec.ofNat_add, BitVec.ofNat_toNat, BitVec.ofNat_toNat,
      BitVec.setWidth_eq, BitVec.setWidth_eq]
    rfl
  · have hapart := freshRun_apart hdiv hfresh page hpage
    have hfield : ∀ (m' : Mem) (v : Word) {k : ℕ}, k + 4 ≤ 12 →
        HeadKept m' (store32 m' (answer + BitVec.ofNat 32 k) v) page := by
      intro m' v k hk
      rw [hstart]
      exact headKept_store32 hapart.symm v hk
    have hfirst := hfield m (BitVec.ofNat 32 (newPages size.sz.toNat * pageSize)) (k := 0) (by decide)
    rw [BitVec.add_zero] at hfirst
    exact ((hfirst.trans (hfield _ _ (k := 4) (by decide))).trans
      (hfield _ _ (k := 8) (by decide))).trans (hfield _ _ (k := 4) (by decide))

end New

/-- A request in the list model: an object from the first run with room, or from a fresh one. -/
def ListStep (pages : List ObjPage) (size : Size) (answer : Word) (pages' : List ObjPage) (ptr : ℕ) : Prop :=
  takeFirst pages size.sz.toNat = some (pages', ptr) ∨
  takeFirst pages size.sz.toNat = none ∧ ∃ hfresh : (asked size answer).Fresh (pages.map group),
    pages' = freshRun hfresh :: pages ∧ ptr = answer.toNat + objPageHeadSz

/-! ### The list in memory -/

/-- A heap is one of the list model. -/
structure Represented (s : Heap) (pages : List ObjPage) : Prop where
  chain : Chain s.m s.phead pages
  groups : s.groups = pages.map group
  objs : ObjPagesOk (fun _ => False) pages s.objs
  /-- The runs are whole pages. -/
  whole : ∀ page ∈ pages, pageSize ∣ page.head ∧ pageSize ∣ page.spaceSz

theorem represented_empty (m : Mem) : Represented (.empty m) [] where
  chain := rfl
  groups := rfl
  objs := objPagesOk_nil
  whole _ h := (List.not_mem_nil h).elim

section Steps

variable {s s' : Heap} {pages : List ObjPage}

theorem Represented.dvd_spaceSz (h : Represented s pages) : ∀ page ∈ pages, pageSize ∣ page.spaceSz :=
  fun page hpage => (h.whole page hpage).2

theorem Represented.length_lt (h : Represented s pages) : pages.length < s.groups.length + 1 := by
  rw [h.groups, List.length_map]
  exact Nat.lt_succ_self _

/-- An object from a run of the chain. -/
theorem Represented.take {before after : List ObjPage} {page : ObjPage}
    (h : Represented s (before ++ page :: after)) {sz : Word} (hfit : page.fits sz.toNat) {ptr : ℕ}
    (hptr : ptr = page.nextFreeByte) :
    Represented ⟨store32 s.m (BitVec.ofNat 32 page.head + 4) (BitVec.ofNat 32 page.nextFreeByte + sz),
      s.phead, s.groups, (ptr, sz.toNat) :: s.objs⟩
      (before ++ page.take sz.toNat hfit :: after) where
  chain := h.chain.take h.objs.pages_apart hfit
  groups := by
    rw [h.groups, List.map_append, List.map_append]
    rfl
  objs := hptr ▸ h.objs.take hfit
  whole q hq := by
    rcases List.mem_append.mp hq with hq | hq
    · exact h.whole q (List.mem_append_left _ hq)
    · rcases List.mem_cons.mp hq with rfl | hq
      · exact h.whole page (List.mem_append_right _ List.mem_cons_self)
      · exact h.whole q (List.mem_append_right _ (List.mem_cons_of_mem _ hq))

/-- An object from a new run. -/
theorem Represented.new (h : Represented s pages) {size : Size} {answer : Word}
    (hfresh : (asked size answer).Fresh (pages.map group)) :
    Represented ⟨newHead s.m answer (BitVec.ofNat 32 (newPages size.sz.toNat * pageSize)) s.phead
      (answer + 12 + size.sz), answer, asked size answer :: s.groups,
      (answer.toNat + objPageHeadSz, size.sz.toNat) :: s.objs⟩ (freshRun hfresh :: pages) where
  chain := h.chain.new h.dvd_spaceSz hfresh
  groups := by rw [List.map_cons, group_freshRun, h.groups]
  objs := h.objs.new (freshRun_apart h.dvd_spaceSz hfresh) fun _ h => h.elim
  whole page hpage := by
    rcases List.mem_cons.mp hpage with rfl | hpage
    · exact ⟨Nat.dvd_of_mod_eq_zero hfresh.2.1, Nat.dvd_mul_left _ _⟩
    · exact h.whole page hpage

/-- **A request where no sum wraps is one of the list model**, unless there are no pages. -/
theorem Represented.alloc (h : Represented s pages) (size : Size) (answer : Word)
    (hfit : NoWrap s.m size.sz.toNat s.groups) :
    step s (.alloc size answer) = .error .noPages ∨
    ∃ s' pages' ptr, step s (.alloc size answer) = .ok s' ∧ Represented s' pages' ∧
      s'.objs = (ptr, size.sz.toNat) :: s.objs ∧ ListStep pages size answer pages' ptr := by
  rw [h.groups] at hfit
  rcases findLoop_of_noWrap h.chain h.dvd_spaceSz h.length_lt hfit with
    ⟨htake, hnone⟩ | ⟨before, page, after, hpage, rfl, htake, hsome⟩
  · by_cases hfresh : (asked size answer).Fresh s.groups
    · have hend : answer.toNat + (asked size answer).size ≤ 0xC0000000 := hfresh.2.2.1
      have hroom : 12 + size.sz.toNat < newPages size.sz.toNat * pageSize := lt_newPages size.sz.toNat
      rw [size_asked] at hend
      have hdata : (answer + 12).toNat = answer.toNat + objPageHeadSz := toNat_add_ofNat (n := 12) (by omega)
      have hfresh' := hfresh
      rw [h.groups] at hfresh'
      have hnew := h.new hfresh'
      rw [← hdata] at hnew
      exact .inr ⟨_, _, _, bind_eq_ok.mpr ⟨_, allocObj_new hnone hfresh, rfl⟩, hnew, rfl,
        .inr ⟨htake, hfresh', rfl, hdata⟩⟩
    · exact .inl (bind_eq_error.mpr (.inl (allocObj_noPages hnone hfresh)))
  · have hbounds := page_bounds page
    have hptr : (BitVec.ofNat 32 page.nextFreeByte).toNat = page.nextFreeByte := toNat_ofNat_of_lt (by omega)
    rw [← hptr] at htake
    exact .inr ⟨_, _, _, bind_eq_ok.mpr ⟨_, bind_eq_ok.mpr ⟨_, hsome, rfl⟩, rfl⟩, h.take hpage hptr, rfl,
      .inl htake⟩

/-- **A request where a sum wraps** is answered with an object that ends beyond the last address. -/
theorem Represented.wrapped (h : Represented s pages) (size : Size) (answer : Word)
    (hwrap : ¬ NoWrap s.m size.sz.toNat s.groups) :
    ∃ s' ptr, step s (.alloc size answer) = .ok s' ∧ s'.objs = (ptr, size.sz.toNat) :: s.objs ∧
      s'.groups = s.groups ∧ 2 ^ 32 ≤ ptr + size.sz.toNat := by
  rw [h.groups] at hwrap
  obtain ⟨page, -, hsum, m', hfind⟩ := findLoop_of_wrap h.chain h.dvd_spaceSz h.length_lt hwrap
  have hbounds := page_bounds page
  refine ⟨_, page.nextFreeByte, bind_eq_ok.mpr ⟨_, bind_eq_ok.mpr ⟨_, hfind, rfl⟩, rfl⟩, ?_, rfl, hsum⟩
  exact congrArg (fun ptr => (ptr, size.sz.toNat) :: s.objs) (toNat_ofNat_of_lt (by omega))

instance symmApart : Std.Symm fun p q : ObjPage => Apart p.head p.spaceSz q.head q.spaceSz :=
  ⟨fun _ _ => Or.symm⟩

/-- **No object overlaps a head.** -/
theorem Represented.heads (h : Represented s pages) {obj : ℕ × ℕ} (hobj : obj ∈ s.objs) {page : ObjPage}
    (hpage : page ∈ pages) : Apart obj.1 obj.2 page.head objPageHeadSz := by
  obtain ⟨q, hq, hlo, hhi⟩ := h.objs.inside obj hobj
  by_cases heq : q = page
  · exact .inr (heq ▸ hlo)
  · have hapart := h.objs.pages_apart.forall hq hpage heq
    have hqb := page_bounds q
    have hpb := page_bounds page
    have hhead : objPageHeadSz = 12 := rfl
    unfold Apart at hapart ⊢
    omega

/-- A write into an object. -/
theorem Represented.write (h : Represented s pages) {obj : ℕ × ℕ} (hobj : obj ∈ s.objs) {offset : ℕ}
    {bytes : List Byte} (hin : offset + bytes.length ≤ obj.2) :
    Represented { s with m := store s.m (BitVec.ofNat 32 (obj.1 + offset)) bytes } pages where
  chain := by
    have hend := (h.objs.mem_bounds hobj).2.1
    have huser : userEnd = 0xC0000000 := rfl
    refine h.chain.congr fun page hpage => headKept_store s.m (by omega) ?_
    have hapart := h.heads hobj hpage
    unfold Apart at hapart ⊢
    omega
  groups := h.groups
  objs := h.objs
  whole := h.whole

/-- **An event is a step of the list model**, if no sum wraps. -/
theorem step_represented {e : Event} (h : Represented s pages) (hfit : e.Fits s) (hstep : step s e = .ok s') :
    ∃ pages', Represented s' pages' := by
  cases e with
  | alloc size answer =>
    rcases h.alloc size answer hfit with hnone | ⟨s'', pages', ptr, hsome, hrep, -⟩
    · rw [hnone] at hstep
      cases hstep
    · rw [hsome] at hstep
      cases hstep
      exact ⟨pages', hrep⟩
  | write obj offset bytes =>
    rw [step] at hstep
    split_ifs at hstep with hobj
    cases hstep
    exact ⟨pages, h.write hobj.1 hobj.2⟩

/-- **No event is a fault**, whether a sum wraps or not. -/
theorem Represented.answered (h : Represented s pages) (e : Event) (f : Fault) :
    step s e ≠ .error (.fault f) := by
  intro hfault
  cases e with
  | alloc size answer =>
    by_cases hfit : NoWrap s.m size.sz.toNat s.groups
    · rcases h.alloc size answer hfit with hnone | ⟨s'', pages', ptr, hsome, -⟩
      · rw [hnone] at hfault
        cases hfault
      · rw [hsome] at hfault
        cases hfault
    · obtain ⟨s', ptr, hsome, -⟩ := h.wrapped size answer hfit
      rw [hsome] at hfault
      cases hfault
  | write obj offset bytes =>
    rw [step] at hfault
    split_ifs at hfault
    cases hfault

end Steps

/-! ### Clearing -/

/-- An address of whole pages is its own page. -/
theorem and_pageMask {page : ObjPage} (h : pageSize ∣ page.head) :
    BitVec.ofNat 32 page.head &&& 0xfffff000 = BitVec.ofNat 32 page.head := by
  have hbounds := page_bounds page
  have hmask : (0xfffff000 : Word) = ~~~ (BitVec.twoPow 32 12 - 1) := rfl
  have hdown := toNat_alignDown (BitVec.ofNat 32 page.head) (k := 12) (by decide)
  apply BitVec.eq_of_toNat_eq
  rw [hmask]
  refine hdown.trans ?_
  rw [toNat_ofNat_of_lt (by omega)]
  exact Nat.div_mul_cancel h

/-- The number of pages of a run. -/
theorem ushiftRight_spaceSz (page : ObjPage) :
    BitVec.ofNat 32 page.spaceSz >>> 12 = BitVec.ofNat 32 (page.spaceSz / pageSize) := by
  have hbounds := page_bounds page
  have hpage : pageSize = 2 ^ 12 := rfl
  apply BitVec.eq_of_toNat_eq
  rw [BitVec.toNat_ushiftRight, toNat_ofNat_of_lt (by omega), Nat.shiftRight_eq_div_pow, hpage,
    toNat_ofNat_of_lt (by omega)]

/-- Memory without a run. -/
def without (gone m : Mem) (page : ObjPage) : Mem :=
  fun x => if (x - BitVec.ofNat 32 page.head).toNat < page.spaceSz then gone x else m x

theorem freePages_page (gone m : Mem) {page : ObjPage} (hhead : pageSize ∣ page.head)
    (hspace : pageSize ∣ page.spaceSz) :
    freePages gone m (BitVec.ofNat 32 page.head) (BitVec.ofNat 32 page.spaceSz >>> 12) =
      (group page, without gone m page) := by
  have hsize : Group.size ⟨BitVec.ofNat 32 page.head, BitVec.ofNat 32 (page.spaceSz / pageSize)⟩ =
      page.spaceSz := size_group hspace
  unfold freePages without group
  rw [and_pageMask hhead, ushiftRight_spaceSz]
  simp only [hsize]

/-- The heads of the other runs are still there. -/
theorem headKept_without (gone m : Mem) {page q : ObjPage}
    (hapart : Apart page.head page.spaceSz q.head q.spaceSz) : HeadKept m (without gone m page) q := by
  intro i hi
  have hpb := page_bounds page
  have hqb := page_bounds q
  have hhead : objPageHeadSz = 12 := rfl
  refine if_neg ?_
  rw [BitVec.toNat_sub, toNat_ofNat_of_lt (by omega), toNat_ofNat_of_lt (by omega)]
  unfold Apart at hapart
  omega

/-- **Every run is freed, once, with its size.** -/
theorem clearObjPages_eq (gone : Mem) {m : Mem} {p : Word} {pages : List ObjPage} {fuel : ℕ}
    (h : Chain m p pages)
    (hapart : pages.Pairwise fun q q' => Apart q.head q.spaceSz q'.head q'.spaceSz)
    (hwhole : ∀ page ∈ pages, pageSize ∣ page.head ∧ pageSize ∣ page.spaceSz)
    (hfuel : pages.length < fuel) : clearObjPages gone fuel m p = .ok (pages.map group) := by
  induction pages generalizing m p fuel with
  | nil =>
    obtain ⟨fuel, rfl⟩ := Nat.exists_eq_add_one_of_ne_zero (Nat.ne_zero_of_lt hfuel)
    exact if_pos h
  | cons page pages ih =>
    obtain ⟨fuel, rfl⟩ := Nat.exists_eq_add_one_of_ne_zero (Nat.ne_zero_of_lt hfuel)
    have hp := h.ne_zero
    obtain ⟨hhead, hspace⟩ := hwhole page List.mem_cons_self
    obtain ⟨hfirst, hrest⟩ := List.pairwise_cons.mp hapart
    obtain ⟨rfl, hsize, -, hchain⟩ := h
    have hmore := ih (hchain.congr fun q hq => headKept_without gone m (hfirst q hq)) hrest
      (fun q hq => hwhole q (List.mem_cons_of_mem _ hq)) (Nat.lt_of_succ_lt_succ hfuel)
    simp only [clearObjPages, if_neg hp, hsize, freePages_page gone m hhead hspace]
    exact bind_eq_ok.mpr ⟨_, hmore, rfl⟩

theorem Represented.nodup {s : Heap} {pages : List ObjPage} (h : Represented s pages) : s.groups.Nodup := by
  rw [h.groups]
  refine List.pairwise_map.mpr (h.objs.pages_apart.imp fun {p q} hapart heq => ?_)
  have hstart := congrArg (fun g => g.start.toNat) heq
  simp only [toNat_start_group] at hstart
  have hpb := page_bounds p
  have hqb := page_bounds q
  unfold Apart at hapart
  omega

/-- **A heap that is one of the list model is sound.** -/
theorem Represented.sound {s : Heap} {pages : List ObjPage} (h : Represented s pages) : s.Sound where
  disjoint := h.objs.objs_apart
  inside obj hobj := by
    obtain ⟨page, hpage, hlo, hhi⟩ := h.objs.inside obj hobj
    have hbounds := page_bounds page
    refine ⟨group page, ?_, ?_, ?_⟩
    · rw [h.groups]
      exact List.mem_map_of_mem hpage
    · rw [toNat_start_group]
      exact hlo
    · rw [toNat_start_group, size_group (h.dvd_spaceSz page hpage)]
      omega
  heads obj hobj g hg := by
    rw [h.groups] at hg
    obtain ⟨page, hpage, rfl⟩ := List.mem_map.mp hg
    rw [toNat_start_group]
    exact h.heads hobj hpage
  answered := h.answered
  cleared gone := by
    rw [clearObjPages_eq gone h.chain h.objs.pages_apart h.whole h.length_lt, h.groups]
  once := h.nodup

/-- **The allocator is sound throughout a run if and only if no request of it meets a group whose
`next_free_byte` is so high that the sum with the size wraps.** -/
theorem allocator_sound_iff (m : Mem) (es : List Event) :
    Throughout step Heap.Sound (.empty m) es ↔ MeetsEach step (fun s e => e.Fits s) (.empty m) es := by
  refine throughout_iff (fun (s : Heap) (h : ∃ pages, Represented s pages) => h.elim fun _ h => h.sound)
    ?_ ?_ ⟨[], represented_empty m⟩ es
  · rintro s e s' ⟨pages, h⟩ hfit hstep
    exact step_represented h hfit hstep
  · rintro s e s' ⟨pages, h⟩ hfit hstep hsound
    cases e with
    | write obj offset bytes => exact hfit trivial
    | alloc size answer =>
      obtain ⟨s'', ptr, hstep', hobjs, hgroups, hsum⟩ := h.wrapped size answer hfit
      rw [hstep'] at hstep
      cases hstep
      -- the object is in no group: they all lie in user space
      obtain ⟨g, hg, -, hend⟩ := hsound.inside (ptr, size.sz.toNat) (hobjs ▸ List.mem_cons_self)
      rw [hgroups, h.groups] at hg
      obtain ⟨page, hpage, rfl⟩ := List.mem_map.mp hg
      rw [toNat_start_group, size_group (h.dvd_spaceSz page hpage)] at hend
      have hbounds := page_bounds page
      simp only at hend
      omega

/-- One byte. -/
def oneByte : Size := ⟨1, by decide, by decide⟩

/-- Almost two gigabytes. -/
def manyBytes : Size := ⟨0x7ff00000, by decide, by decide⟩

/-- A request for each, in an empty heap. -/
def twoRequests : Except Stop Heap := do
  let s ← step (.empty fun _ => 0) (.alloc oneByte 0xb7000000)
  step s (.alloc manyBytes 0x10000000)

/-- There is a group of one page, at `0xb7000000`, and both objects are taken from it. -/
theorem second_object_in_no_group :
    (twoRequests.map fun s : Heap => (s.objs, s.groups)).toOption =
      some ([(0xb700000d, 0x7ff00000), (0xb700000c, 1)], [⟨0xb7000000, 1⟩]) ∧
    ¬ Throughout step Heap.Sound (.empty fun _ => 0)
      [.alloc oneByte 0xb7000000, .alloc manyBytes 0x10000000] := by
  have hrun : (twoRequests.map fun s : Heap => (s.objs, s.groups)).toOption =
      some ([(0xb700000d, 0x7ff00000), (0xb700000c, 1)], [⟨0xb7000000, 1⟩]) := by
    decide +kernel
  refine ⟨hrun, fun h => ?_⟩
  obtain ⟨s₂, hsteps, hs₂⟩ := exists_ok _ hrun
  obtain ⟨s₁, hfirst, hsecond⟩ := bind_eq_ok.mp hsteps
  obtain ⟨hobjs, hgroups⟩ := Prod.mk.inj hs₂
  have hsound := (h.2 s₁ hfirst).2 s₂ hsecond
  obtain ⟨g, hg, -, hend⟩ := hsound.head.inside (0xb700000d, 0x7ff00000) (hobjs ▸ List.mem_cons_self)
  rw [hgroups, List.mem_singleton] at hg
  subst hg
  exact absurd hend (by decide)

/-! ### Small objects -/

/-- The kernel of the list model that gives the answer. -/
def kernel (answer : Word) : AllocPages := fun nr =>
  if h : 0 < answer.toNat ∧ answer.toNat + nr * pageSize ≤ userEnd then some ⟨answer.toNat, h⟩ else none

theorem allocObj_of_listStep {pages pages' : List ObjPage} {size : Size} {answer : Word} {ptr : ℕ}
    (hmax : size.sz.toNat < maxObj) (h : ListStep pages size answer pages' ptr) :
    Interp.allocObj (kernel answer) pages size.sz.toNat = .ok (pages', ptr) := by
  unfold Interp.allocObj
  rw [if_neg (Nat.not_le.mpr hmax)]
  rcases h with htake | ⟨htake, hfresh, rfl, rfl⟩
  · rw [htake]
  · have hkernel : kernel answer (newPages size.sz.toNat) = some ⟨answer.toNat, start_mem_pages hfresh⟩ :=
      dif_pos (start_mem_pages hfresh)
    rw [htake]
    simp only [hkernel]
    rfl

/-- Below a gigabyte nothing wraps. -/
theorem noWrap_of_lt {m : Mem} {p : Word} {pages : List ObjPage} {n : ℕ} (hmax : n < maxObj)
    (h : Chain m p pages) (hdiv : ∀ page ∈ pages, pageSize ∣ page.spaceSz) : NoWrap m n (pages.map group) := by
  induction pages generalizing p with
  | nil => trivial
  | cons page pages ih =>
    have hbounds := page_bounds page
    have hmaxObj : maxObj = 2 ^ 30 := rfl
    refine (noWrap_cons h (hdiv page List.mem_cons_self) n).mpr ⟨by omega, .inr ?_⟩
    exact ih h.2.2.2 fun q hq => hdiv q (List.mem_cons_of_mem _ hq)

/-- **In memory, `alloc_obj` does what its model says**, for objects it is a model of. -/
theorem allocObj_refines {s : Heap} {pages : List ObjPage} (h : Represented s pages) {size : Size}
    (hmax : size.sz.toNat < maxObj) (answer : Word) :
    step s (.alloc size answer) = .error .noPages ∨
    ∃ s' pages' ptr, step s (.alloc size answer) = .ok s' ∧ Represented s' pages' ∧
      s'.objs = (ptr, size.sz.toNat) :: s.objs ∧
      Interp.allocObj (kernel answer) pages size.sz.toNat = .ok (pages', ptr) := by
  have hno : NoWrap s.m size.sz.toNat s.groups := by
    rw [h.groups]
    exact noWrap_of_lt hmax h.chain h.dvd_spaceSz
  rcases h.alloc size answer hno with hnone | ⟨s', pages', ptr, hstep, hrep, hobjs, hlist⟩
  · exact .inl hnone
  · exact .inr ⟨s', pages', ptr, hstep, hrep, hobjs, allocObj_of_listStep hmax hlist⟩

end Snitchaser.Interp.Memory
