import Snitchaser.Common.Defs

/-!
# Object pages

`alloc_obj` of `mm.c`: code blocks of all sizes come from runs of executable pages,
first fit, and are never given back.

## The model

A run of pages starts with a `struct obj_page_head`; `ObjPage` holds its fields, and
with them that the free space lies inside the run. The list is the chain of
`next_obj_page` from `*phead` on. Addresses are numbers here: a run lies in user space,
so sums of an address and an object size below `maxObj` do not wrap.

What `alloc_pages` returns is the kernel's choice and an argument; `FreshPages` is what
`mmap` promises of it.

## What is proved

`allocObj_spec`: the assertions hold, and an object lies in user space, behind the head
of its run, apart from every object handed out before.
-/

namespace Snitchaser.Interp

/-- The end of user space. -/
def userEnd : ℕ := 0xC0000000

/-- Objects of a gigabyte or more are not modelled: there `next_free_byte + sz` wraps. -/
def maxObj : ℕ := 2 ^ 30

/-- `PAGE_SIZE`. -/
def pageSize : ℕ := 4096

/-- `sizeof(struct obj_page_head)`. -/
def objPageHeadSz : ℕ := 12

/-- A run of object pages: `struct obj_page_head`, at the address `head`. -/
structure ObjPage where
  /-- The address of the head. -/
  head : ℕ
  /-- `space_sz`. -/
  spaceSz : ℕ
  /-- `next_free_byte`. -/
  nextFreeByte : ℕ
  /-- It is not the null page. -/
  head_pos : 0 < head
  /-- The free space begins behind the head. -/
  data_le : head + objPageHeadSz ≤ nextFreeByte
  /-- It ends with the run. -/
  free_lt : nextFreeByte < head + spaceSz
  /-- The run lies in user space. -/
  end_le : head + spaceSz ≤ userEnd

/-- The object fits a run. -/
def ObjPage.fits (page : ObjPage) (sz : ℕ) : Prop :=
  page.nextFreeByte + sz < page.head + page.spaceSz

instance (page : ObjPage) (sz : ℕ) : Decidable (page.fits sz) := Nat.decLt _ _

/-- An object is taken from a run it fits. -/
def ObjPage.take (page : ObjPage) (sz : ℕ) (h : page.fits sz) : ObjPage where
  head := page.head
  spaceSz := page.spaceSz
  nextFreeByte := page.nextFreeByte + sz
  head_pos := page.head_pos
  data_le := Nat.le_trans page.data_le (Nat.le_add_right _ _)
  free_lt := h
  end_le := page.end_le

/-- The loop of `alloc_obj`: the first run the object fits. -/
def takeFirst : List ObjPage → ℕ → Option (List ObjPage × ℕ)
  | [], _ => none
  | page :: pages, sz =>
    if h : page.fits sz then some (page.take sz h :: pages, page.nextFreeByte)
    else (takeFirst pages sz).map fun (pages', ptr) => (page :: pages', ptr)

/-- How many pages a new run for an object has: `alloc_obj` adds the size of the head,
`alloc_obj_pages` that of a pointer, and the sum is aligned up. -/
def newPages (sz : ℕ) : ℕ := (sz + objPageHeadSz + 4 + (pageSize - 1)) / pageSize

theorem lt_newPages (sz : ℕ) : objPageHeadSz + sz < newPages sz * pageSize := by
  unfold newPages objPageHeadSz pageSize
  omega

/-- `nr` pages of user space, by their address. -/
def Pages (nr : ℕ) : Type := { start : ℕ // 0 < start ∧ start + nr * pageSize ≤ userEnd }

/-- What `mmap2` answers `alloc_pages`: pages, or an error. -/
abbrev AllocPages := (nr : ℕ) → Option (Pages nr)

/-- `alloc_obj_pages`, and the object taken from the new run: its first free byte lies
before the end. -/
def newRun (sz : ℕ) (start : Pages (newPages sz)) : ObjPage where
  head := start.1
  spaceSz := newPages sz * pageSize
  nextFreeByte := start.1 + objPageHeadSz + sz
  head_pos := start.2.1
  data_le := Nat.le_add_right _ _
  free_lt := by have := lt_newPages sz; omega
  end_le := start.2.2

/-- `alloc_obj(phead, sz)`, with the new list and the object. -/
def allocObj (allocPages : AllocPages) (pages : List ObjPage) (sz : ℕ) :
    Except Fault (List ObjPage × ℕ) :=
  if maxObj ≤ sz then .error .sizeWrapped
  else
    match takeFirst pages sz with
    | some result => .ok result
    | none =>
      match allocPages (newPages sz) with
      | none => .error (.assertion "(uint32_t)p < 0xc0000000")
      | some start => .ok (newRun sz start :: pages, start.1 + objPageHeadSz)

/-! ### What it promises -/

/-- Two ranges do not overlap. -/
def Apart (a m b n : ℕ) : Prop := a + m ≤ b ∨ b + n ≤ a

/-- What `mmap` promises besides: new pages overlap no run, and nothing is there yet
(`taken` are addresses in use otherwise). -/
structure FreshPages (allocPages : AllocPages) (pages : List ObjPage) (taken : ℕ → Prop) : Prop where
  /-- They overlap no run. -/
  apart : ∀ nr start, allocPages nr = some start → ∀ page ∈ pages,
    Apart start.1 (nr * pageSize) page.head page.spaceSz
  /-- Nothing is there. -/
  free : ∀ nr start, allocPages nr = some start → ∀ a, taken a →
    Apart start.1 (nr * pageSize) a 1

/-- An object in the used part of one of these runs. -/
def Inside (pages : List ObjPage) (obj : ℕ × ℕ) : Prop :=
  ∃ page ∈ pages, page.head + objPageHeadSz ≤ obj.1 ∧ obj.1 + obj.2 ≤ page.nextFreeByte

/-- The runs and the objects (address and size) handed out from them. -/
structure ObjPagesOk (taken : ℕ → Prop) (pages : List ObjPage) (objs : List (ℕ × ℕ)) : Prop where
  /-- Addresses in use otherwise are in no run. -/
  taken_apart : ∀ a, taken a → ∀ page ∈ pages, Apart page.head page.spaceSz a 1
  /-- The runs do not overlap. -/
  pages_apart : pages.Pairwise fun p q => Apart p.head p.spaceSz q.head q.spaceSz
  /-- Each object lies in the used part of a run. -/
  inside : ∀ obj ∈ objs, Inside pages obj
  /-- The objects do not overlap. -/
  objs_apart : objs.Pairwise fun o o' => Apart o.1 o.2 o'.1 o'.2

section Spec

variable {taken : ℕ → Prop}

theorem objPagesOk_nil : ObjPagesOk taken [] [] where
  taken_apart _ _ _ h := (List.not_mem_nil h).elim
  pages_apart := .nil
  inside _ h := (List.not_mem_nil h).elim
  objs_apart := .nil

/-- What the loop does to the list: one run gives an object from its free space. -/
theorem takeFirst_cases {pages pages' : List ObjPage} {sz ptr : ℕ}
    (h : takeFirst pages sz = some (pages', ptr)) :
    ∃ (before : List ObjPage) (page : ObjPage) (after : List ObjPage) (hfit : page.fits sz),
      pages = before ++ page :: after ∧ pages' = before ++ page.take sz hfit :: after ∧ ptr = page.nextFreeByte := by
  induction pages generalizing pages' with
  | nil => cases h
  | cons page pages ih =>
    rw [takeFirst] at h
    split_ifs at h with hfit
    · cases h
      exact ⟨[], page, pages, hfit, rfl, rfl, rfl⟩
    · obtain ⟨⟨rest, p⟩, hrest, heq⟩ := Option.map_eq_some_iff.mp h
      cases heq
      obtain ⟨before, q, after, hq, rfl, rfl, rfl⟩ := ih hrest
      exact ⟨page :: before, q, after, hq, rfl, rfl, rfl⟩

/-- Objects from runs that do not overlap do not overlap. -/
theorem Inside.apart {pages : List ObjPage} {obj : ℕ × ℕ} (h : Inside pages obj) {a n head sz : ℕ}
    (hrun : ∀ page ∈ pages, Apart head sz page.head page.spaceSz) (ha : head ≤ a)
    (hn : a + n ≤ head + sz) : Apart a n obj.1 obj.2 := by
  obtain ⟨page, hpage, hlo, hhi⟩ := h
  have hlt := page.free_lt
  rcases hrun page hpage with h | h
  · exact .inl (by omega)
  · exact .inr (by omega)

theorem ObjPagesOk.take {before after : List ObjPage} {page : ObjPage} {objs : List (ℕ × ℕ)}
    (h : ObjPagesOk taken (before ++ page :: after) objs) {sz : ℕ} (hfit : page.fits sz) :
    ObjPagesOk taken (before ++ page.take sz hfit :: after) ((page.nextFreeByte, sz) :: objs) := by
  obtain ⟨htaken, happart, hin, hobjs⟩ := h
  obtain ⟨hb, hpa, hcross⟩ := List.pairwise_append.mp happart
  obtain ⟨hp, ha⟩ := List.pairwise_cons.mp hpa
  have hdata := page.data_le
  refine ⟨fun a ht p hpm => ?_, ?_, ?_, ?_⟩
  · rcases List.mem_append.mp hpm with hpm | hpm
    · exact htaken a ht p (List.mem_append_left _ hpm)
    · rcases List.mem_cons.mp hpm with rfl | hpm
      · exact htaken a ht page (by simp)
      · exact htaken a ht p (by simp [hpm])
  · refine List.pairwise_append.mpr ⟨hb, List.pairwise_cons.mpr ⟨hp, ha⟩, fun p hpb q hq => ?_⟩
    rcases List.mem_cons.mp hq with rfl | hq
    · exact hcross p hpb page List.mem_cons_self
    · exact hcross p hpb q (List.mem_cons_of_mem _ hq)
  · intro obj hobj
    rcases List.mem_cons.mp hobj with rfl | hobj
    · exact ⟨page.take sz hfit, by simp, hdata, le_refl _⟩
    · obtain ⟨q, hq, hlo, hhi⟩ := hin obj hobj
      rcases List.mem_append.mp hq with hq | hq
      · exact ⟨q, List.mem_append_left _ hq, hlo, hhi⟩
      · rcases List.mem_cons.mp hq with rfl | hq
        · exact ⟨q.take sz hfit, by simp, hlo, Nat.le_trans hhi (Nat.le_add_right _ _)⟩
        · exact ⟨q, List.mem_append_right _ (List.mem_cons_of_mem _ hq), hlo, hhi⟩
  · refine List.pairwise_cons.mpr ⟨fun obj hobj => ?_, hobjs⟩
    obtain ⟨q, hq, hlo, hhi⟩ := hin obj hobj
    have hother : q ∈ before ∨ q ∈ after → Apart page.nextFreeByte sz obj.1 obj.2 := fun hq' => by
      have hfits : page.nextFreeByte + sz ≤ page.head + page.spaceSz := Nat.le_of_lt hfit
      refine Inside.apart ⟨q, List.mem_singleton_self q, hlo, hhi⟩ (fun p hpq => ?_)
        (Nat.le_trans (Nat.le_add_right _ _) hdata) hfits
      rw [List.mem_singleton] at hpq
      subst hpq
      rcases hq' with hq' | hq'
      · exact (hcross p hq' page List.mem_cons_self).symm
      · exact hp p hq'
    rcases List.mem_append.mp hq with hq | hq
    · exact hother (.inl hq)
    · rcases List.mem_cons.mp hq with rfl | hq
      · exact .inr hhi
      · exact hother (.inr hq)

theorem ObjPagesOk.new {pages : List ObjPage} {objs : List (ℕ × ℕ)} (h : ObjPagesOk taken pages objs)
    {sz : ℕ} {start : Pages (newPages sz)}
    (hnew : ∀ page ∈ pages, Apart start.1 (newPages sz * pageSize) page.head page.spaceSz)
    (hfree : ∀ a, taken a → Apart start.1 (newPages sz * pageSize) a 1) :
    ObjPagesOk taken (newRun sz start :: pages) ((start.1 + objPageHeadSz, sz) :: objs) := by
  have hsz := lt_newPages sz
  refine ⟨fun a ht page hpage => ?_, List.pairwise_cons.mpr ⟨hnew, h.pages_apart⟩,
    fun obj hobj => ?_,
    List.pairwise_cons.mpr ⟨fun obj hobj => ?_, h.objs_apart⟩⟩
  · rcases List.mem_cons.mp hpage with rfl | hpage
    · exact hfree a ht
    · exact h.taken_apart a ht page hpage
  · rcases List.mem_cons.mp hobj with rfl | hobj
    · exact ⟨newRun sz start, List.mem_cons_self, le_refl _, le_refl _⟩
    · obtain ⟨page, hpage, hlo, hhi⟩ := h.inside obj hobj
      exact ⟨page, List.mem_cons_of_mem _ hpage, hlo, hhi⟩
  · exact Inside.apart (h.inside obj hobj) hnew (Nat.le_add_right _ _) (by omega)

/-- **An object is handed out** from the used part of a run, apart from all others. -/
theorem allocObj_spec {allocPages : AllocPages} {pages pages' : List ObjPage} {objs : List (ℕ × ℕ)}
    (h : ObjPagesOk taken pages objs) (hfresh : FreshPages allocPages pages taken) {sz ptr : ℕ}
    (hok : allocObj allocPages pages sz = .ok (pages', ptr)) :
    ObjPagesOk taken pages' ((ptr, sz) :: objs) := by
  unfold allocObj at hok
  split_ifs at hok with hmax
  split at hok
  · rename_i result htake
    cases hok
    obtain ⟨before, page, after, hfit, rfl, rfl, rfl⟩ := takeFirst_cases htake
    exact h.take hfit
  · split at hok
    · cases hok
    · rename_i start hstart
      cases hok
      exact h.new (hfresh.apart _ _ hstart) (hfresh.free _ _ hstart)

/-- An object ends in user space, whatever the runs. -/
theorem allocObj_lt {allocPages : AllocPages} {pages pages' : List ObjPage} {sz ptr : ℕ}
    (h : allocObj allocPages pages sz = .ok (pages', ptr)) : ptr + sz < userEnd := by
  unfold allocObj at h
  split_ifs at h with hmax
  split at h
  · rename_i result htake
    cases h
    obtain ⟨before, page, after, hfit, rfl, rfl, rfl⟩ := takeFirst_cases htake
    exact lt_of_lt_of_le hfit page.end_le
  · split at h
    · cases h
    · rename_i start hstart
      cases h
      exact lt_of_lt_of_le (newRun sz start).free_lt (newRun sz start).end_le

/-- An object lies in user space, at an address that is not in use. -/
theorem ObjPagesOk.mem_bounds {pages : List ObjPage} {objs : List (ℕ × ℕ)}
    (h : ObjPagesOk taken pages objs) {obj : ℕ × ℕ} (hobj : obj ∈ objs) :
    0 < obj.1 ∧ obj.1 + obj.2 < userEnd ∧ ∀ a, taken a → Apart obj.1 obj.2 a 1 := by
  obtain ⟨page, hpage, hlo, hhi⟩ := h.inside obj hobj
  have hpos := page.head_pos
  have hlt := page.free_lt
  have hend := page.end_le
  refine ⟨by omega, by omega, fun a ha => ?_⟩
  rcases h.taken_apart a ha page hpage with h | h
  · exact .inl (by omega)
  · exact .inr (by omega)

end Spec

end Snitchaser.Interp
