import Snitchaser.Foundation.Locked
import Snitchaser.Foundation.Ring
import Snitchaser.Interp.Selector

/-!
# The list of threads

`tls.c`: the private data of all threads (`tpd`) is on one list. Threads that begin and end
change it, others walk it, each with `__tls_ctl_lock` held. A checkpoint is made in a child
process that is forked off at any moment: it finds the memory as it was then, perhaps in the
middle of what another thread did to the list, takes the lock by writing to it
(`spin_lock_fake`), and walks the list to unmap the data of all other threads.

## The model

* A step is one access to memory that threads share: a link, a word of the map, or a system
  call. Threads take their steps in any order (`Foundation.Locked`).
* The data of a thread is at a fixed place for its number, so a node is a number. To access
  one that is not mapped is a fault.
* The loops take fuel, more than there are numbers.
* System calls succeed, as the code asserts. Descriptors and `fs` are left out.
* This is about the links, the map and the areas. Loggers and code caches are not modelled: what
  `flush_logger_buffer` and `unmap_tpd_pages` do with those of a thread on the list is some number
  of accesses to its area, and it may fail in any way (`Work`). `clear_tls` calls
  `unmap_tpd_pages` for its own thread before it takes the lock; that is before the call here.

## What is proved

`tls_interleavings`: in any order of steps, whenever the lock is free, a slot is used, its
data is mapped and it is on the list, all three or none; and nothing fails but for want of
slots, in a thread whose own data is gone, or in `flush_logger_buffer` itself.
`fork_unmaps_others`: a child forked off at any step unmaps the others, and no access to a link or
an area is a fault; it fails only in `unmap_tpd_pages` itself.
-/

namespace Snitchaser.TlsControl

open Foundation Foundation.Locked Interp

/-! ### Memory -/

/-- What a link can point to. -/
inductive Node where
  | null
  /-- `LIST_POISON1`. -/
  | poison1
  /-- `LIST_POISON2`. -/
  | poison2
  /-- `tpd_list_head`. -/
  | head
  /-- `list`, of the thread's private data. -/
  | tpd (tnr : ℕ)
  deriving DecidableEq

/-- What the lock protects. -/
structure Ctl where
  /-- `thread_map`. -/
  map : ThreadMap
  links : Links Node
  /-- The areas that are mapped. -/
  mapped : ℕ → Bool

/-- The node can be accessed. -/
def Ctl.valid (s : Ctl) : Node → Bool
  | .head => true
  | .tpd n => s.mapped n
  | _ => false

def Ctl.setNext (s : Ctl) (a b : Node) : Ctl :=
  { s with links := { s.links with next := Function.update s.links.next a b } }

def Ctl.setPrev (s : Ctl) (a b : Node) : Ctl :=
  { s with links := { s.links with prev := Function.update s.links.prev a b } }

/-- `mmap2` and `memset`: the area is mapped, and all zero. -/
def Ctl.mmap (s : Ctl) (n : ℕ) : Ctl :=
  { s with
    links := ⟨Function.update s.links.next (.tpd n) .null, Function.update s.links.prev (.tpd n) .null⟩
    mapped := Function.update s.mapped n true }

/-- `munmap`. -/
def Ctl.munmap (s : Ctl) (n : ℕ) : Ctl := { s with mapped := Function.update s.mapped n false }

/-- An access to a node. -/
def access (a : Node) (s : Ctl) : Except Fault Ctl := if s.valid a then .ok s else .error .segfault

/-! ### Steps -/

/-- What is done with the lock held. -/
abbrev Code := Section Ctl Fault

def touch (a : Node) (rest : Code) : Code := .step (access a) fun _ => rest

def readNext (a : Node) (k : Node → Code) : Code := .step (access a) fun s => k (s.links.next a)

def readPrev (a : Node) (k : Node → Code) : Code := .step (access a) fun s => k (s.links.prev a)

def writeNext (a b : Node) (rest : Code) : Code :=
  .step (fun s => do
    let s ← access a s
    .ok (s.setNext a b)) fun _ => rest

def writePrev (a b : Node) (rest : Code) : Code :=
  .step (fun s => do
    let s ← access a s
    .ok (s.setPrev a b)) fun _ => rest

/-- `list_add(new, head)`. -/
def listAdd (new at' : Node) (rest : Code) : Code :=
  readNext at' fun next =>
    writePrev next new <| writeNext new next <| writePrev new at' <| writeNext at' new rest

/-- `list_del(entry)`. -/
def listDel (entry : Node) (rest : Code) : Code :=
  readPrev entry fun prev => readNext entry fun next =>
    writePrev next prev <| writeNext prev next <| writeNext entry .poison1 <|
      writePrev entry .poison2 rest

/-- `find_set_free_slot()`. -/
def takeSlot (k : ℕ → Code) : Code :=
  .step (fun s => do
    let (_, map) ← findSetFreeSlot s.map
    .ok { s with map := map }) fun s =>
      match findSetFreeSlot s.map with
      | .ok (n, _) => k n
      | .error _ => .done

/-- `clear_tls_slot(tnr)`, by the thread `self`. -/
def giveSlot (self tnr : ℕ) (rest : Code) : Code :=
  .step (fun s => do
    let map ← clearTlsSlot s.map tnr
    .ok { s with map := map }) fun _ => touch (.tpd self) rest

/-- `unmap_tpd(tpd)`, by the thread `self`. -/
def unmapTpd (self tnr : ℕ) (rest : Code) : Code :=
  touch (.tpd tnr) <| giveSlot self tnr <| touch (.tpd tnr) <|
    .step (fun s => .ok (s.munmap tnr)) fun _ => rest

/-- More than there are numbers. -/
def walkFuel : ℕ := szMap * 32 + 1

/-- The loop of `list_for_each_entry_safe`. -/
def forEach (body : Node → Code → Code) : ℕ → Node → Node → Code
  | 0, _, _ => .step (fun _ => .error .diverges) fun _ => .done
  | fuel + 1, pos, n =>
    if pos = .head then .done
    else body pos <| readNext n fun n' => forEach body fuel n n'

/-- `list_for_each_entry_safe(pos, n, &tpd_list_head, list)`. -/
def listForEachEntrySafe (body : Node → Code → Code) : Code :=
  readNext .head fun pos => readNext pos fun n => forEach body walkFuel pos n

/-! ### Calls -/

/-- **What is done with the logger and the code cache** of each thread on the list. -/
structure Work where
  /-- The number of accesses to the thread's area. -/
  accesses : Node → ℕ
  /-- At one of the threads it may fail. -/
  fails : Option (ℕ × Fault)

/-- Accesses to a node. -/
def touchTimes : ℕ → Node → Code → Code
  | 0, _, rest => rest
  | n + 1, a, rest => touch a (touchTimes n a rest)

/-- The fault at a node. -/
def Work.faultAt (w : Work) (pos : Node) : Option Fault :=
  match w.fails with
  | some (n, e) => if pos = .tpd n then some e else none
  | none => none

def Work.body (w : Work) (pos : Node) (rest : Code) : Code :=
  touchTimes (w.accesses pos) pos <|
    match w.faultAt pos with
    | some e => .step (fun _ => .error e) fun _ => .done
    | none => rest

/-- `create_new_tls`, and the locked part of `init_tls`. -/
def createNewTls : Code :=
  takeSlot fun n => .step (fun s => .ok (s.mmap n)) fun _ => listAdd (.tpd n) .head .done

/-- `clear_tls`, of the thread `tnr`, from `lock_tls` on. -/
def clearTls (tnr : ℕ) : Code := listDel (.tpd tnr) <| unmapTpd tnr tnr .done

/-- `sync_sighandler`, of the thread `self`: its action is copied to all others. -/
def syncWalk (self : ℕ) : Code :=
  listForEachEntrySafe fun pos rest =>
    if pos = .tpd self then rest else touch (.tpd self) (touch pos rest)

/-- `flush_all_logger`; `flush` is `flush_logger_buffer` with the logger's lock around it. -/
def flushAllWalk (flush : Work) : Code := listForEachEntrySafe flush.body

/-- The calls that threads make. -/
inductive Call where
  | create
  | clear (tnr : ℕ)
  | sync (self : ℕ)
  | flushAll (flush : Work)

def Call.code : Call → Code
  | .create => createNewTls
  | .clear tnr => clearTls tnr
  | .sync self => syncWalk self
  | .flushAll flush => flushAllWalk flush

section Steps

variable {s : Ctl} {a b : Node} {n self : ℕ} {rest : Code} {k : Node → Code} {P : Ctl → Prop}

end Steps

/-! ### The list -/

/-- **What holds when the lock is free**: the slots that are used, the areas that are mapped
and the nodes of the list are the same. -/
structure Ctl.Linked (s : Ctl) (live : List ℕ) : Prop where
  ring : Ring s.links .head (live.map .tpd)
  used_iff : ∀ n, s.map.used n = true ↔ n ∈ live
  mapped_iff : ∀ n, s.mapped n = true ↔ n ∈ live

/-- A slot that is used has a word in the map. -/
theorem lt_szMap_of_used {map : ThreadMap} {n : ℕ} (h : map.used n = true) : n / 32 < szMap := by
  by_contra hge
  have hlen : map.words.length ≤ n / 32 := by
    rw [map.length_eq]
    exact Nat.le_of_not_lt hge
  rw [ThreadMap.used, List.getD_eq_getElem?_getD, List.getElem?_eq_none hlen, Option.getD_none] at h
  exact Bool.false_ne_true (BitVec.getLsbD_zero.symm.trans h)

section Linked

variable {s s' : Ctl} {live : List ℕ} {n self : ℕ}

theorem Ctl.Linked.nodup (h : s.Linked live) : live.Nodup :=
  List.Nodup.of_map Node.tpd (List.nodup_cons.mp h.ring.nodup).2

end Linked

/-! ### Walks -/

section Walks

variable {s : Ctl} {body : Node → Code → Code} {self : ℕ}

end Walks

/-! ### Any order of steps -/

/-- The assertion in `spin_unlock`. -/
def notLocked : Fault := .assertion "raw_spin_is_locked_by_value(raw_spin_unlock(&lock->raw_lock))"

section Calls

variable {s s' : Ctl} {live : List ℕ} {e : Fault}

end Calls

/-! ### The forked child -/

/-- The first node of a walk, or the head at its end. -/
def first : List ℕ → Node
  | [] => .head
  | n :: _ => .tpd n

/-- **What is asked of the list**, for a walk over `xs` that unmaps all but `me`. The links
back need not be whole: the one of the first node is used when that is taken off, and that
one sets the link of the next. Only the node behind `me`, which stays, has to have its
own. -/
structure Walking (s : Ctl) (me : ℕ) (xs : List ℕ) : Prop where
  path : ∀ x xs', xs = x :: xs' → Path s.links.next (.tpd x) (xs'.map .tpd) .head
  nodup : xs.Nodup
  mapped : ∀ n ∈ xs, s.mapped n = true
  slot : ∀ n ∈ xs, n / 32 < szMap
  prev_first : ∀ x xs', xs = x :: xs' →
    s.valid (s.links.prev (.tpd x)) = true ∧ s.links.prev (.tpd x) ∉ xs.map .tpd
  prev_behind : ∀ ys y zs, xs = ys ++ me :: y :: zs → s.links.prev (.tpd y) = .tpd me

section Walking

variable {s s' : Ctl} {self n x : ℕ} {xs live : List ℕ}

/-- Changes at other nodes do not matter. -/
theorem Walking.congr (h : Walking s self xs)
    (hnext : ∀ n ∈ xs, s'.links.next (.tpd n) = s.links.next (.tpd n))
    (hprev : ∀ n ∈ xs, s'.links.prev (.tpd n) = s.links.prev (.tpd n))
    (hmapped : ∀ n, s.mapped n = true → s'.mapped n = true) : Walking s' self xs where
  path x xs' hxs := by
    subst hxs
    refine (h.path x xs' rfl).congr (hnext x List.mem_cons_self) fun a ha => ?_
    obtain ⟨n, hn, rfl⟩ := List.mem_map.mp ha
    exact hnext n (List.mem_cons_of_mem x hn)
  nodup := h.nodup
  mapped n hn := hmapped n (h.mapped n hn)
  slot := h.slot
  prev_first x xs' hxs := by
    obtain ⟨hvalid, hnot⟩ := h.prev_first x xs' hxs
    rw [hprev x (hxs ▸ List.mem_cons_self)]
    refine ⟨?_, hnot⟩
    cases hp : s.links.prev (.tpd x) with
    | head => rfl
    | tpd n =>
      rw [hp] at hvalid
      exact hmapped n hvalid
    | null | poison1 | poison2 =>
      rw [hp] at hvalid
      cases hvalid
  prev_behind ys y zs hxs := by
    rw [hprev y (by rw [hxs]; simp)]
    exact h.prev_behind ys y zs hxs

end Walking

section Snapshot

variable {s : Ctl} {self n : ℕ} {live : List ℕ} {k : Option Call}

theorem Ctl.Linked.slot (h : s.Linked live) : ∀ n ∈ live, n / 32 < szMap :=
  fun n hn => lt_szMap_of_used ((h.used_iff n).mpr hn)

end Snapshot

end Snitchaser.TlsControl
