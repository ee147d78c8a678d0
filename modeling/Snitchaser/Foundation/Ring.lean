import Mathlib.Logic.Function.Basic
import Mathlib.Data.List.Nodup

/-!
# Rings of links

Nodes with a link in each direction, and the rings they make: a head, the nodes on the way
from it, and back to it. A direction is a function, and what is on the way is said of one
function at a time (`Path`), so that each lemma serves both directions.

A ring is changed one link at a time. In between only one of the directions may be whole,
so the lemmas about a new node (`Path.insert`) and one that is left out (`Path.skip`) are
about paths, and those about rings follow.
-/

namespace Foundation

variable {ν : Type}

/-! ### Paths -/

/-- From `a` the links lead through the nodes `xs`, in order, to `b`. -/
def Path (f : ν → ν) : ν → List ν → ν → Prop
  | a, [], b => f a = b
  | a, x :: xs, b => f a = x ∧ Path f x xs b

section Path

variable {f g : ν → ν} {a b c e p x : ν} {xs ys : List ν}

/-- Only the first link, and those of the nodes on the way, matter. -/
theorem Path.congr (h : Path f a xs b) (hstart : g c = f a) (hsame : ∀ x ∈ xs, g x = f x) :
    Path g c xs b := by
  induction xs generalizing a c with
  | nil => exact hstart.trans h
  | cons x xs ih =>
    refine ⟨hstart.trans h.1, ih h.2 (hsame x List.mem_cons_self) fun y hy => ?_⟩
    exact hsame y (List.mem_cons_of_mem x hy)

theorem path_append : Path f a (xs ++ e :: ys) b ↔ Path f a xs e ∧ Path f e ys b := by
  induction xs generalizing a with
  | nil => exact Iff.rfl
  | cons x xs ih => exact ⟨fun h => ⟨⟨h.1, (ih.mp h.2).1⟩, (ih.mp h.2).2⟩,
      fun h => ⟨h.1.1, ih.mpr ⟨h.1.2, h.2⟩⟩⟩

/-- A node more at the start. -/
theorem Path.insert (h : Path f a xs b) (hnew : g c = f a) (hstart : g a = c)
    (hsame : ∀ x ∈ xs, g x = f x) : Path g a (c :: xs) b :=
  ⟨hstart, h.congr hnew hsame⟩

/-- **A node less.** The node before it is linked to the one behind it. -/
theorem Path.skip (h : Path f a (xs ++ e :: ys) b) (hnodup : (a :: (xs ++ e :: ys)).Nodup)
    (hp : p ∈ a :: xs) (hpe : f p = e) (hlink : g p = f e)
    (hsame : ∀ x ∈ a :: (xs ++ ys), x ≠ p → g x = f x) : Path g a (xs ++ ys) b := by
  induction xs generalizing a with
  | nil =>
    obtain rfl := List.mem_singleton.mp hp
    refine h.2.congr hlink fun x hx => hsame x (List.mem_cons_of_mem p hx) ?_
    rintro rfl
    exact (List.nodup_cons.mp hnodup).1 (List.mem_cons_of_mem e hx)
  | cons x xs ih =>
    obtain ⟨hax, hpath⟩ := h
    obtain ⟨hnot, hnodup'⟩ := List.nodup_cons.mp hnodup
    -- the link of `a` is to `x`, and `p` is the node with a link to `e`
    have hxe : x ≠ e := by
      rintro rfl
      exact (List.nodup_cons.mp hnodup').1 (List.mem_append_right xs List.mem_cons_self)
    have hap : a ≠ p := by
      rintro rfl
      exact hxe (hax.symm.trans hpe)
    refine ⟨(hsame a List.mem_cons_self hap).trans hax, ih hpath hnodup' ?_ fun y hy => ?_⟩
    · exact (List.mem_cons.mp hp).resolve_left hap.symm
    · exact hsame y (List.mem_cons_of_mem a hy)

/-- The way there and the way back: the node before one on the way is linked to it. -/
theorem Path.back_eq (h : Path f a xs e) (hback : Path g e xs.reverse a) :
    g e ∈ a :: xs ∧ f (g e) = e := by
  obtain rfl | ⟨ys, y, rfl⟩ := xs.eq_nil_or_concat'
  · have hge : g e = a := hback
    rw [hge]
    exact ⟨List.mem_cons_self, h⟩
  · rw [List.reverse_append] at hback
    rw [hback.1]
    exact ⟨List.mem_cons_of_mem a (List.mem_append_right ys List.mem_cons_self),
      (path_append.mp h).2⟩

end Path

/-! ### Rings -/

/-- The links of all nodes. -/
structure Links (ν : Type) where
  next : ν → ν
  prev : ν → ν

/-- **A ring**: through the nodes `xs`, from the head and back to it, in both directions. -/
structure Ring (l : Links ν) (head : ν) (xs : List ν) : Prop where
  next : Path l.next head xs head
  prev : Path l.prev head xs.reverse head
  nodup : (head :: xs).Nodup

section Ring

variable {l l' : Links ν} {head e c : ν} {xs ys : List ν}

theorem Ring.nodup_reverse (h : Ring l head xs) : (head :: xs.reverse).Nodup := by
  obtain ⟨hnot, hxs⟩ := List.nodup_cons.mp h.nodup
  exact List.nodup_cons.mpr ⟨fun hmem => hnot (List.mem_reverse.mp hmem), List.nodup_reverse.mpr hxs⟩

/-- Only the links of its nodes matter. -/
theorem Ring.congr (h : Ring l head xs) (hnext : ∀ x ∈ head :: xs, l'.next x = l.next x)
    (hprev : ∀ x ∈ head :: xs, l'.prev x = l.prev x) : Ring l' head xs where
  next := h.next.congr (hnext head List.mem_cons_self) fun x hx => hnext x (List.mem_cons_of_mem head hx)
  prev := by
    refine h.prev.congr (hprev head List.mem_cons_self) fun x hx => hprev x ?_
    exact List.mem_cons_of_mem head (List.mem_reverse.mp hx)
  nodup := h.nodup

/-- Both directions at a node: those before it, and those behind it. -/
theorem Ring.split_prev (h : Ring l head (xs ++ e :: ys)) :
    Path l.prev head (ys.reverse ++ e :: xs.reverse) head := by
  have hprev := h.prev
  rwa [List.reverse_append, List.reverse_cons, List.append_assoc] at hprev

theorem Ring.prev_spec (h : Ring l head (xs ++ e :: ys)) :
    l.prev e ∈ head :: xs ∧ l.next (l.prev e) = e :=
  (path_append.mp h.next).1.back_eq (path_append.mp h.split_prev).2

theorem Ring.next_spec (h : Ring l head (xs ++ e :: ys)) :
    l.next e ∈ head :: ys.reverse ∧ l.prev (l.next e) = e := by
  refine (path_append.mp h.split_prev).1.back_eq ?_
  rw [List.reverse_reverse]
  exact (path_append.mp h.next).2

/-- **A node more**, behind the head. -/
theorem Ring.insert (h : Ring l head xs) (hc : c ∉ head :: xs) (hnext : l'.next c = l.next head)
    (hhead : l'.next head = c) (hsame : ∀ x ∈ xs, l'.next x = l.next x)
    (hfirst : l'.prev (l.next head) = c) (hprev : l'.prev c = head)
    (hprev' : ∀ x ∈ head :: xs, x ≠ l.next head → l'.prev x = l.prev x) : Ring l' head (c :: xs) where
  next := h.next.insert hnext hhead hsame
  nodup := by
    obtain ⟨hnot, hxs⟩ := List.nodup_cons.mp h.nodup
    obtain ⟨hne, hcxs⟩ := not_or.mp (List.mem_cons.not.mp hc)
    refine List.nodup_cons.mpr ⟨?_, List.nodup_cons.mpr ⟨hcxs, hxs⟩⟩
    exact List.mem_cons.not.mpr (not_or.mpr ⟨Ne.symm hne, hnot⟩)
  prev := by
    rw [List.reverse_cons]
    refine path_append.mpr ⟨?_, hprev⟩
    -- the way back is the old one, but that it ends at the new node
    cases xs with
    | nil =>
      have hself : l.next head = head := h.next
      rw [hself] at hfirst
      exact hfirst
    | cons x xs =>
      have hx : l.next head = x := h.next.1
      rw [hx] at hfirst hprev'
      rw [List.reverse_cons]
      have hback := h.prev
      rw [List.reverse_cons] at hback
      obtain ⟨hnot, hxs⟩ := List.nodup_cons.mp h.nodup
      refine path_append.mpr ⟨(path_append.mp hback).1.congr (hprev' head List.mem_cons_self ?_)
        fun y hy => ?_, hfirst⟩
      · rintro rfl
        exact hnot List.mem_cons_self
      · have hy := List.mem_reverse.mp hy
        refine hprev' y (List.mem_cons_of_mem head (List.mem_cons_of_mem x hy)) ?_
        rintro rfl
        exact (List.nodup_cons.mp hxs).1 hy

/-- **A node less.** -/
theorem Ring.erase (h : Ring l head (xs ++ e :: ys)) (hnext : l'.next (l.prev e) = l.next e)
    (hsame : ∀ x ∈ head :: (xs ++ ys), x ≠ l.prev e → l'.next x = l.next x)
    (hprev : l'.prev (l.next e) = l.prev e)
    (hsame' : ∀ x ∈ head :: (xs ++ ys), x ≠ l.next e → l'.prev x = l.prev x) :
    Ring l' head (xs ++ ys) where
  next := h.next.skip h.nodup h.prev_spec.1 h.prev_spec.2 hnext hsame
  prev := by
    have hnodup := h.nodup_reverse
    rw [List.reverse_append, List.reverse_cons, List.append_assoc] at hnodup
    rw [List.reverse_append]
    refine h.split_prev.skip hnodup h.next_spec.1 h.next_spec.2 hprev fun x hx => hsame' x ?_
    simpa only [List.mem_cons, List.mem_append, List.mem_reverse, or_comm] using hx
  nodup := by
    refine h.nodup.sublist (List.Sublist.cons_cons head ?_)
    exact List.Sublist.append_left (List.sublist_cons_self e ys) xs

end Ring

end Foundation
