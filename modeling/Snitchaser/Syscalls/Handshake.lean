import Snitchaser.Common.Defs
import Mathlib.Data.Option.Basic
import Mathlib.Tactic.Cases

/-!
# The handshake of `clone`

After a `clone` the parent waits until its child has set up its private data
(`clone_post_parent`), and the child wakes it up (`clone_post_child_setup_tls`). They share
one word, `futex_data`, which is 0 before.

    parent: do {                          child: incl futex_data
        decl futex_data                       v = futex_data
        v = futex_data                        if (v != 1) {
        if (v == 0) break                         futex_data = 1
        futex_data = -1                           futex(WAKE)
        futex(WAIT, -1)                       }
    } while (TRUE)

## The model

Each line that touches `futex_data` is one step, `FUTEX_WAIT` compares and sleeps in one, and
the two sides take steps in any order. The test of `v` belongs to the read before it. A
sleeping parent is woken by `FUTEX_WAKE` only.

## What is proved

`lost_iff`: the wake-up is lost in exactly the interleavings that run to their end and in
which the parent stored its -1 over what the child had stored. In all of them the parent
goes on only after the child's `incl`.
-/

namespace Snitchaser.Syscalls.Handshake

/-- Where the parent is: before one of its steps, asleep, or behind the loop. -/
inductive Parent where
  | decl | read | store | wait | asleep | left
  deriving DecidableEq, Repr

/-- Where the child is. -/
inductive Child where
  | incl | read | store | wake | finished
  deriving DecidableEq, Repr

/-- Both, and `futex_data`. -/
structure State where
  parent : Parent
  child : Child
  data : ℤ
  deriving DecidableEq, Repr

/-- `__pre_trace_clone` set `futex_data` to 0. -/
def init : State := ⟨.decl, .incl, 0⟩

/-- A step of the parent, if it can make one. -/
def parentStep (s : State) : Option State :=
  match s.parent with
  | .decl => some { s with parent := .read, data := s.data - 1 }
  | .read => some { s with parent := if s.data = 0 then .left else .store }
  | .store => some { s with parent := .wait, data := -1 }
  | .wait => some { s with parent := if s.data = -1 then .asleep else .decl }
  | .asleep => none
  | .left => none

/-- A step of the child. -/
def childStep (s : State) : Option State :=
  match s.child with
  | .incl => some { s with child := .read, data := s.data + 1 }
  | .read => some { s with child := if s.data ≠ 1 then .store else .finished }
  | .store => some { s with child := .wake, data := 1 }
  | .wake => some { s with child := .finished, parent := if s.parent = .asleep then .decl else s.parent }
  | .finished => none

/-- Whose turn it is. -/
inductive Turn where
  | parent | child
  deriving DecidableEq, Repr

/-- A step of one of them. -/
def step (s : State) : Turn → Option State
  | .parent => parentStep s
  | .child => childStep s

/-- An interleaving. -/
def run (s : State) (turns : List Turn) : Option State := turns.foldlM step s

/-- The child has finished its wake-up code, and the parent is asleep. -/
def Lost (s : State) : Prop := s.child = .finished ∧ s.parent = .asleep

/-- Nobody can make a step. -/
def Ended (s : State) : Prop := ∀ turn, step s turn = none

/-- The parent is about to store its -1, and the child has stored. -/
def AtOverwrite (s : State) : Prop := s.parent = .store ∧ (s.child = .wake ∨ s.child = .finished)

/-- **The parent stores over what the child has stored**, somewhere in an interleaving. -/
def Overwrites (s : State) (turns : List Turn) : Prop :=
  ∃ past rest s', turns = past ++ .parent :: rest ∧ run s past = some s' ∧ AtOverwrite s'

theorem run_cons {s s' : State} {turn : Turn} {turns : List Turn}
    (h : run s (turn :: turns) = some s') : ∃ s₁, step s turn = some s₁ ∧ run s₁ turns = some s' :=
  Option.bind_eq_some_iff.mp h

theorem overwrites_cons {s s₁ : State} {turn : Turn} {turns : List Turn}
    (hstep : step s turn = some s₁) :
    Overwrites s (turn :: turns) ↔ (turn = .parent ∧ AtOverwrite s) ∨ Overwrites s₁ turns := by
  constructor
  · rintro ⟨past, rest, s', heq, hrun, hat⟩
    cases past with
    | nil =>
      cases heq
      cases hrun
      exact .inl ⟨rfl, hat⟩
    | cons first past =>
      cases heq
      obtain ⟨s₂, hstep₂, hrun⟩ := run_cons hrun
      rw [hstep] at hstep₂
      cases hstep₂
      exact .inr ⟨past, rest, s', rfl, hrun, hat⟩
  · rintro (⟨rfl, hat⟩ | ⟨past, rest, s', rfl, hrun, hat⟩)
    · exact ⟨[], turns, s, rfl, rfl, hat⟩
    · exact ⟨turn :: past, rest, s', rfl, Option.bind_eq_some_iff.mpr ⟨s₁, hstep, hrun⟩, hat⟩

/-- **What holds along every interleaving**, by where the child is; `stored` says whether the
parent has stored over what the child had stored.

Once that is so, `futex_data` stays negative and the parent cannot leave. Before it, a child
behind its store leaves a 1, which the parent brings down to 0. -/
def Inv (s : State) (stored : Prop) : Prop :=
  match s.child with
  | .incl => ¬ stored ∧ (s.parent = .decl ∧ s.data = 0 ∨
      s.parent ≠ .decl ∧ s.parent ≠ .left ∧ s.data = -1)
  | .read => ¬ stored ∧ s.data ≤ 1 ∧ (s.data = 1 → s.parent = .decl)
  | .store => ¬ stored
  | child => (stored → s.data < 0 ∧ s.parent ≠ .left) ∧
      (¬ stored → 0 ≤ s.data ∧ (s.parent = .decl ∨ s.parent = .wait ∨ s.parent = .asleep → s.data = 1) ∧
        (child = .finished → s.parent ≠ .asleep))

theorem inv_init : Inv init False := by
  simp [Inv, init]

/-- A step of the child keeps it. -/
theorem Inv.childStep {s s₁ : State} {stored : Prop} (h : Inv s stored)
    (hstep : Handshake.childStep s = some s₁) : Inv s₁ stored := by
  obtain ⟨parent, child, data⟩ := s
  cases child with
  | incl =>
    cases hstep
    obtain ⟨hover, ⟨rfl, rfl⟩ | ⟨-, -, rfl⟩⟩ := h
    · simp [Inv, hover]
    · simp [Inv, hover]
  | read =>
    cases hstep
    obtain ⟨hover, -, hone⟩ := h
    by_cases hdata : data = 1
    · -- the parent has not begun: it will find the 1
      subst hdata
      obtain rfl : parent = .decl := hone rfl
      exact ⟨fun ho => absurd ho hover, fun _ => ⟨by decide, fun _ => rfl, fun _ => by decide⟩⟩
    · simp only [ne_eq, hdata, not_false_eq_true, if_true]
      exact hover
  | store =>
    cases hstep
    exact ⟨fun ho => absurd ho h, fun _ => ⟨Int.zero_le_ofNat 1, fun _ => rfl, Child.noConfusion⟩⟩
  | wake =>
    cases hstep
    obtain ⟨hover, hnot⟩ := h
    refine ⟨fun ho => ?_, fun ho => ?_⟩
    · obtain ⟨hneg, hleft⟩ := hover ho
      refine ⟨hneg, ?_⟩
      show (if parent = .asleep then Parent.decl else parent) ≠ .left
      split_ifs
      · decide
      · exact hleft
    · obtain ⟨hpos, hone, -⟩ := hnot ho
      refine ⟨hpos, fun hp => ?_, fun _ => ?_⟩
      · refine hone ?_
        revert hp
        show (if parent = .asleep then Parent.decl else parent) = _ ∨ _ ∨ _ → _
        split_ifs with hasleep
        · exact fun _ => .inr (.inr hasleep)
        · exact id
      · show (if parent = .asleep then Parent.decl else parent) ≠ .asleep
        split_ifs with hasleep
        · decide
        · exact hasleep
  | finished => cases hstep

/-- A step of the parent keeps it, or is the one that stores over the child's. -/
theorem Inv.parentStep {s s₁ : State} {stored : Prop} (h : Inv s stored)
    (hstep : Handshake.parentStep s = some s₁) : Inv s₁ (stored ∨ AtOverwrite s) := by
  obtain ⟨parent, child, data⟩ := s
  cases parent with
  | decl =>
    cases hstep
    cases child <;> simp_all [Inv, AtOverwrite] <;> grind
  | read =>
    cases hstep
    by_cases hdata : data = 0
    · cases child <;> simp_all [Inv, AtOverwrite]
    · cases child <;> simp_all [Inv, AtOverwrite]
  | store =>
    cases hstep
    -- the only step that matters: it is the child's store that may be lost
    cases child <;> simp_all [Inv, AtOverwrite]
  | wait =>
    cases hstep
    by_cases hdata : data = -1
    · cases child <;> simp_all [Inv, AtOverwrite]
    · cases child <;> simp_all [Inv, AtOverwrite]
  | asleep => cases hstep
  | left => cases hstep

/-- Every interleaving keeps it. -/
theorem Inv.run {s s' : State} {stored : Prop} {turns : List Turn} (h : Inv s stored)
    (hrun : Handshake.run s turns = some s') : Inv s' (stored ∨ Overwrites s turns) := by
  induction turns generalizing s stored with
  | nil =>
    have hnone : ¬ Overwrites s [] := by
      rintro ⟨past, rest, _, heq, -⟩
      simp at heq
    rw [or_iff_left hnone]
    cases hrun
    exact h
  | cons turn turns ih =>
    obtain ⟨s₁, hstep, hrest⟩ := run_cons hrun
    rw [overwrites_cons hstep]
    cases turn with
    | parent =>
      have h₁ := ih (h.parentStep hstep) hrest
      simpa only [or_assoc, true_and] using h₁
    | child =>
      have h₁ := ih (h.childStep hstep) hrest
      rwa [or_iff_right (show ¬ (Turn.child = .parent ∧ AtOverwrite s) by simp)]

/-- At the end the child has finished, and the parent is asleep or has left. -/
theorem Ended.cases {s : State} (h : Ended s) :
    s.child = .finished ∧ (s.parent = .asleep ∨ s.parent = .left) := by
  obtain ⟨parent, child, data⟩ := s
  have hparent := h .parent
  have hchild := h .child
  cases child <;> cases hchild
  cases parent <;> cases hparent
  · exact ⟨rfl, .inl rfl⟩
  · exact ⟨rfl, .inr rfl⟩

/-- A lost wake-up is the end. -/
theorem Lost.ended {s : State} (h : Lost s) : Ended s := by
  obtain ⟨parent, child, data⟩ := s
  obtain ⟨rfl, rfl⟩ := h
  intro turn
  cases turn <;> rfl

/-- **When the wake-up is lost**: in exactly the interleavings that have come to their end and
in which the parent stored -1 after the child had stored 1. In none does the parent leave
before the child's `incl`. -/
theorem lost_iff {turns : List Turn} {s : State} (hrun : run init turns = some s) :
    (Lost s ↔ Ended s ∧ Overwrites init turns) ∧ (s.parent = .left → s.child ≠ .incl) := by
  have hinv := inv_init.run hrun
  rw [false_or] at hinv
  refine ⟨⟨fun hlost => ⟨hlost.ended, ?_⟩, ?_⟩, ?_⟩
  · by_contra hover
    obtain ⟨parent, child, data⟩ := s
    obtain ⟨rfl, rfl⟩ := hlost
    exact (hinv.2 hover).2.2 rfl rfl
  · rintro ⟨hended, hover⟩
    obtain ⟨hchild, hparent⟩ := hended.cases
    refine ⟨hchild, hparent.resolve_right ?_⟩
    obtain ⟨parent, child, data⟩ := s
    obtain rfl : child = .finished := hchild
    exact (hinv.1 hover).2
  · rintro hleft hincl
    obtain ⟨parent, child, data⟩ := s
    obtain rfl : child = .incl := hincl
    obtain rfl : parent = .left := hleft
    obtain ⟨-, ⟨hp, -⟩ | ⟨-, hp, -⟩⟩ := hinv
    · cases hp
    · exact hp rfl

/-- The child comes first, and the parent does not sleep. -/
theorem lost_iff_child_first : ∃ s, run init [.child, .child, .parent, .parent] = some s ∧
    (Lost s ↔ Ended s ∧ Overwrites init [.child, .child, .parent, .parent]) ∧
    (s.parent = .left → s.child ≠ .incl) :=
  ⟨⟨.left, .finished, 0⟩, rfl, lost_iff rfl⟩

/-- The parent has read its -1 when the child makes all of its steps; then it stores over the
1, and sleeps for ever. -/
theorem wake_up_lost : ∃ s,
    run init [.parent, .parent, .child, .child, .child, .child, .parent, .parent] = some s ∧ Lost s :=
  ⟨⟨.asleep, .finished, -1⟩, rfl, rfl, rfl⟩

end Snitchaser.Syscalls.Handshake
