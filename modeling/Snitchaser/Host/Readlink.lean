import Snitchaser.Foundation.Loops
import Snitchaser.Foundation.Terminated
import Snitchaser.Host.Exception

/-!
# Reading a link

`readlink_malloc` of `main.c` asks for the target of a link with a buffer of 100 bytes, and
means to ask again with twice as many as long as the buffer was full. Its loop is that of `TRY`:
`break` leaves it, and the end of the body was to begin it again.

## The model

`tryBlock` is `TRY(exp) { body } FINALLY`, for a body that works on variables of any kind. The
catchers and the machine that says whether there is another round are those of
`Snitchaser.Host.Exception`; a body is left as a statement is (`Outcome`). The loop takes fuel.

What `readlink` does is what the system promises: as many bytes of the target as the buffer has
room for, without a terminator, and their number. Memory is there.

## What is proved

`tryBlock_eq`: whatever the body does, it runs once. So `link_read_whole_iff`: the whole target is
returned, with its terminator, **if and only if** it is shorter than the first buffer.
-/

namespace Snitchaser.Host

open Foundation Foundation.Terminated

/-! ### `TRY` -/

/-- How the program ends where the machine does. -/
def Halt.fault : Halt → Fault
  | .noCatcher => .assertion "c != NULL"
  | .outmost _ => .fatal "throw exception from outmost scope\n"
  | _ => .fatal "exp mc: stat=%d(act=%d)\n"

/-- `exceptions_state_mc(action)`. -/
def stateMc (action : Action) (catchers : List Catcher) : Except Fault (Bool × List Catcher) :=
  match exceptionsStateMc action catchers with
  | .error halt => .error halt.fault
  | .ok (again, catchers, _) => .ok (again, catchers)

/-- The catchers, the variable of the `TRY` and the variables of its body. -/
structure TryState (σ : Type) where
  catchers : List Catcher
  exp : Option Exc
  vars : σ

section Try

variable {σ : Type} (body : σ → Outcome × σ)

/-- A round of `while (exceptions_state_mc(CATCH_ITER_0)) { body }`. -/
def tryRound (st : TryState σ) : Except Fault (TryState σ ⊕ TryState σ) := do
  let (again, catchers) ← stateMc .iter0 st.catchers
  if again then
    match body st.vars with
    | (.brk, vars) => .ok (.inl ⟨catchers, st.exp, vars⟩)
    | (.thrown e, vars) => do
      -- `longjmp` to before the test
      let (_, catchers) ← stateMc .throw catchers
      .ok (.inr ⟨catchers, some e, vars⟩)
    | (_, vars) => .ok (.inr ⟨catchers, st.exp, vars⟩)
  else .ok (.inl ⟨catchers, st.exp, st.vars⟩)

/-- `TRY(exp) { body } FINALLY`, below these catchers: what was thrown, and the variables. -/
def tryBlock (fuel : ℕ) (catchers : List Catcher) (vars : σ) : Except Fault (Option Exc × σ) := do
  let (_, st) ← Loop.run (tryRound body) .diverges fuel ⟨⟨0, .init, 0, []⟩ :: catchers, none, vars⟩
  let _ ← stateMc .finally st.catchers
  .ok (st.exp, st.vars)

/-- What a body throws. -/
def Outcome.exc : Outcome → Option Exc
  | .thrown e => some e
  | _ => none

/-- **The body of a `TRY` runs once.** -/
theorem tryBlock_eq (fuel : ℕ) (catchers : List Catcher) (vars : σ) :
    tryBlock body (fuel + 2) catchers vars = .ok ((body vars).1.exc, (body vars).2) := by
  unfold tryBlock
  rcases hbody : body vars with ⟨out, vars'⟩
  cases out <;> simp only [Loop.run, tryRound, stateMc, exceptionsStateMc, hbody, bind, Except.bind,
    if_true, Bool.false_eq_true, if_false, Outcome.exc]

end Try

/-! ### The function -/

/-- The local variables of `readlink_malloc`. -/
structure LinkVars where
  size : ℕ
  /-- `NULL`, or as many bytes as were allocated. -/
  buffer : Option (List Byte)
  deriving DecidableEq

/-- `readlink(filename, buffer, size)`: the buffer and the number of bytes. -/
def readlink (target buffer : List Byte) (size : ℕ) : List Byte × ℕ :=
  (target.take size ++ buffer.drop (min target.length size), min target.length size)

/-- The body of the `TRY`; no target if the call fails. -/
def readlinkBody (target : Option (List Byte)) (v : LinkVars) : Outcome × LinkVars :=
  let cleared := List.replicate v.size 0
  match target with
  | none => (.thrown (makeExc .uncatchable 0 .fatal (str "readlink failed")), ⟨v.size, some cleared⟩)
  | some target =>
    let (buffer, nchars) := readlink target cleared v.size
    if nchars < v.size then (.brk, ⟨v.size, some buffer⟩) else (.normal, ⟨v.size * 2, some buffer⟩)

/-- `readlink_malloc(filename)`: the buffer it returns, or the exception it throws again. -/
def readlinkMalloc (fuel : ℕ) (catchers : List Catcher) (target : Option (List Byte)) :
    Except Fault (Except Exc (Option (List Byte))) := do
  let (exp, v) ← tryBlock (readlinkBody target) fuel catchers ⟨100, none⟩
  match exp with
  | some e => .ok (.error e)
  | none => .ok (.ok v.buffer)

/-- The target of a link: a string of the file system. -/
structure LinkTarget where
  bytes : List Byte
  ne_nil : bytes ≠ []
  nulFree : 0 ∉ bytes

/-- Whether the buffer was full or not, nothing is thrown. -/
theorem readlinkBody_some (target : List Byte) (v : LinkVars) :
    (readlinkBody (some target) v).1.exc = none ∧
      (readlinkBody (some target) v).2.buffer =
        some (readlink target (List.replicate v.size 0) v.size).1 := by
  unfold readlinkBody
  simp only
  split <;> exact ⟨rfl, rfl⟩

/-- The buffer of the first round is returned. -/
theorem readlinkMalloc_eq (fuel : ℕ) (catchers : List Catcher) (target : List Byte) :
    readlinkMalloc (fuel + 2) catchers (some target) =
      .ok (.ok (some (readlink target (List.replicate 100 0) 100).1)) := by
  obtain ⟨hexc, hbuffer⟩ := readlinkBody_some target ⟨100, none⟩
  unfold readlinkMalloc
  rw [tryBlock_eq, hexc, ← hbuffer]
  rfl

/-- **The target of a link is returned whole, if and only if** it has less than 100 bytes. -/
theorem link_read_whole_iff (fuel : ℕ) (catchers : List Catcher) (target : LinkTarget) :
    (∃ buffer, readlinkMalloc (fuel + 2) catchers (some target.bytes) = .ok (.ok (some buffer)) ∧
      read 0 buffer = some target.bytes) ↔ target.bytes.length < 100 := by
  rw [readlinkMalloc_eq]
  constructor
  · rintro ⟨buffer, hbuffer, hread⟩
    cases hbuffer
    by_contra hlong
    -- the buffer is full: no terminator is left of its zeros
    have hfull : (readlink target.bytes (List.replicate 100 0) 100).1 = target.bytes.take 100 := by
      unfold readlink
      rw [Nat.min_eq_right (not_lt.mp hlong), List.drop_replicate, Nat.sub_self, List.replicate_zero,
        List.append_nil]
    rw [hfull, read_eq_none 0 fun h => target.nulFree (List.mem_of_mem_take h)] at hread
    cases hread
  · intro hshort
    refine ⟨_, rfl, ?_⟩
    obtain ⟨k, hk⟩ : ∃ k, 100 - target.bytes.length = k + 1 := ⟨99 - target.bytes.length, by omega⟩
    unfold readlink
    rw [Nat.min_eq_left hshort.le, List.take_of_length_le hshort.le, List.drop_replicate, hk,
      List.replicate_succ]
    exact read_append 0 target.nulFree _

theorem letters_nulFree : (0 : Byte) ∉ List.replicate 100 0x61 :=
  fun h => absurd (List.eq_of_mem_replicate h) (by decide)

/-- A hundred letters. -/
def longTarget : LinkTarget where
  bytes := List.replicate 100 0x61
  ne_nil := List.cons_ne_nil _ _
  nulFree := letters_nulFree

/-- They fill the buffer, the loop ends, and what is returned has no end. -/
theorem longTarget_not_terminated :
    readlinkMalloc 2 [] (some longTarget.bytes) = .ok (.ok (some longTarget.bytes)) ∧
      read 0 longTarget.bytes = none := by
  have hfull : (readlink longTarget.bytes (List.replicate 100 0) 100).1 = longTarget.bytes := by
    unfold readlink longTarget
    rw [List.length_replicate, Nat.min_self, List.take_replicate, List.drop_replicate, Nat.sub_self,
      Nat.min_self, List.replicate_zero, List.append_nil]
  refine ⟨?_, read_eq_none 0 longTarget.nulFree⟩
  rw [readlinkMalloc_eq 0, hfull]

end Snitchaser.Host
