import Snitchaser.Common.Defs
import Mathlib.Data.Bool.Basic
import Mathlib.Logic.Function.Basic
import Mathlib.Logic.Relation

/-!
# Exceptions in C

`TRY(e) { body } FINALLY { fin } CATCH(e) { handler }` (`host/exception.h`) is

    exceptions_state_mc_init(&catcher, &e);
    setjmp(catcher.buf);
    while (exceptions_state_mc(CATCH_ITER_0)) { body }
    exceptions_state_mc(CATCH_FINALLY);
    { fin }
    if (e.type != EXP_NO_EXCEPTION) { handler }

and `THROW` fills the variable of the current catcher and jumps to its `setjmp`. The catchers
are a linked stack in static memory; a machine of four states says what the loop does next.

## The model

A machine runs statements from a list of what is still to be done. A catcher keeps what was to
be done at its `setjmp`, and a jump goes back to that; `break` and `continue` drop what is to
be done up to the loop they leave. The list of catchers is `curr_catcher_p` with its `prev`s.
Each `TRY` that is entered gets a number, which stands for the address of its catcher, and
the machine keeps a log. Statements of other kinds are actions, and conditions on the variables.

Left out are `errno`, the place of a throw, and the printing of an exception.

## What it is for

`eval` is what such statements mean: no stack, no loop and no jump, an exception leaves the
statements it is thrown in, up to the nearest `TRY` whose body is running.
-/

namespace Snitchaser.Host

/-- `enum exception_type`. -/
inductive ExceptionType where
  | noException
  | wrongCkpt | ckptRegionNotFound | fileNotFound | fileReadError | fileWriteError | fileEnd
  | fileCorrupted | lzoInflate | outOfMemory | procMaps | procMapsRegionNotFound | ptrace | elf
  | elfSymbolNotFound | sockpairError | sockpairUnsync | gdbserverExit | gdbserverUnderExit
  | gdbserverTargetSignaled | gdbserverError | logCorrupted | logEnd | syscallReplayer | unimplemented
  | uncatchable
  deriving DecidableEq, Repr

/-- `enum exception_level`. -/
inductive ExceptionLevel where
  | none | lowest | tainted | fatal | uncatchable
  deriving DecidableEq, Repr

/-- `struct exception_t`. -/
structure Exc where
  type : ExceptionType
  msg : List Byte
  val : Word
  level : ExceptionLevel
  deriving DecidableEq, Repr

/-- What `init_set_exception` leaves. -/
def Exc.none : Exc := ⟨.noException, [], 0, .none⟩

/-- `EXCEPTION_MSG_LEN_MAX`. -/
def exceptionMsgLenMax : ℕ := 512

/-- The exception `__throw_exception` makes. -/
def makeExc (type : ExceptionType) (val : Word) (level : ExceptionLevel) (msg : List Byte) : Exc :=
  let msg := msg.take (exceptionMsgLenMax - 1)
  if level = .uncatchable then ⟨.uncatchable, msg, val, .uncatchable⟩ else ⟨type, msg, val, level⟩

/-- A variable of `define_exp`. -/
abbrev Var := ℕ

abbrev Vars := Var → Exc

/-- **Statements**; the index says whether a loop is around, for `break` and `continue`. -/
inductive Stmt : Bool → Type where
  /-- Anything else. -/
  | act {l : Bool} (a : ℕ) : Stmt l
  | seq {l : Bool} (s t : Stmt l) : Stmt l
  | cond {l : Bool} (c : Vars → Bool) (s t : Stmt l) : Stmt l
  /-- `THROW` at a level. -/
  | throw {l : Bool} (type : ExceptionType) (val : Word) (level : ExceptionLevel) (msg : List Byte) : Stmt l
  /-- `RETHROW(x)`. -/
  | rethrow {l : Bool} (x : Var) : Stmt l
  | brk : Stmt true
  | cont : Stmt true
  /-- `TRY(x) { body } FINALLY { fin } CATCH(x) { handler }`: the loop is around the body. -/
  | tryStmt {l : Bool} (x : Var) (body : Stmt true) (fin handler : Stmt l) : Stmt l

/-- What is noted of a run. -/
inductive Event where
  | act (a : ℕ)
  /-- A `TRY` is entered. -/
  | enter (i : ℕ)
  /-- An exception is given to a catcher. -/
  | deliver (i : ℕ) (e : Exc)
  /-- A catcher is popped. -/
  | pop (i : ℕ)
  /-- The body of a `FINALLY` begins. -/
  | finallyBody (i : ℕ)
  /-- The body of a `CATCH` begins. -/
  | catchBody (i : ℕ)
  deriving DecidableEq, Repr

/-! ### The machine -/

/-- A `TRY` that was entered. -/
structure Entered where
  id : ℕ
  x : Var
  body : Stmt true
  {loop : Bool}
  fin : Stmt loop
  handler : Stmt loop

/-- What is to be done. -/
inductive Code where
  | stmt {l : Bool} (s : Stmt l)
  /-- `while (exceptions_state_mc(CATCH_ITER_0))`. -/
  | loopTest (t : Entered)
  /-- `exceptions_state_mc(CATCH_FINALLY);`. -/
  | callFinally (t : Entered)
  /-- `{ fin }`. -/
  | finallyBody (t : Entered)
  /-- `if (e.type != EXP_NO_EXCEPTION)`. -/
  | test (t : Entered)

/-- `enum catcher_state`. -/
inductive CatcherState where
  | init | execBody | waitFinally | thrown
  deriving DecidableEq, Repr

/-- `enum catcher_action`. -/
inductive Action where
  | iter0 | finally | throw
  deriving DecidableEq, Repr

/-- `struct catcher_t`. -/
structure Catcher where
  /-- Its address. -/
  id : ℕ
  state : CatcherState
  currExp : Var
  /-- What was to be done at `setjmp`. -/
  buf : List Code

/-- The state of a program. -/
structure State where
  todo : List Code
  /-- `curr_catcher_p`, and its `prev`s. -/
  catchers : List Catcher
  vars : Vars
  /-- How many `TRY`s were entered. -/
  next : ℕ
  log : List Event

/-- How a program ends. -/
inductive Halt where
  | finished
  /-- "throw exception from outmost scope\n". -/
  | outmost (e : Exc)
  /-- `MC_FAULT`. -/
  | mcFault (state : CatcherState) (action : Action)
  /-- `assert(c != NULL)`. -/
  | noCatcher
  deriving DecidableEq, Repr

/-- `exceptions_state_mc(action)`: what it returns, the catchers, and the one it pops. -/
def exceptionsStateMc (action : Action) : List Catcher → Except Halt (Bool × List Catcher × List ℕ)
  | [] => .error .noCatcher
  | c :: cs =>
    match c.state, action with
    | .init, .iter0 => .ok (true, { c with state := .execBody } :: cs, [])
    | .execBody, .iter0 => .ok (false, { c with state := .waitFinally } :: cs, [])
    | .execBody, .throw => .ok (false, { c with state := .thrown } :: cs, [])
    | .execBody, .finally => .ok (true, cs, [c.id])
    | .waitFinally, .finally => .ok (true, cs, [c.id])
    | .thrown, .iter0 => .ok (false, { c with state := .waitFinally } :: cs, [])
    | state, action => .error (.mcFault state action)

/-- `break`: to behind the loop. -/
def breakTo : List Code → List Code
  | [] => []
  | .loopTest t :: k => .callFinally t :: k
  | _ :: k => breakTo k

/-- `continue`: to the test of the loop. -/
def contTo : List Code → List Code
  | [] => []
  | .loopTest t :: k => .loopTest t :: k
  | _ :: k => contTo k

/-- `__throw_exception`, with the exception it makes. -/
def State.throw (st : State) (e : Exc) : Except Halt State :=
  match st.catchers with
  | [] => .error (.outmost e)
  | c :: cs => do
    let (_, catchers, _) ← exceptionsStateMc .throw (c :: cs)
    .ok { st with todo := c.buf, catchers, vars := Function.update st.vars c.currExp e,
                  log := st.log ++ [.deliver c.id e] }

/-- A step; `k` is what is to be done after it. -/
def State.step (st : State) : Except Halt State :=
  match st.todo with
  | [] => .error .finished
  | .stmt (.act a) :: k => .ok { st with todo := k, log := st.log ++ [.act a] }
  | .stmt (.seq s t) :: k => .ok { st with todo := .stmt s :: .stmt t :: k }
  | .stmt (.cond c s t) :: k => .ok { st with todo := .stmt (if c st.vars then s else t) :: k }
  | .stmt (.throw type val level msg) :: _ => st.throw (makeExc type val level msg)
  | .stmt (.rethrow x) :: _ =>
    st.throw (makeExc (st.vars x).type (st.vars x).val (st.vars x).level (st.vars x).msg)
  | .stmt .brk :: k => .ok { st with todo := breakTo k }
  | .stmt .cont :: k => .ok { st with todo := contTo k }
  | .stmt (.tryStmt x body fin handler) :: k =>
    let t : Entered := ⟨st.next, x, body, fin, handler⟩
    .ok ⟨.loopTest t :: k, ⟨st.next, .init, x, .loopTest t :: k⟩ :: st.catchers,
      Function.update st.vars x Exc.none, st.next + 1, st.log ++ [.enter st.next]⟩
  | .loopTest t :: k => do
    let (again, catchers, _) ← exceptionsStateMc .iter0 st.catchers
    .ok { st with todo := if again then .stmt t.body :: .loopTest t :: k else .callFinally t :: k,
                  catchers }
  | .callFinally t :: k => do
    let (_, catchers, popped) ← exceptionsStateMc .finally st.catchers
    .ok { st with todo := .finallyBody t :: k, catchers, log := st.log ++ popped.map .pop }
  | .finallyBody t :: k =>
    .ok { st with todo := .stmt t.fin :: .test t :: k, log := st.log ++ [.finallyBody t.id] }
  | .test t :: k =>
    if (st.vars t.x).type ≠ .noException then
      .ok { st with todo := .stmt t.handler :: k, log := st.log ++ [.catchBody t.id] }
    else .ok { st with todo := k }

/-- The machine goes from one state to another. -/
def Steps : State → State → Prop := Relation.ReflTransGen fun a b => a.step = .ok b

/-- A program begins. -/
def start (s : Stmt false) (vars : Vars) : State := ⟨[.stmt s], [], vars, 0, []⟩

/-! ### What statements mean -/

/-- How a statement is left. -/
inductive Outcome where
  | normal | brk | cont
  | thrown (e : Exc)
  deriving DecidableEq, Repr

/-- The variable of a `TRY`, once its body was left. -/
def Outcome.caught (x : Var) (vars : Vars) : Outcome → Vars
  | .thrown e => Function.update vars x e
  | _ => vars

/-- The state statements work on. -/
structure Ref where
  vars : Vars
  next : ℕ
  log : List Event

/-- An exception goes to the nearest `TRY` whose body is running. -/
def Ref.throw (running : List ℕ) (e : Exc) (r : Ref) : Outcome × Ref :=
  match running with
  | [] => (.thrown e, r)
  | i :: _ => (.thrown e, { r with log := r.log ++ [.deliver i e] })

/-- **The meaning of a statement**; `running` are the `TRY`s whose bodies are running, the
nearest first. -/
def eval : {l : Bool} → Stmt l → List ℕ → Ref → Outcome × Ref
  | _, .act a, _, r => (.normal, { r with log := r.log ++ [.act a] })
  | _, .seq s t, running, r =>
    match eval s running r with
    | (.normal, r') => eval t running r'
    | abrupt => abrupt
  | _, .cond c s t, running, r => if c r.vars then eval s running r else eval t running r
  | _, .throw type val level msg, running, r => r.throw running (makeExc type val level msg)
  | _, .rethrow x, running, r =>
    r.throw running (makeExc (r.vars x).type (r.vars x).val (r.vars x).level (r.vars x).msg)
  | _, .brk, _, r => (.brk, r)
  | _, .cont, _, r => (.cont, r)
  | _, .tryStmt x body fin handler, running, r =>
    -- the body
    let i := r.next
    let (out, r₁) := eval body (i :: running)
      ⟨Function.update r.vars x Exc.none, i + 1, r.log ++ [.enter i]⟩
    -- what comes after it, however it was left
    match eval fin running ⟨out.caught x r₁.vars, r₁.next, r₁.log ++ [.pop i, .finallyBody i]⟩ with
    | (.normal, r₂) =>
      if (r₂.vars x).type ≠ .noException then
        eval handler running { r₂ with log := r₂.log ++ [.catchBody i] }
      else (.normal, r₂)
    | abrupt => abrupt

end Snitchaser.Host
