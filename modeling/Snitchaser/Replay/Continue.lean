import Snitchaser.Replay.ContSignal
import Mathlib.Logic.Relation

/-!
# Continuing

`SN_cont` of the gdbserver is how a replayed process runs on. It does not step through the
instructions between two branches. The interpreter in the target finds the next branch
(`scan_insts`), an `int3` is written there, and the process runs into it. Then the byte is
written back, and the branch itself is a single step.

## The model

* `Patchable` is a `Target` with its code in memory: the byte at an address, which can be
  written, and what `get_next_inst` says of the instruction there.
* The processor goes on from instruction to instruction until there is an `int3`, and stops
  behind it, or until a signal stops it before (`Interrupt`). A `rep` is one step for each time.
* `SN_cont` loops for as long as nothing stops it, so it has fuel; `len` is fuel for the
  way to a branch. Exceptions of types that the log does not throw are faults, with their
  texts.

## What is proved

`Block` is what has to be true of the code up to the next branch: it goes on from one
instruction to the one that `get_next_inst` says, or repeats it, and neither reads nor writes the
byte that is patched. If that holds wherever single steps come to, then

* `cont_by_steps`: what `SN_cont` does, single steps do, whatever signals stop the process: it leaves
  the log and the process where some number of them would, or fails where one of them fails, or gives
  up by itself.
* `cont_to_exit`: a recorded log is replayed up to the exit.
-/

namespace Snitchaser.Replay

open Foundation Interp Log Relation

/-- The byte of `int3`. -/
def int3 : Byte := 0xcc

/-- `SIGINT`. -/
def sigint : Word := 2

/-- `SIGTRAP`. -/
def sigtrap : Word := 5

/-- A signal that stops the process on its way to the `int3`, before the instruction that is `steps`
on. -/
structure Interrupt where
  steps : ℕ
  signal : Word

/-- A process with its code in memory. -/
structure Patchable (σ : Type) extends Target σ where
  /-- `get_next_inst`: the address of the instruction behind, or `NULL` for a branch. -/
  next : σ → Word → Option Word
  /-- `target_read_memory`, of a byte. -/
  peek : σ → Word → Byte
  /-- `target_write_memory`, of a byte. -/
  poke : σ → Word → Byte → σ
  /-- `ptrace_set_eip`. -/
  setEip : σ → Word → σ
  peek_poke : ∀ s a b, peek (poke s a b) a = b
  peek_poke_of_ne : ∀ s a b c, c ≠ a → peek (poke s a b) c = peek s c
  poke_poke : ∀ s a b c, poke (poke s a b) a c = poke s a c
  poke_peek : ∀ s a, poke s a (peek s a) = s
  eip_poke : ∀ s a b, (inst (poke s a b)).eip = (inst s).eip
  poke_setEip : ∀ s a b e, poke (setEip s e) a b = setEip (poke s a b) e
  setEip_setEip : ∀ s e e', setEip (setEip s e) e' = setEip s e'
  setEip_eip : ∀ s, setEip s (inst s).eip = s
  eip_setEip : ∀ s e, (inst (setEip s e)).eip = e
  /-- What `do_replay_is_branch_inst` reports of an `int3`. -/
  inst_int3 : ∀ s, peek s (inst s).eip = int3 → (inst s).isBranch = true ∧ (inst s).isInt3 = true ∧
    (inst s).isUd = false ∧ (inst s).isRdtsc = false ∧ (inst s).isInt80 = false ∧
    (inst s).isVdsoSyscall = false
  /-- The processor stops behind it. -/
  exec_int3 : ∀ s, peek s (inst s).eip = int3 → exec s .stepped = setEip s ((inst s).eip + 1)

section Model

variable {σ : Type}

/-- `scan_insts`. -/
def Patchable.scanInsts (t : Patchable σ) (s : σ) : ℕ → Word → Option Word
  | 0, _ => none
  | fuel + 1, addr =>
    match t.next s addr with
    | none => some addr
    | some addr' => t.scanInsts s fuel addr'

/-- `target_continue` and `my_waitid`: the process runs up to an `int3`, or until a signal stops it.
This is what it is stopped by. -/
def Patchable.runToTrap (t : Patchable σ) : ℕ → Option Interrupt → σ → Option (σ × Word)
  | 0, _, _ => none
  | _ + 1, some ⟨0, signal⟩, s => some (s, signal)
  | fuel + 1, some ⟨steps + 1, signal⟩, s =>
    if t.peek s (t.eip s) = int3 then some (t.setEip s (t.eip s + 1), sigtrap)
    else t.runToTrap fuel (some ⟨steps, signal⟩) (t.exec s .stepped)
  | fuel + 1, none, s =>
    if t.peek s (t.eip s) = int3 then some (t.setEip s (t.eip s + 1), sigtrap)
    else t.runToTrap fuel none (t.exec s .stepped)

/-- `SN_cont`; `interrupts` has the signal that stops the process in a round, by the rounds left. -/
def snCont (lzo : Lzo) (signals : Signals) (t : Patchable σ) (len : ℕ)
    (interrupts : ℕ → Option Interrupt) : ℕ → StepM σ Unit
  | 0 => throw (.fault .diverges)
  | fuel + 1 => do
    let ptr ← liftRead (readaheadLogPtr lzo)
    if isValidPtr ptr = false ∧ ptr ≠ syscallMark ∧ ptr ≠ 0xffffffff ∧ ptr ≠ rdtscMark then
      if ptr = signalMark then contToSignal lzo signals t.toTarget len
      else if ptr = signalMark2 then
        let s ← getTarget
        liftRead signals.setupSighandler
        setTarget (t.exec s .signal)
      else if ptr = sigreturnMark then
        let s ← getTarget
        liftRead signals.sighandlerReturn
        setTarget (t.exec s .signal)
      else throw (.fault (.fatal "read from log, next mark is 0x%x"))
    else
      let s ← getTarget
      match t.scanInsts s len (t.eip s) with
      | none => throw (.fault .diverges)
      | some branchStart =>
        if isValidPtr branchStart = false then
          throw (.fault (.fatal "interp report next branch at 0x%x"))
        else
          let oriInst := t.peek s branchStart
          match t.runToTrap len (interrupts fuel) (t.poke s branchStart int3) with
          | none => throw (.fault .diverges)
          | some (trapped, signal) =>
            -- unpatch code
            setTarget (t.poke trapped branchStart oriInst)
            if t.eip trapped ≠ branchStart + 1 then
              if signal = sigint then throw (.fault (.fatal "target signaled by SIGINT"))
              else
                let _ ← stepTarget lzo signals t.toTarget false
                snCont lzo signals t len interrupts fuel
            else
              setTarget (t.setEip (t.poke trapped branchStart oriInst) branchStart)
              if oriInst = int3 then
                -- the process goes on, into the `int3`
                setTarget (t.setEip (t.poke trapped branchStart oriInst) (branchStart + 1))
              else
                let contStop ← stepTarget lzo signals t.toTarget true
                if contStop then pure () else snCont lzo signals t len interrupts fuel

/-- **The code up to the next branch**, `n` instructions on. -/
structure Block (t : Patchable σ) (s : σ) (n : ℕ) : Prop where
  /-- It goes on as `get_next_inst` says, or repeats an instruction. -/
  falls : ∀ k < n, ∃ behind, t.next s (t.eip (t.walk s k)) = some behind ∧
    (t.eip (t.walk s (k + 1)) = behind ∨ t.eip (t.walk s (k + 1)) = t.eip (t.walk s k))
  ends : t.next s (t.eip (t.walk s n)) = none
  /-- No branch is reported before. -/
  plain : ∀ k < n, (t.inst (t.walk s k)).isBranch = false
  /-- Nor is the process where the `int3` leaves it. -/
  before : ∀ k < n, t.eip (t.walk s k) ≠ t.eip (t.walk s n) + 1
  /-- The branch's first byte is neither read nor written. -/
  untouched : ∀ k < n, ∀ b, t.exec (t.poke (t.walk s k) (t.eip (t.walk s n)) b) .stepped =
    t.poke (t.walk s (k + 1)) (t.eip (t.walk s n)) b

/-- A single step that returns. -/
def Stepped (lzo : Lzo) (signals : Signals) (t : Target σ) (st st' : Reader × σ) : Prop :=
  ∃ contStop stop, (stepTarget lzo signals t contStop).run st = .ok stop st'

/-- Some number of single steps. -/
def Reach (lzo : Lzo) (signals : Signals) (t : Target σ) : Reader × σ → Reader × σ → Prop :=
  ReflTransGen (Stepped lzo signals t)

/-- The faults that are `SN_cont`'s own: it does not end, it does not know the mark, it is told
of a branch that cannot be, the process is stopped by `SIGINT`, or its loop to a signal is beyond
the address. -/
def GivesUp (e : Halt) : Prop :=
  e = .fault .diverges ∨ e = .fault (.fatal "read from log, next mark is 0x%x") ∨
    e = .fault (.fatal "interp report next branch at 0x%x") ∨
    e = .fault (.fatal "target signaled by SIGINT") ∨
    e = .fault (.assertion "curr_eip <= marks.addr")

/-- The result of a call is one of single steps. -/
def BySteps (lzo : Lzo) (signals : Signals) (t : Target σ) (st : Reader × σ) :
    EStateM.Result Halt (Reader × σ) Unit → Prop
  | .ok _ st' => TransGen (Stepped lzo signals t) st st'
  | .error e st' => GivesUp e ∨ ∃ st₁ contStop, Reach lzo signals t st st₁ ∧
      (stepTarget lzo signals t contStop).run st₁ = .error e st'

end Model

/-! ### The patch -/

section Patch

variable {σ : Type} {t : Patchable σ} {s : σ} {n : ℕ}

theorem walk_succ (t : Target σ) (s : σ) (k : ℕ) : t.walk s (k + 1) = t.exec (t.walk s k) .stepped := by
  induction k generalizing s with
  | zero => rfl
  | succ k ih => exact ih (t.exec s .stepped)

theorem Block.eip_ne (h : Block t s n) {k : ℕ} (hk : k < n) :
    t.eip (t.walk s k) ≠ t.eip (t.walk s n) := by
  intro heq
  obtain ⟨behind, hsome, -⟩ := h.falls k hk
  rw [heq, h.ends] at hsome
  cases hsome

/-- The scan ends at the branch. -/
theorem Block.scanInsts_eq (h : Block t s n) {len : ℕ} (hlen : n < len) :
    t.scanInsts s len (t.eip s) = some (t.eip (t.walk s n)) := by
  have hfrom : ∀ m k fuel, k + m = n → m < fuel →
      t.scanInsts s fuel (t.eip (t.walk s k)) = some (t.eip (t.walk s n)) := by
    intro m
    induction m with
    | zero =>
      intro k fuel hk hfuel
      obtain ⟨fuel, rfl⟩ := Nat.exists_eq_succ_of_ne_zero (Nat.ne_zero_of_lt hfuel)
      obtain rfl : k = n := hk
      rw [Patchable.scanInsts, h.ends]
    | succ m ih =>
      intro k fuel hk hfuel
      obtain ⟨behind, hnext, hgoes | hstays⟩ := h.falls k (by omega)
      · obtain ⟨fuel, rfl⟩ := Nat.exists_eq_succ_of_ne_zero (Nat.ne_zero_of_lt hfuel)
        rw [Patchable.scanInsts, hnext]
        show t.scanInsts s fuel behind = _
        rw [← hgoes]
        exact ih (k + 1) fuel (by omega) (by omega)
      · rw [← hstays]
        exact ih (k + 1) fuel (by omega) (by omega)
  exact hfrom n 0 len (Nat.zero_add n) hlen

/-- It ends nowhere else. -/
theorem Block.eq_of_scanInsts (h : Block t s n) {len : ℕ} {addr : Word}
    (hscan : t.scanInsts s len (t.eip s) = some addr) : addr = t.eip (t.walk s n) := by
  have hfrom : ∀ m k fuel, k + m = n → t.scanInsts s fuel (t.eip (t.walk s k)) = some addr →
      addr = t.eip (t.walk s n) := by
    intro m
    induction m with
    | zero =>
      intro k fuel hk hscan
      obtain rfl : k = n := hk
      cases fuel with
      | zero => cases hscan
      | succ fuel =>
        rw [Patchable.scanInsts, h.ends] at hscan
        exact (Option.some.inj hscan).symm
    | succ m ih =>
      intro k fuel hk hscan
      obtain ⟨behind, hnext, hgoes | hstays⟩ := h.falls k (by omega)
      · cases fuel with
        | zero => cases hscan
        | succ fuel =>
          rw [Patchable.scanInsts, hnext] at hscan
          refine ih (k + 1) fuel (by omega) ?_
          rw [hgoes]
          exact hscan
      · rw [← hstays] at hscan
        exact ih (k + 1) fuel (by omega) hscan
  exact hfrom n 0 len (Nat.zero_add n) hscan

/-- The byte that is patched stays what it was. -/
theorem Block.peek_eq (h : Block t s n) {k : ℕ} (hk : k ≤ n) :
    t.peek (t.walk s k) (t.eip (t.walk s n)) = t.peek s (t.eip (t.walk s n)) := by
  induction k with
  | zero => rfl
  | succ k ih =>
    have hstep := h.untouched k hk (t.peek (t.walk s k) (t.eip (t.walk s n)))
    rw [t.poke_peek, ← walk_succ] at hstep
    rw [hstep, t.peek_poke, ih (Nat.le_of_succ_le hk)]

/-- How far the process comes: to the branch, or to where a signal stops it. -/
def comesTo (n : ℕ) : Option Interrupt → ℕ
  | none => n
  | some interrupt => min n interrupt.steps

/-- A signal stops the process up to the branch, or it comes later. -/
theorem stops_or_late (n : ℕ) (stop : Option Interrupt) :
    (∃ interrupt, stop = some interrupt ∧ interrupt.steps ≤ n) ∨ ∀ interrupt ∈ stop, n < interrupt.steps := by
  by_cases h : ∃ interrupt, stop = some interrupt ∧ interrupt.steps ≤ n
  · exact .inl h
  · exact .inr fun interrupt hmem => not_le.mp fun hle => h ⟨interrupt, hmem, hle⟩

theorem comesTo_of_late {stop : Option Interrupt} (h : ∀ interrupt ∈ stop, n < interrupt.steps) :
    comesTo n stop = n := by
  cases stop with
  | none => rfl
  | some interrupt => exact Nat.min_eq_left (h interrupt rfl).le

/-- What is left of the way to a signal. -/
def Interrupt.after (k : ℕ) (interrupt : Interrupt) : Interrupt :=
  ⟨interrupt.steps - k, interrupt.signal⟩

/-- **The process runs on with the patch**, and does what it would do without. -/
theorem Block.runToTrap_walk (h : Block t s n) (stop : Option Interrupt) {k : ℕ}
    (hk : k ≤ comesTo n stop) (fuel : ℕ) :
    t.runToTrap (fuel + k) stop (t.poke s (t.eip (t.walk s n)) int3) =
      t.runToTrap fuel (stop.map (Interrupt.after k)) (t.poke (t.walk s k) (t.eip (t.walk s n)) int3) := by
  induction k generalizing fuel with
  | zero =>
    cases stop <;> rfl
  | succ k ih =>
    have hkn : k < n := by
      cases stop with
      | none => exact hk
      | some interrupt => exact (Nat.le_min.mp hk).1
    have heip : t.eip (t.poke (t.walk s k) (t.eip (t.walk s n)) int3) = t.eip (t.walk s k) :=
      t.eip_poke ..
    -- an `int3` of the program's own would be a branch
    have hbyte : t.peek (t.walk s k) (t.eip (t.walk s k)) ≠ int3 := by
      intro hint3
      have hbranch := (t.inst_int3 _ hint3).1
      rw [h.plain k hkn] at hbranch
      cases hbranch
    rw [show fuel + (k + 1) = fuel + 1 + k by omega, ih (Nat.le_of_succ_le hk)]
    cases stop with
    | none =>
      rw [Option.map_none, Option.map_none, Patchable.runToTrap, heip,
        t.peek_poke_of_ne _ _ _ _ (h.eip_ne hkn), if_neg hbyte, h.untouched k hkn]
    | some interrupt =>
      have hsteps : interrupt.steps - k = interrupt.steps - (k + 1) + 1 := by
        have := (Nat.le_min.mp hk).2
        omega
      rw [Option.map_some, Option.map_some, Interrupt.after, hsteps, Patchable.runToTrap, heip,
        t.peek_poke_of_ne _ _ _ _ (h.eip_ne hkn), if_neg hbyte, h.untouched k hkn]
      rfl

/-- **It runs into the patch**, if no signal stops it before. -/
theorem Block.runToTrap_eq (h : Block t s n) {stop : Option Interrupt}
    (hstop : ∀ interrupt ∈ stop, n < interrupt.steps) {len : ℕ} (hlen : n < len) :
    t.runToTrap len stop (t.poke s (t.eip (t.walk s n)) int3) =
      some (t.setEip (t.poke (t.walk s n) (t.eip (t.walk s n)) int3) (t.eip (t.walk s n) + 1), sigtrap) := by
  have heip : t.eip (t.poke (t.walk s n) (t.eip (t.walk s n)) int3) = t.eip (t.walk s n) :=
    t.eip_poke ..
  obtain ⟨fuel, rfl⟩ : ∃ fuel, len = fuel + 1 + n := ⟨len - n - 1, by omega⟩
  cases stop with
  | none =>
    rw [h.runToTrap_walk none (le_refl n), Option.map_none, Patchable.runToTrap, heip, t.peek_poke, if_pos rfl]
  | some interrupt =>
    have hlt := hstop interrupt rfl
    have hsteps : interrupt.steps - n = interrupt.steps - (n + 1) + 1 := by omega
    rw [h.runToTrap_walk (some interrupt) (Nat.le_min.mpr ⟨le_rfl, hlt.le⟩), Option.map_some,
      Interrupt.after, hsteps, Patchable.runToTrap, heip, t.peek_poke, if_pos rfl]

/-- **A signal stops it** before. -/
theorem Block.runToTrap_interrupted (h : Block t s n) {interrupt : Interrupt} (hle : interrupt.steps ≤ n)
    {len : ℕ} (hlen : interrupt.steps < len) :
    t.runToTrap len (some interrupt) (t.poke s (t.eip (t.walk s n)) int3) =
      some (t.poke (t.walk s interrupt.steps) (t.eip (t.walk s n)) int3, interrupt.signal) := by
  obtain ⟨fuel, rfl⟩ : ∃ fuel, len = fuel + 1 + interrupt.steps := ⟨len - interrupt.steps - 1, by omega⟩
  rw [h.runToTrap_walk (some interrupt) (Nat.le_min.mpr ⟨hle, le_rfl⟩), Option.map_some,
    Interrupt.after, Nat.sub_self, Patchable.runToTrap]

/-- Without enough fuel neither happens. -/
theorem Block.runToTrap_none (h : Block t s n) {stop : Option Interrupt} {len : ℕ}
    (hlen : len ≤ comesTo n stop) :
    t.runToTrap len stop (t.poke s (t.eip (t.walk s n)) int3) = none := by
  have hwalk := h.runToTrap_walk stop hlen 0
  rw [Nat.zero_add] at hwalk
  rw [hwalk, Patchable.runToTrap]

/-- The byte is written back where a signal has stopped the process. -/
theorem Block.unpatch_interrupted (h : Block t s n) {k : ℕ} (hk : k ≤ n) :
    t.poke (t.poke (t.walk s k) (t.eip (t.walk s n)) int3) (t.eip (t.walk s n))
      (t.peek s (t.eip (t.walk s n))) = t.walk s k := by
  rw [t.poke_poke, ← h.peek_eq hk, t.poke_peek]

/-- **The byte is written back.** -/
theorem Block.unpatch (h : Block t s n) :
    t.poke (t.setEip (t.poke (t.walk s n) (t.eip (t.walk s n)) int3) (t.eip (t.walk s n) + 1))
        (t.eip (t.walk s n)) (t.peek s (t.eip (t.walk s n))) =
      t.setEip (t.walk s n) (t.eip (t.walk s n) + 1) := by
  rw [t.poke_setEip, t.poke_poke, ← h.peek_eq le_rfl, t.poke_peek]

theorem Block.setEip_back (t : Patchable σ) (s : σ) (e : Word) :
    t.setEip (t.setEip s e) (t.eip s) = s := by
  rw [t.setEip_setEip]
  exact t.setEip_eip s

end Patch

/-! ### Looking ahead twice -/

section Ahead

variable {lzo : Lzo} {r r' : Reader}

theorem readFromFile_error {n : ℕ} {e : Stop} (h : (readFromFile n).run r = .error e r') :
    r' = ⟨[], r.region⟩ := by
  change (if n ≤ r.file.length then _ else _) = _ at h
  split_ifs at h
  cases h
  rfl

theorem readFromFile_region {n : ℕ} {bytes : List Byte} (h : (readFromFile n).run r = .ok bytes r') :
    r'.region = r.region := by
  change (if n ≤ r.file.length then _ else _) = _ at h
  split_ifs at h
  cases h
  rfl

theorem readSize_error {e : Stop} (h : readSize.run r = .error e r') : r' = ⟨[], r.region⟩ := by
  obtain h | ⟨bytes, r₁, -, h⟩ := run_bind_eq_error h
  · exact readFromFile_error h
  · cases h

theorem readSize_region {n : ℕ} (h : readSize.run r = .ok n r') : r'.region = r.region := by
  obtain ⟨bytes, r₁, hread, h⟩ := run_bind_eq_ok h
  cases h
  exact readFromFile_region hread

/-- **At the end of the log** nothing is left, wherever in a region it comes. -/
theorem nextRegion_logEnd {msg : String} (h : (nextRegion lzo).run r = .error (.throw .logEnd msg) r') :
    r' = ⟨[], []⟩ := by
  obtain h | ⟨_, r₀, hset, h⟩ := run_bind_eq_error h
  · cases h
  cases hset
  obtain h | ⟨mark, r₁, hmark, h⟩ := run_bind_eq_error h
  · exact readFromFile_error h
  have h₁ : r₁.region = [] := readFromFile_region hmark
  split_ifs at h with hcomp huncomp
  · obtain h | ⟨realSz, r₂, hreal, h⟩ := run_bind_eq_error h
    · rw [readSize_error h, h₁]
    have h₂ := (readSize_region hreal).trans h₁
    obtain h | ⟨compressedSz, r₃, hsize, h⟩ := run_bind_eq_error h
    · rw [readSize_error h, h₂]
    have h₃ := (readSize_region hsize).trans h₂
    obtain h | ⟨compressed, r₄, -, h⟩ := run_bind_eq_error h
    · rw [readFromFile_error h, h₃]
    · split_ifs at h <;> cases h
  · obtain h | ⟨size, r₂, hsize, h⟩ := run_bind_eq_error h
    · rw [readSize_error h, h₁]
    have h₂ := (readSize_region hsize).trans h₁
    obtain h | ⟨data, r₃, -, h⟩ := run_bind_eq_error h
    · rw [readFromFile_error h, h₂]
    · cases h
  · cases h

theorem readaheadLog_some {n : ℕ} {bytes : List Byte}
    (h : (readaheadLog lzo n).run r = .ok (some bytes) r') : n ≤ r'.region.length := by
  have hrun : (readaheadLog lzo n).run r = readaheadLog lzo n r := rfl
  rw [hrun] at h
  unfold readaheadLog at h
  split_ifs at h with hle hne
  · cases h
    exact hle
  · split at h
    · cases h
    · cases h
    · split_ifs at h with hlt
      cases h
      exact not_lt.mp hlt

/-- Inside a region a look ahead leaves the reader as it is. -/
theorem readaheadLog_of_region {n : ℕ} {found : Option (List Byte)} (hne : r.region ≠ [])
    (h : (readaheadLog lzo n).run r = .ok found r') : r' = r := by
  have hrun : (readaheadLog lzo n).run r = readaheadLog lzo n r := rfl
  rw [hrun] at h
  unfold readaheadLog at h
  split_ifs at h with hle
  cases h
  rfl

/-- **What was looked at once** is looked at again, and nothing changes. -/
theorem readaheadLog_again {n : ℕ} (hn : 0 < n) {found : Option (List Byte)}
    (h : (readaheadLog lzo n).run r = .ok found r') : (readaheadLog lzo n).run r' = .ok found r' := by
  have hrun : ∀ r : Reader, (readaheadLog lzo n).run r = readaheadLog lzo n r := fun _ => rfl
  rw [hrun] at h ⊢
  unfold readaheadLog at h
  split_ifs at h with hle hne
  · cases h
    exact if_pos hle
  · split at h
    · rename_i msg r₁ hnext
      cases h
      rw [nextRegion_logEnd hnext]
      exact run_readaheadLog_end lzo hn
    · cases h
    · rename_i r₁ hnext
      split_ifs at h with hlt
      cases h
      exact if_pos (not_lt.mp hlt)

theorem readaheadLogPtr_again {ptr : Word} (h : (readaheadLogPtr lzo).run r = .ok ptr r') :
    (readaheadLogPtr lzo).run r' = .ok ptr r' := by
  obtain ⟨found, r₁, hlook, hptr⟩ := run_bind_eq_ok h
  have hr' : r' = r₁ := by
    cases found <;> cases hptr <;> rfl
  subst hr'
  unfold readaheadLogPtr
  rw [run_bind_ok (readaheadLog_again (by decide) hlook)]
  cases found <;> exact hptr

/-- A word that is ahead is in the region. -/
theorem region_of_readaheadLogPtr {ptr : Word} (h : (readaheadLogPtr lzo).run r = .ok ptr r')
    (hptr : ptr ≠ 0xffffffff) : r'.region ≠ [] := by
  obtain ⟨found, r₁, hlook, h⟩ := run_bind_eq_ok h
  cases found with
  | none =>
    cases h
    exact absurd rfl hptr
  | some bytes =>
    cases h
    have hlen := readaheadLog_some hlook
    rintro hnil
    rw [hnil] at hlen
    exact absurd hlen (by decide)

end Ahead

/-! ### Single steps -/

section Steps

variable {σ : Type} {lzo : Lzo} {signals : Signals} {t : Target σ} {r r₁ : Reader} {s : σ} {ptr : Word}
  {contStop : Bool} {res : EStateM.Result Halt (Reader × σ) Unit}

/-- A look ahead before a step makes no difference to it. -/
theorem stepTarget_readahead (h : (readaheadLogPtr lzo).run r = .ok ptr r₁) :
    (stepTarget lzo signals t contStop).run (r, s) = (stepTarget lzo signals t contStop).run (r₁, s) := by
  unfold stepTarget
  rw [run_bind_ok (run_getTarget r s), run_bind_ok (run_getTarget r₁ s),
    run_bind_ok (run_liftRead_ok h), run_bind_ok (run_liftRead_ok (readaheadLogPtr_again h))]

/-- No mark of a signal is ahead. -/
def NoSignal (ptr : Word) : Prop := ptr ≠ signalMark ∧ ptr ≠ signalMark2 ∧ ptr ≠ sigreturnMark

theorem stepTarget_noSignal (h : (readaheadLogPtr lzo).run r = .ok ptr r₁) (hptr : NoSignal ptr) :
    (stepTarget lzo signals t contStop).run (r, s) = (execTarget lzo signals t contStop).run (r₁, s) := by
  unfold stepTarget
  rw [run_bind_ok (run_getTarget r s), run_bind_ok (run_liftRead_ok h), if_neg hptr.1,
    if_neg hptr.2.1, if_neg hptr.2.2]

/-- An instruction that takes nothing from the log. -/
theorem execTarget_stepped (h : stepInst lzo signals (t.inst s) = pure .stepped) :
    (execTarget lzo signals t contStop).run (r, s) = .ok false (r, t.exec s .stepped) := by
  have hstep : (stepInst lzo signals (t.inst s)).run r = .ok .stepped r := by
    rw [h]
    rfl
  unfold execTarget
  rw [run_bind_ok (run_getTarget r s), run_bind_ok (run_liftRead_ok hstep)]
  rfl

theorem stepInst_int3 {inst : Inst} (hbranch : inst.isBranch = true) (hint3 : inst.isInt3 = true)
    (hrdtsc : inst.isRdtsc = false) (h80 : inst.isInt80 = false) (hvdso : inst.isVdsoSyscall = false) :
    stepInst lzo signals inst = pure .stepped := by
  simp [stepInst, ptraceSingleStep, hbranch, hint3, hrdtsc, h80, hvdso]

/-- What steps do after a look ahead, they do without it. -/
theorem BySteps.ahead (h : (readaheadLogPtr lzo).run r = .ok ptr r₁)
    (hres : BySteps lzo signals t (r₁, s) res) : BySteps lzo signals t (r, s) res := by
  have hhead : ∀ st', Stepped lzo signals t (r₁, s) st' → Stepped lzo signals t (r, s) st' := by
    rintro st' ⟨c, stop, hstep⟩
    exact ⟨c, stop, (stepTarget_readahead h).trans hstep⟩
  cases res with
  | ok _ st' =>
    obtain ⟨st₁, hstep, hrest⟩ := TransGen.head'_iff.mp hres
    exact TransGen.head' (hhead st₁ hstep) hrest
  | error e st' =>
    obtain hgives | ⟨st₁, c, hreach, herr⟩ := hres
    · exact .inl hgives
    · obtain heq | ⟨st₂, hstep, hrest⟩ := ReflTransGen.cases_head hreach
      · subst heq
        exact .inr ⟨(r, s), c, .refl, (stepTarget_readahead h).trans herr⟩
      · exact .inr ⟨st₁, c, .head (hhead st₂ hstep) hrest, herr⟩

theorem BySteps.after {st st₁ : Reader × σ} (h : Reach lzo signals t st st₁)
    (hres : BySteps lzo signals t st₁ res) : BySteps lzo signals t st res := by
  cases res with
  | ok _ st' => exact TransGen.trans_right h hres
  | error e st' =>
    obtain hgives | ⟨st₂, c, hreach, herr⟩ := hres
    · exact .inl hgives
    · exact .inr ⟨st₂, c, h.trans hreach, herr⟩

/-- A step, and what is done if it returns. -/
theorem bySteps_bind {st : Reader × σ} {f : Bool → StepM σ Unit}
    (hrest : ∀ stop st', (stepTarget lzo signals t contStop).run st = .ok stop st' →
      BySteps lzo signals t st ((f stop).run st')) :
    BySteps lzo signals t st ((stepTarget lzo signals t contStop >>= f).run st) := by
  cases hstep : (stepTarget lzo signals t contStop).run st with
  | ok stop st' =>
    rw [run_bind_ok hstep]
    exact hrest stop st' hstep
  | error e st' =>
    rw [run_bind_error hstep]
    exact .inr ⟨st, contStop, .refl, hstep⟩

/-- `cont_to_signal` is made of steps. -/
theorem contLoop_bySteps (addr : Word) (fuel : ℕ) (st : Reader × σ) :
    BySteps lzo signals t st ((contLoop lzo signals t addr fuel).run st) := by
  induction fuel generalizing st with
  | zero => exact .inl (.inl rfl)
  | succ fuel ih =>
    obtain ⟨r, s⟩ := st
    rw [contLoop, run_bind_ok (run_getTarget r s)]
    split_ifs with hle hne
    · refine bySteps_bind fun stop st' hstep => ?_
      have hone : Stepped lzo signals t (r, s) st' := ⟨true, stop, hstep⟩
      cases stop with
      | true => exact TransGen.single hone
      | false => exact (ih st').after (.single hone)
    · exact bySteps_bind fun stop st' hstep => TransGen.single ⟨false, stop, hstep⟩
    · exact .inl (.inr (.inr (.inr (.inr rfl))))

theorem run_liftRead_error {α : Type} {x : ReadM α} {e : Stop} {r' : Reader} (h : x.run r = .error e r') :
    (liftRead x : StepM σ α).run (r, s) = .error (.stop e) (r', s) := by
  unfold EStateM.run liftRead
  simp only [h]

theorem contToSignal_bySteps {len : ℕ} (h : (readaheadLogPtr lzo).run r = .ok signalMark r) :
    BySteps lzo signals t (r, s) ((contToSignal lzo signals t len).run (r, s)) := by
  unfold contToSignal
  rw [run_bind_ok (run_liftRead_ok h), if_pos rfl]
  cases hmarks : (readaheadLog lzo 16).run r with
  | ok marks r₂ =>
    have hsame := readaheadLog_of_region (region_of_readaheadLogPtr h (by decide)) hmarks
    subst hsame
    rw [run_bind_ok (run_liftRead_ok hmarks)]
    exact contLoop_bySteps _ len _
  | error e r₂ =>
    rw [run_bind_error (run_liftRead_error hmarks)]
    refine .inr ⟨(r, s), true, .refl, ?_⟩
    unfold stepTarget
    rw [run_bind_ok (run_getTarget r s), run_bind_ok (run_liftRead_ok h), if_pos rfl,
      run_bind_error (run_liftRead_error hmarks)]

/-- The two marks that move the process at once. -/
theorem move_bySteps {move : ReadM Unit}
    (h : (stepTarget lzo signals t true).run (r, s) = (do
      liftRead move
      setTarget (t.exec s .signal)
      return true : StepM σ Bool).run (r, s)) :
    BySteps lzo signals t (r, s) ((do
      let s ← getTarget
      liftRead move
      setTarget (t.exec s .signal) : StepM σ Unit).run (r, s)) := by
  rw [run_bind_ok (run_getTarget r s)]
  cases hmove : move.run r with
  | ok _ r₂ =>
    rw [run_bind_ok (run_liftRead_ok hmove)] at h ⊢
    exact TransGen.single ⟨true, true, h⟩
  | error e r₂ =>
    rw [run_bind_error (run_liftRead_error hmove)] at h ⊢
    exact .inr ⟨(r, s), true, .refl, h⟩

/-- Plain instructions are stepped over. -/
theorem reach_walk (h : (readaheadLogPtr lzo).run r = .ok ptr r) (hptr : NoSignal ptr) {n : ℕ}
    (hplain : ∀ k < n, (t.inst (t.walk s k)).isBranch = false) :
    Reach lzo signals t (r, s) (r, t.walk s n) := by
  induction n with
  | zero => exact .refl
  | succ n ih =>
    have hkind : Event.unlogged.Kind (t.inst (t.walk s n)) := by
      refine .inl ?_
      rw [hplain n (Nat.lt_succ_self n)]
      exact Bool.false_ne_true
    refine (ih fun k hk => hplain k (Nat.lt_succ_of_lt hk)).tail ⟨true, false, ?_⟩
    rw [stepTarget_noSignal h hptr, execTarget_stepped (stepInst_unlogged signals hkind), walk_succ]

end Steps

/-! ### One round -/

section Round

variable {σ : Type} {lzo : Lzo} {signals : Signals} {t : Patchable σ} {r : Reader} {s : σ} {ptr : Word}
  {len n : ℕ} {interrupts : ℕ → Option Interrupt}

theorem noSignal_of_passes
    (h : ¬ (isValidPtr ptr = false ∧ ptr ≠ syscallMark ∧ ptr ≠ 0xffffffff ∧ ptr ≠ rdtscMark)) :
    NoSignal ptr := by
  refine ⟨?_, ?_, ?_⟩ <;> rintro rfl <;> exact h (by decide)

/-- A look ahead before a round makes no difference to it. -/
theorem snCont_readahead {r₁ : Reader} (h : (readaheadLogPtr lzo).run r = .ok ptr r₁) (fuel : ℕ) :
    (snCont lzo signals t len interrupts (fuel + 1)).run (r, s) =
      (snCont lzo signals t len interrupts (fuel + 1)).run (r₁, s) := by
  rw [snCont, run_bind_ok (run_liftRead_ok h), run_bind_ok (run_liftRead_ok (readaheadLogPtr_again h))]

/-- A round, up to where the process stops. -/
theorem snCont_trapped (h : (readaheadLogPtr lzo).run r = .ok ptr r)
    (hptr : ¬ (isValidPtr ptr = false ∧ ptr ≠ syscallMark ∧ ptr ≠ 0xffffffff ∧ ptr ≠ rdtscMark))
    {branchStart : Word} (hscan : t.scanInsts s len (t.eip s) = some branchStart)
    (hvalid : isValidPtr branchStart = true) {fuel : ℕ} {trapped : σ} {signal : Word}
    (htrap : t.runToTrap len (interrupts fuel) (t.poke s branchStart int3) = some (trapped, signal)) :
    (snCont lzo signals t len interrupts (fuel + 1)).run (r, s) = (do
      setTarget (t.poke trapped branchStart (t.peek s branchStart))
      if t.eip trapped ≠ branchStart + 1 then
        if signal = sigint then throw (.fault (.fatal "target signaled by SIGINT"))
        else
          let _ ← stepTarget lzo signals t.toTarget false
          snCont lzo signals t len interrupts fuel
      else
        setTarget (t.setEip (t.poke trapped branchStart (t.peek s branchStart)) branchStart)
        if t.peek s branchStart = int3 then
          setTarget (t.setEip (t.poke trapped branchStart (t.peek s branchStart)) (branchStart + 1))
        else
          let contStop ← stepTarget lzo signals t.toTarget true
          if contStop then pure () else snCont lzo signals t len interrupts fuel :
            StepM σ Unit).run (r, s) := by
  have hinvalid : ¬ isValidPtr branchStart = false := by
    rw [hvalid]
    exact Bool.true_eq_false.mp
  rw [snCont, run_bind_ok (run_liftRead_ok h), if_neg hptr, run_bind_ok (run_getTarget r s), hscan]
  dsimp only
  rw [if_neg hinvalid, htrap]

/-- **A round**: the process comes to the branch, and nothing is left of the patch. -/
theorem snCont_round (h : (readaheadLogPtr lzo).run r = .ok ptr r)
    (hptr : ¬ (isValidPtr ptr = false ∧ ptr ≠ syscallMark ∧ ptr ≠ 0xffffffff ∧ ptr ≠ rdtscMark))
    (hblock : Block t s n) (hlen : n < len) (hvalid : isValidPtr (t.eip (t.walk s n)) = true) {fuel : ℕ}
    (hstop : ∀ interrupt ∈ interrupts fuel, n < interrupt.steps) :
    (snCont lzo signals t len interrupts (fuel + 1)).run (r, s) =
      if t.peek (t.walk s n) (t.eip (t.walk s n)) = int3 then
        .ok () (r, t.exec (t.walk s n) .stepped)
      else (do
        let contStop ← stepTarget lzo signals t.toTarget true
        if contStop then pure () else snCont lzo signals t len interrupts fuel : StepM σ Unit).run
          (r, t.walk s n) := by
  have heip : ∀ s' e, t.eip (t.setEip s' e) = e := t.eip_setEip
  rw [snCont_trapped h hptr (hblock.scanInsts_eq hlen) hvalid (hblock.runToTrap_eq hstop hlen),
    heip, if_neg (not_not.mpr rfl), hblock.unpatch, hblock.peek_eq le_rfl]
  split_ifs with hint3
  · have hbyte : t.peek (t.walk s n) (t.inst (t.walk s n)).eip = int3 := (hblock.peek_eq le_rfl).trans hint3
    rw [t.exec_int3 _ hbyte, t.setEip_setEip _ _ (t.eip (t.walk s n) + 1)]
    rfl
  · rw [Block.setEip_back]
    rfl

/-- **A round in which a signal stops the process**: it is where it would be without the patch. -/
theorem snCont_interrupted (h : (readaheadLogPtr lzo).run r = .ok ptr r)
    (hptr : ¬ (isValidPtr ptr = false ∧ ptr ≠ syscallMark ∧ ptr ≠ 0xffffffff ∧ ptr ≠ rdtscMark))
    (hblock : Block t s n) (hscan : t.scanInsts s len (t.eip s) = some (t.eip (t.walk s n)))
    (hvalid : isValidPtr (t.eip (t.walk s n)) = true) {fuel : ℕ} {interrupt : Interrupt}
    (hstop : interrupts fuel = some interrupt) (hle : interrupt.steps ≤ n) (hlen : interrupt.steps < len) :
    (snCont lzo signals t len interrupts (fuel + 1)).run (r, s) =
      (if interrupt.signal = sigint then throw (.fault (.fatal "target signaled by SIGINT"))
        else do
          let _ ← stepTarget lzo signals t.toTarget false
          snCont lzo signals t len interrupts fuel : StepM σ Unit).run (r, t.walk s interrupt.steps) := by
  have htrap := hblock.runToTrap_interrupted hle hlen
  rw [← hstop] at htrap
  have heip : t.eip (t.poke (t.walk s interrupt.steps) (t.eip (t.walk s n)) int3) =
      t.eip (t.walk s interrupt.steps) := t.eip_poke ..
  have hne : t.eip (t.walk s interrupt.steps) ≠ t.eip (t.walk s n) + 1 := by
    rcases Nat.lt_or_eq_of_le hle with hlt | heq
    · exact hblock.before _ hlt
    · rw [heq]
      intro hsame
      exact absurd (left_eq_add.mp hsame) (by decide)
  rw [snCont_trapped h hptr hscan hvalid htrap, heip, if_pos hne, hblock.unpatch_interrupted hle]
  rfl

/-- A signal is next: one step takes it, or steps lead up to it. -/
theorem snCont_signal_bySteps (h : (readaheadLogPtr lzo).run r = .ok ptr r)
    (hptr : isValidPtr ptr = false ∧ ptr ≠ syscallMark ∧ ptr ≠ 0xffffffff ∧ ptr ≠ rdtscMark)
    (fuel : ℕ) :
    BySteps lzo signals t.toTarget (r, s) ((snCont lzo signals t len interrupts (fuel + 1)).run (r, s)) := by
  rw [snCont, run_bind_ok (run_liftRead_ok h), if_pos hptr]
  split_ifs with h₁ h₂ h₃
  · subst h₁
    exact contToSignal_bySteps h
  · subst h₂
    refine move_bySteps ?_
    unfold stepTarget
    rw [run_bind_ok (run_getTarget r s), run_bind_ok (run_liftRead_ok h), if_neg h₁, if_pos rfl]
  · subst h₃
    refine move_bySteps ?_
    unfold stepTarget
    rw [run_bind_ok (run_getTarget r s), run_bind_ok (run_liftRead_ok h), if_neg h₁, if_neg h₂,
      if_pos rfl]
  · exact .inl (.inr (.inl rfl))

/-- **A round that gives up**: no branch is found, or the process does not come to it. -/
theorem snCont_lost_bySteps (h : (readaheadLogPtr lzo).run r = .ok ptr r)
    (hptr : ¬ (isValidPtr ptr = false ∧ ptr ≠ syscallMark ∧ ptr ≠ 0xffffffff ∧ ptr ≠ rdtscMark)) {fuel : ℕ}
    (hlost : ∀ branchStart, t.scanInsts s len (t.eip s) = some branchStart → isValidPtr branchStart = true →
      t.runToTrap len (interrupts fuel) (t.poke s branchStart int3) = none) :
    BySteps lzo signals t.toTarget (r, s) ((snCont lzo signals t len interrupts (fuel + 1)).run (r, s)) := by
  rw [snCont, run_bind_ok (run_liftRead_ok h), if_neg hptr, run_bind_ok (run_getTarget r s)]
  cases hscan : t.scanInsts s len (t.eip s) with
  | none => exact .inl (.inl rfl)
  | some branchStart =>
    dsimp only
    by_cases hvalid : isValidPtr branchStart = false
    · rw [if_pos hvalid]
      exact .inl (.inr (.inr (.inl rfl)))
    · rw [if_neg hvalid, hlost branchStart hscan (Bool.eq_true_of_not_eq_false hvalid)]
      exact .inl (.inl rfl)

/-- The step from where the process has come to, and the rest of the call. -/
theorem step_rest_bySteps {st : Reader × σ} (hreach : Reach lzo signals t.toTarget (r, s) st) {fuel : ℕ}
    (hrest : ∀ st', TransGen (Stepped lzo signals t.toTarget) (r, s) st' →
      BySteps lzo signals t.toTarget st' ((snCont lzo signals t len interrupts fuel).run st'))
    (contStop : Bool) {f : Bool → StepM σ Unit}
    (hf : ∀ stop, f stop = pure () ∨ f stop = snCont lzo signals t len interrupts fuel) :
    BySteps lzo signals t.toTarget (r, s) ((stepTarget lzo signals t.toTarget contStop >>= f).run st) := by
  refine BySteps.after hreach (bySteps_bind fun stop st' hrun => ?_)
  have hone : Stepped lzo signals t.toTarget st st' := ⟨contStop, stop, hrun⟩
  rcases hf stop with hdone | hagain
  · rw [hdone]
    exact TransGen.single hone
  · rw [hagain]
    exact (hrest st' (TransGen.tail' hreach hone)).after (.single hone)

/-- No signal is next in the log: steps lead to the branch and over it, or to where a signal stops
the process, and from there the rest of the call is as steps. -/
theorem snCont_block_bySteps (h : (readaheadLogPtr lzo).run r = .ok ptr r)
    (hptr : ¬ (isValidPtr ptr = false ∧ ptr ≠ syscallMark ∧ ptr ≠ 0xffffffff ∧ ptr ≠ rdtscMark))
    (hblock : Block t s n) {fuel : ℕ}
    (hrest : ∀ st', TransGen (Stepped lzo signals t.toTarget) (r, s) st' →
      BySteps lzo signals t.toTarget st' ((snCont lzo signals t len interrupts fuel).run st')) :
    BySteps lzo signals t.toTarget (r, s) ((snCont lzo signals t len interrupts (fuel + 1)).run (r, s)) := by
  have hno := noSignal_of_passes hptr
  have hwalk : ∀ k ≤ n, Reach lzo signals t.toTarget (r, s) (r, t.walk s k) := fun k hk =>
    reach_walk h hno fun j hj => hblock.plain j (hj.trans_le hk)
  by_cases hfound : t.scanInsts s len (t.eip s) = some (t.eip (t.walk s n)) ∧
      isValidPtr (t.eip (t.walk s n)) = true ∧ comesTo n (interrupts fuel) < len
  swap
  · refine snCont_lost_bySteps h hptr fun branchStart hscan hvalid => ?_
    obtain rfl := hblock.eq_of_scanInsts hscan
    exact hblock.runToTrap_none (not_lt.mp fun hlen => hfound ⟨hscan, hvalid, hlen⟩)
  obtain ⟨hscan, hvalid, hlen⟩ := hfound
  rcases stops_or_late n (interrupts fuel) with ⟨interrupt, hstop, hle⟩ | hlate
  · rw [hstop, comesTo, Nat.min_eq_right hle] at hlen
    rw [snCont_interrupted h hptr hblock hscan hvalid hstop hle hlen]
    split_ifs with hint
    · exact .inl (.inr (.inr (.inr (.inl rfl))))
    · exact step_rest_bySteps (hwalk _ hle) hrest false fun _ => .inr rfl
  · rw [comesTo_of_late hlate] at hlen
    rw [snCont_round h hptr hblock hlen hvalid hlate]
    split_ifs with hint3
    · -- the step at an `int3` of the program
      obtain ⟨hbranch, hint, -, hrdtsc, h80, hvdso⟩ := t.inst_int3 _ hint3
      refine TransGen.tail' (hwalk n le_rfl) ⟨true, false, ?_⟩
      rw [stepTarget_noSignal h hno]
      exact execTarget_stepped (stepInst_int3 hbranch hint hrdtsc h80 hvdso)
    · refine step_rest_bySteps (hwalk n le_rfl) hrest true fun stop => ?_
      cases stop with
      | true => exact .inl rfl
      | false => exact .inr rfl

end Round

/-- **What `SN_cont` does, single steps do**, whatever the log holds and whatever signals stop the
process. If the code up to the next branch is as it should be wherever single steps come to, then a
call that returns leaves log and process where some steps would, at least one; one that fails does
so as a step at a place that steps come to, or it is `SN_cont` that gives up. -/
theorem cont_by_steps {σ : Type} (lzo : Lzo) (signals : Signals) (t : Patchable σ) (len fuel : ℕ)
    (interrupts : ℕ → Option Interrupt) {st : Reader × σ}
    (hblocks : ∀ st', Reach lzo signals t.toTarget st st' → ∃ n, Block t st'.2 n) :
    BySteps lzo signals t.toTarget st ((snCont lzo signals t len interrupts fuel).run st) := by
  induction fuel generalizing st with
  | zero => exact .inl (.inl rfl)
  | succ fuel ih =>
    obtain ⟨r, s⟩ := st
    cases hlook : (readaheadLogPtr lzo).run r with
    | error e r₁ =>
      rw [snCont, run_bind_error (run_liftRead_error hlook)]
      refine .inr ⟨(r, s), true, .refl, ?_⟩
      unfold stepTarget
      rw [run_bind_ok (run_getTarget r s), run_bind_error (run_liftRead_error hlook)]
    | ok ptr r₁ =>
      have hagain := readaheadLogPtr_again hlook
      rw [snCont_readahead hlook]
      refine BySteps.ahead hlook ?_
      by_cases hptr : isValidPtr ptr = false ∧ ptr ≠ syscallMark ∧ ptr ≠ 0xffffffff ∧ ptr ≠ rdtscMark
      · exact snCont_signal_bySteps hagain hptr fuel
      · obtain ⟨n, hblock⟩ := hblocks (r, s) .refl
        refine snCont_block_bySteps hagain hptr hblock fun st' hst' => ih fun st₂ hst₂ => hblocks st₂ ?_
        -- the look at the log before the round is that of its first step
        have hto : BySteps lzo signals t.toTarget (r₁, s) (.ok () st') := hst'
        have hto : TransGen (Stepped lzo signals t.toTarget) (r, s) st' := hto.ahead hlook
        exact hto.to_reflTransGen.trans hst₂

/-- A small machine: the registers are an `eip`, and memory holds the code. -/
structure Small where
  eip : Word
  mem : Word → Byte

/-- Only a `nop` at an even address is no branch. -/
def Small.isNop (s : Small) (addr : Word) : Bool := s.mem addr == 0x90 && !addr.getLsbD 0

/-- Its code: a branch or a system call, `0xcd`, and before it a `nop` or not. -/
def small : Patchable Small where
  inst s := ⟨s.eip, !s.isNop s.eip, s.mem s.eip == int3, false, false, s.mem s.eip == 0xcd, false, []⟩
  exec s out := match out with
    | .branched eip => ⟨eip, s.mem⟩
    | _ => ⟨s.eip + 1, s.mem⟩
  next s addr := if s.isNop addr then some (addr + 1) else none
  peek s addr := s.mem addr
  poke s addr b := ⟨s.eip, Function.update s.mem addr b⟩
  setEip s eip := ⟨eip, s.mem⟩
  peek_poke s a b := Function.update_self a b s.mem
  peek_poke_of_ne s a b c hne := Function.update_of_ne hne b s.mem
  poke_poke s a b c := congrArg (Small.mk s.eip) (Function.update_idem ..)
  poke_peek s a := congrArg (Small.mk s.eip) (Function.update_eq_self a s.mem)
  eip_poke _ _ _ := rfl
  poke_setEip _ _ _ _ := rfl
  setEip_setEip _ _ _ := rfl
  setEip_eip _ := rfl
  eip_setEip _ _ := rfl
  inst_int3 s h := by
    have hmem : s.mem s.eip = int3 := h
    simp [Small.isNop, hmem, int3]
  exec_int3 _ _ := rfl

/-- The branch is here or behind a `nop`. -/
theorem small_block (s : Small) : Block small s (if s.isNop s.eip then 1 else 0) := by
  cases hnop : s.isNop s.eip with
  | false =>
    exact ⟨fun _ hk => absurd hk (Nat.not_lt_zero _),
      if_neg fun h => Bool.false_ne_true (hnop.symm.trans h),
      fun _ hk => absurd hk (Nat.not_lt_zero _), fun _ hk => absurd hk (Nat.not_lt_zero _),
      fun _ hk => absurd hk (Nat.not_lt_zero _)⟩
  | true =>
    have hodd : s.isNop (s.eip + 1) = false := by
      have heven : s.eip.getLsbD 0 = false := by
        have h := hnop
        simp only [Small.isNop, Bool.and_eq_true, Bool.not_eq_true'] at h
        exact h.2
      have hlow : (s.eip + 1).getLsbD 0 = true := by
        rw [BitVec.getLsbD_add (by decide), heven, BitVec.carry_zero]
        rfl
      rw [Small.isNop, hlow, Bool.not_true, Bool.and_false]
    refine ⟨fun k hk => ?_, if_neg ?_, fun k hk => ?_, fun k hk => ?_, fun k hk b => ?_⟩
    · obtain rfl : k = 0 := Nat.lt_one_iff.mp hk
      exact ⟨s.eip + 1, if_pos hnop, .inl rfl⟩
    · show ¬ s.isNop (s.eip + 1) = true
      rw [hodd]
      exact Bool.false_ne_true
    · obtain rfl : k = 0 := Nat.lt_one_iff.mp hk
      show (!s.isNop s.eip) = false
      rw [hnop]
      rfl
    · obtain rfl : k = 0 := Nat.lt_one_iff.mp hk
      show s.eip ≠ s.eip + 1 + 1
      rw [BitVec.add_assoc]
      exact fun heq => absurd (left_eq_add.mp heq) (by decide)
    · obtain rfl : k = 0 := Nat.lt_one_iff.mp hk
      rfl

/-- A `nop`, a branch over some bytes, and an `int3`. -/
def trapCode : Word → Byte := fun addr =>
  if addr = 0x8048000 then 0x90 else if addr = 0x8048010 then int3 else 0xc3

/-- The target of a branch is next in the log, and another one behind it. -/
def branchAhead : Reader := ⟨[], leBytes 0x8048010 ++ leBytes 0x8048020⟩

/-- `SIGALRM` stops the process in the first round. -/
def alarmFirst (rounds : ℕ) : Option Interrupt := if rounds = 4 then some ⟨1, 14⟩ else none

/-- The branch is patched and stepped over, and then the `int3` that is the program's own. -/
theorem cont_by_steps_small :
    ∃ st, (snCont endMarked noSignals small 10 alarmFirst 5).run (branchAhead, ⟨0x8048000, trapCode⟩) =
        .ok () st ∧ st.2.eip = 0x8048011 ∧
      TransGen (Stepped endMarked noSignals small.toTarget) (branchAhead, ⟨0x8048000, trapCode⟩) st := by
  have hblocks : ∀ st', Reach endMarked noSignals small.toTarget (branchAhead, ⟨0x8048000, trapCode⟩) st' →
      ∃ n, Block small st'.2 n := fun st' _ => ⟨_, small_block st'.2⟩
  have hsteps := cont_by_steps endMarked noSignals small 10 5 alarmFirst hblocks
  have heip : EStateM.run' (do
      snCont endMarked noSignals small 10 alarmFirst 5
      let s ← getTarget
      return s.eip) (branchAhead, ⟨0x8048000, trapCode⟩) = some 0x8048011 := by
    decide +kernel
  unfold EStateM.run' at heip
  cases hrun : (snCont endMarked noSignals small 10 alarmFirst 5).run
      (branchAhead, ⟨0x8048000, trapCode⟩) with
  | error e st =>
    rw [run_bind_error hrun] at heip
    cases heip
  | ok _ st =>
    rw [run_bind_ok hrun] at heip
    rw [hrun] at hsteps
    exact ⟨st, rfl, Option.some.inj heip, hsteps⟩

/-! ### Up to the exit -/

/-- The next branch is not too far, and at an address that can be one. -/
def Ready {σ : Type} (t : Patchable σ) (len : ℕ) (s : σ) : Prop :=
  ∃ n < len, Block t s n ∧ isValidPtr (t.eip (t.walk s n)) = true

/-- **The process follows the events**, from `s` up to a system call in `s'`: what is recorded of
an event is all that a step needs to know. -/
def Follows {σ : Type} (t : Patchable σ) (len : ℕ) : List Event → σ → σ → Prop
  | [], s, s' => Ready t len s ∧ (t.inst s).isSyscall ∧ s = s'
  | event :: events, s, s' => Ready t len s ∧ event.Kind (t.inst s) ∧
      ∀ out, event.Yields out → Follows t len events (t.exec s out) s'

section Exit

variable {σ : Type} {lzo : Lzo} (signals : Signals) {t : Patchable σ} {len : ℕ} {nr : Word}
  {interrupts : ℕ → Option Interrupt}

theorem Follows.ready {events : List Event} {s s' : σ} (h : Follows t len events s s') :
    Ready t len s := by
  cases events with
  | nil => exact h.1
  | cons event events => exact h.1

/-- What comes first in a log of events lets `SN_cont` go on. -/
theorem passing_events {events : List Event}
    (hvalid : ∀ target, Event.branch target ∈ events → isValidPtr target = true) (nr : Word) :
    ∃ word rest pieces, events.flatMap Event.pieces ++ prePieces nr = (leBytes word ++ rest) :: pieces ∧
      ¬ (isValidPtr word = false ∧ word ≠ syscallMark ∧ word ≠ 0xffffffff ∧ word ≠ rdtscMark) := by
  induction events with
  | nil => exact ⟨syscallMark, [], [leBytes nr], rfl, fun h => h.2.1 rfl⟩
  | cons event events ih =>
    rw [List.flatMap_cons, List.append_assoc]
    cases event with
    | branch target =>
      refine ⟨target, [], _, rfl, fun h => ?_⟩
      rw [hvalid target List.mem_cons_self] at h
      exact absurd h.1 (by decide)
    | rdtsc eax edx => exact ⟨rdtscMark, _, _, rfl, fun h => h.2.2.2 rfl⟩
    | syscall nr' regs data => exact ⟨syscallMark, [], _, rfl, fun h => h.2.1 rfl⟩
    | unlogged => exact ih fun target h => hvalid target (List.mem_cons_of_mem _ h)

/-- Instructions that are no branches are events that log nothing. -/
theorem Follows.walk {events : List Event} {s s' : σ} {n : ℕ} (h : Follows t len events s s')
    (hplain : ∀ k < n, (t.inst (t.walk s k)).isBranch = false) :
    ∃ events', events = List.replicate n .unlogged ++ events' ∧
      Follows t len events' (t.walk s n) s' := by
  induction n generalizing events s with
  | zero => exact ⟨events, rfl, h⟩
  | succ n ih =>
    have hzero : (t.inst s).isBranch = false := hplain 0 n.succ_pos
    cases events with
    | nil =>
      have hbranch := h.2.1.1
      rw [hzero] at hbranch
      cases hbranch
    | cons event events =>
      obtain ⟨-, hkind, hrest⟩ := h
      cases event with
      | unlogged =>
        obtain ⟨events', rfl, h'⟩ := ih (hrest .stepped trivial)
          fun k hk => hplain (k + 1) (Nat.succ_lt_succ hk)
        exact ⟨events', rfl, h'⟩
      | branch target =>
        have hbranch := hkind.1
        rw [hzero] at hbranch
        cases hbranch
      | rdtsc eax edx =>
        have hbranch := hkind.1
        rw [hzero] at hbranch
        cases hbranch
      | syscall nr' regs data =>
        have hbranch := hkind.1.1
        rw [hzero] at hbranch
        cases hbranch

/-- An `int3` is of no event's kind. -/
theorem not_int3_of_kind {event : Event} {s : σ} (hkind : event.Kind (t.inst s)) :
    t.peek s (t.eip s) ≠ int3 := by
  intro hint3
  obtain ⟨hbranch, hint, hud, hrdtsc, h80, hvdso⟩ := t.inst_int3 s hint3
  cases event with
  | branch target => exact hkind.2.2.2.2.1 hint
  | rdtsc eax edx =>
    have h := hkind.2.2.2
    rw [hrdtsc] at h
    cases h
  | syscall nr' regs data =>
    obtain h | h := hkind.1.2
    · rw [h80] at h
      cases h
    · rw [hvdso] at h
      cases h
  | unlogged =>
    obtain h | h := hkind
    · exact h hbranch
    · have hud' := h.2.2.2
      rw [hud] at hud'
      cases hud'

theorem not_int3_of_isSyscall {s : σ} (h : (t.inst s).isSyscall) : t.peek s (t.eip s) ≠ int3 := by
  intro hint3
  obtain ⟨-, -, -, -, h80, hvdso⟩ := t.inst_int3 s hint3
  obtain ⟨-, h | h⟩ := h
  · rw [h80] at h
    cases h
  · rw [hvdso] at h
    cases h

/-- A single step at an event. -/
theorem execTarget_event (contStop : Bool) {event : Event} {r : Reader} {s : σ}
    {pieces : List (List Byte)}
    (hkind : event.Kind (t.inst s)) (hne : ∀ piece ∈ event.pieces, piece ≠ [])
    (h : r.At lzo (event.pieces ++ pieces)) :
    ∃ out r', (execTarget lzo signals t.toTarget contStop).run (r, s) = .ok false (r', t.exec s out) ∧
      event.Yields out ∧ r'.At lzo pieces := by
  obtain ⟨out, r', hrun, hout, h'⟩ := stepInst_event signals hkind hne h
  refine ⟨out, r', ?_, hout, h'⟩
  unfold execTarget
  rw [run_bind_ok (run_getTarget r s), run_bind_ok (run_liftRead_ok hrun)]
  cases out with
  | signal => cases event <;> cases hout
  | _ => rfl

/-- A single step at the exit. -/
theorem execTarget_exit (contStop : Bool) {r : Reader} {s : σ} {ptr : Word} (hsys : (t.inst s).isSyscall)
    (hlook : (readaheadLogPtr lzo).run r = .ok ptr r) (hno : NoSignal ptr) (h : r.At lzo (prePieces nr)) :
    (execTarget lzo signals t.toTarget contStop).run (r, s) =
      .error (.stop (.throw .logEnd "log is end after syscall mark %d")) (⟨[], []⟩, s) := by
  have hexit := snSingleStep_exit signals hsys h
  unfold snSingleStep at hexit
  rw [run_bind_ok hlook, if_neg hno.1, if_neg hno.2.1, if_neg hno.2.2] at hexit
  unfold execTarget
  rw [run_bind_ok (run_getTarget r s), run_bind_error (run_liftRead_error hexit)]

theorem Follows.not_int3 {events : List Event} {s s' : σ} (h : Follows t len events s s') :
    t.peek s (t.eip s) ≠ int3 := by
  cases events with
  | nil => exact not_int3_of_isSyscall h.2.1
  | cons event events => exact not_int3_of_kind h.2.1

/-- **A round is some plain instructions and a step**, whether or not a signal stops the process. -/
theorem snCont_step {r : Reader} {s : σ} {ptr : Word} {n fuel : ℕ}
    (h : (readaheadLogPtr lzo).run r = .ok ptr r)
    (hptr : ¬ (isValidPtr ptr = false ∧ ptr ≠ syscallMark ∧ ptr ≠ 0xffffffff ∧ ptr ≠ rdtscMark))
    (hblock : Block t s n) (hlen : n < len) (hvalid : isValidPtr (t.eip (t.walk s n)) = true)
    (hbyte : t.peek (t.walk s n) (t.eip (t.walk s n)) ≠ int3)
    (hint : ∀ interrupt ∈ interrupts fuel, interrupt.signal ≠ sigint) :
    ∃ k ≤ n, ∃ contStop, ∃ f : Bool → StepM σ Unit,
      f false = snCont lzo signals t len interrupts fuel ∧
      (snCont lzo signals t len interrupts (fuel + 1)).run (r, s) =
        (stepTarget lzo signals t.toTarget contStop >>= f).run (r, t.walk s k) := by
  rcases stops_or_late n (interrupts fuel) with ⟨interrupt, hsome, hle⟩ | hlate
  · refine ⟨interrupt.steps, hle, false, fun _ => snCont lzo signals t len interrupts fuel, rfl, ?_⟩
    rw [snCont_interrupted h hptr hblock (hblock.scanInsts_eq hlen) hvalid hsome hle (by omega),
      if_neg (hint interrupt hsome)]
  · refine ⟨n, le_rfl, true,
      fun contStop => if contStop then pure () else snCont lzo signals t len interrupts fuel, rfl, ?_⟩
    rw [snCont_round h hptr hblock hlen hvalid hlate, if_neg hbyte]

/-- Plain instructions have no part in the log. -/
theorem flatMap_pieces_unlogged (k : ℕ) : (List.replicate k Event.unlogged).flatMap Event.pieces = [] := by
  rw [List.flatMap_eq_nil_iff]
  intro event hevent
  rw [List.eq_of_mem_replicate hevent]
  rfl

/-- **Round after round**, to the end of the log. -/
theorem snCont_events {events : List Event} {r : Reader} {s s' : σ} {fuel : ℕ}
    (hvalid : ∀ target, Event.branch target ∈ events → isValidPtr target = true)
    (hne : ∀ piece ∈ events.flatMap Event.pieces, piece ≠ []) (hfollows : Follows t len events s s')
    (hint : ∀ round, ∀ interrupt ∈ interrupts round, interrupt.signal ≠ sigint)
    (h : r.At lzo (events.flatMap Event.pieces ++ prePieces nr)) (hfuel : events.length < fuel) :
    (snCont lzo signals t len interrupts fuel).run (r, s) =
      .error (.stop (.throw .logEnd "log is end after syscall mark %d")) (⟨[], []⟩, s') := by
  induction fuel generalizing events r s with
  | zero => exact absurd hfuel (Nat.not_lt_zero _)
  | succ fuel ih =>
    obtain ⟨n, hlen, hblock, heip⟩ := hfollows.ready
    obtain ⟨word, rest, pieces, hpieces, hpasses⟩ := passing_events hvalid nr
    have hat := h
    rw [hpieces] at hat
    obtain ⟨r₁, hlook, h₁⟩ := readaheadLogPtr_at hat
    have hagain := readaheadLogPtr_again hlook
    have hno := noSignal_of_passes hpasses
    obtain ⟨_, _, hbranch⟩ := hfollows.walk hblock.plain
    obtain ⟨k, hk, contStop, f, hf, hround⟩ := snCont_step signals hagain hpasses hblock hlen heip
      hbranch.not_int3 (hint fuel)
    obtain ⟨events', rfl, hfollows'⟩ := hfollows.walk fun j hj => hblock.plain j (hj.trans_le hk)
    rw [← hpieces, List.flatMap_append, flatMap_pieces_unlogged, List.nil_append] at h₁
    rw [List.flatMap_append, flatMap_pieces_unlogged, List.nil_append] at hne
    rw [List.length_append, List.length_replicate] at hfuel
    rw [snCont_readahead hlook, hround]
    cases events' with
    | nil =>
      obtain ⟨-, hsys, rfl⟩ := hfollows'
      rw [run_bind_error]
      rw [stepTarget_noSignal hagain hno]
      exact execTarget_exit signals contStop hsys hagain hno h₁
    | cons event events' =>
      obtain ⟨-, hkind, hrest⟩ := hfollows'
      rw [List.flatMap_cons, List.append_assoc] at h₁
      rw [List.flatMap_cons] at hne
      obtain ⟨out, r₂, hrun, hout, h₂⟩ := execTarget_event signals contStop hkind
        (fun piece hp => hne piece (List.mem_append_left _ hp)) h₁
      rw [run_bind_ok ((stepTarget_noSignal hagain hno).trans hrun), hf]
      refine ih (fun target ht => hvalid target ?_) (fun piece hp => hne piece ?_) (hrest out hout) h₂ ?_
      · exact List.mem_append_right _ (List.mem_cons_of_mem _ ht)
      · exact List.mem_append_right _ hp
      · rw [List.length_cons] at hfuel
        omega

end Exit

/-- **A recorded log is replayed to its end** by `SN_cont`: whatever events were recorded without
a signal, a process that follows them up to the exit in `s'` comes to be `s'`, and there the log
ends; there are no more rounds than events. Signals may stop it on the way, but for `SIGINT`. -/
theorem cont_to_exit {σ : Type} (lzo : Lzo) (signals : Signals) (start : Pages logPagesNr)
    {events : List Event} (hvalid : ∀ target, Event.branch target ∈ events → isValidPtr target = true)
    {nr : Word} {l l' : Logger} (hrecord : record lzo (initLogger start) events = .ok l)
    (hexit : recordExit lzo l nr = .ok l') {t : Patchable σ} {s s' : σ} {len fuel : ℕ}
    (hfollows : Follows t len (ownEvents events) s s') (hfuel : (ownEvents events).length < fuel)
    {interrupts : ℕ → Option Interrupt}
    (hint : ∀ round, ∀ interrupt ∈ interrupts round, interrupt.signal ≠ sigint) :
    (snCont lzo signals t len interrupts fuel).run (openLog l'.file, s) =
      .error (.stop (.throw .logEnd "log is end after syscall mark %d")) (⟨[], []⟩, s') := by
  have hrec := record_recorded hrecord
  exact snCont_events signals (fun target ht => hvalid target (mem_of_mem_ownEvents ht)) hrec.nonempty
    hfollows hint (recordExit_at hrec hexit) hfuel

/-- A `nop`, a branch over some bytes, and a system call. -/
def smallCode : Word → Byte := fun addr =>
  if addr = 0x8048000 then 0x90 else if addr = 0x8048010 then 0xcd else 0xc3

/-- What is recorded of it. -/
def smallEvents : List Event := [.unlogged, .branch 0x8048010]

theorem cont_to_exit_small :
    ∃ l l', record endMarked (initLogger ⟨0x10000, by decide⟩) smallEvents = .ok l ∧
      recordExit endMarked l 1 = .ok l' ∧
      (snCont endMarked noSignals small 10 alarmFirst 5).run (openLog l'.file, ⟨0x8048000, smallCode⟩) =
        .error (.stop (.throw .logEnd "log is end after syscall mark %d"))
          (⟨[], []⟩, ⟨0x8048010, smallCode⟩) := by
  obtain ⟨⟨l, l'⟩, hrun, -⟩ := exists_ok (b := 24)
    (x := (do
      let l ← record endMarked (initLogger ⟨0x10000, by decide⟩) smallEvents
      let l' ← recordExit endMarked l 1
      return (l, l')))
    (fun p => p.2.file.length) (by decide +kernel)
  obtain ⟨_, hrecord, hrun⟩ := bind_eq_ok.mp hrun
  obtain ⟨_, hexit, hrun⟩ := bind_eq_ok.mp hrun
  cases hrun
  have hvalid : ∀ target, Event.branch target ∈ smallEvents → isValidPtr target = true := by
    intro target h
    obtain h | h := List.mem_cons.mp h
    · cases h
    · cases List.mem_singleton.mp h
      decide
  have hfollows : Follows small 10 smallEvents ⟨0x8048000, smallCode⟩ ⟨0x8048010, smallCode⟩ := by
    refine ⟨⟨1, by decide, small_block _, by decide⟩, .inl (by decide), fun out hout => ?_⟩
    cases out with
    | stepped =>
      refine ⟨⟨0, by decide, small_block _, by decide⟩,
        by simp [Event.Kind, small, Small.isNop, smallCode, int3], fun out hout => ?_⟩
      cases out with
      | branched eip =>
        obtain rfl : eip = 0x8048010 := hout
        exact ⟨⟨0, by decide, small_block _, by decide⟩, ⟨rfl, .inl rfl⟩, rfl⟩
      | _ => cases hout
    | _ => cases hout
  have hint : ∀ round, ∀ interrupt ∈ alarmFirst round, interrupt.signal ≠ sigint := by
    intro round interrupt h
    unfold alarmFirst at h
    split_ifs at h
    · cases h
      decide
    · cases h
  exact ⟨l, l', hrecord, hexit, cont_to_exit endMarked noSignals ⟨0x10000, by decide⟩ hvalid hrecord
    hexit hfollows (by decide) hint⟩

end Snitchaser.Replay
