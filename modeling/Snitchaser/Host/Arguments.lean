import Snitchaser.Common.Defs
import Snitchaser.Foundation.Terminated

/-!
# The arguments of the recorded program

`build_argp` of `main.c` takes the arguments, the environment and the name of the executable
from the top of the recorded stack, where `execve` has left them: strings one after the other,
and zeros behind the last one. Where the first and the last argument start was recorded; the
environment goes on to the first empty string, and its last string is the name.

## The model

The area is the list of its bytes from `vargp_start` on, and a pointer is an offset into it.
`strlen` of a string that does not end in the area is a fault. Both loops are `scanStrings`
with the test of the loop; they take fuel, and as many rounds as there are bytes are enough.

## What is proved

`argp_parsed_iff`: arguments, environment and name are found as they were laid down, **if and
only if** no string of the environment is empty. Arguments may be.
-/

namespace Snitchaser.Host

open Foundation Foundation.Terminated

/-- `strlen`. -/
def strlen (area : List Byte) (ptr : ℕ) : Except Fault ℕ :=
  match readAt 0 area ptr with
  | none => .error .segfault
  | some s => .ok s.length

/-- A loop of `build_argp`: the strings from `ptr` on while the test says so, and where it ends. -/
def scanStrings (area : List Byte) (test : ℕ → Except Fault Bool) : ℕ → ℕ → Except Fault (List ℕ × ℕ)
  | 0, _ => .error .diverges
  | fuel + 1, ptr => do
    if ← test ptr then
      let len ← strlen area ptr
      let rest ← scanStrings area test fuel (ptr + len + 1)
      .ok (ptr :: rest.1, rest.2)
    else .ok ([], ptr)

/-- `(void*)ptr <= vargp_last`. -/
def upTo (last ptr : ℕ) : Except Fault Bool := .ok (decide (ptr ≤ last))

/-- `*ptr != '\0'`. -/
def notNul (area : List Byte) (ptr : ℕ) : Except Fault Bool :=
  match area[ptr]? with
  | none => .error .segfault
  | some b => .ok (decide (b ≠ 0))

/-- What `build_argp` gives back. -/
structure Argp where
  /-- `*pargs`, up to the `NULL`. -/
  args : List ℕ
  /-- `*penvs`, up to the `NULL`. -/
  envs : List ℕ
  /-- `*exec_fn`. -/
  execFn : ℕ
  /-- `*exec_fn_2`: the second argument, or `NULL`. -/
  execFn2 : Option ℕ
  deriving DecidableEq

/-- What `build_argp` makes of the pointers it has found: the last slot of `envs` is the name. -/
def splitExecFn (args envs : List ℕ) : Except Fault Argp :=
  match envs.getLast? with
  | none => .error (.assertion "envs != NULL")
  | some execFn => do
    assert (1 ≤ args.length) "nr_args >= 1"
    .ok ⟨args, envs.dropLast, execFn, args[1]?⟩

/-- `build_argp(vargp_start, vargp_last, ..)`. -/
def buildArgp (area : List Byte) (last : ℕ) : Except Fault Argp := do
  let args ← scanStrings area (upTo last) (area.length + 1) 0
  let envs ← scanStrings area (notNul area) (area.length + 1) args.2
  splitExecFn args.1 envs.1

/-! ### What `execve` lays down -/

/-- Arguments, environment and name. -/
structure ArgArea where
  args : List (List Byte)
  envs : List (List Byte)
  execFn : List Byte
  args_ne_nil : args ≠ []
  execFn_ne_nil : execFn ≠ []
  /-- Strings do not contain their terminator. -/
  nulFree : ∀ s ∈ args ++ (envs ++ [execFn]), 0 ∉ s

namespace ArgArea

variable (a : ArgArea) (rest : List Byte)

/-- The bytes from the first argument on: the strings, a zero, and anything behind it. -/
def bytes : List Byte := lay 0 (a.args ++ (a.envs ++ [a.execFn])) ++ 0 :: rest

/-- Where the last argument starts. -/
def last : ℕ := (lay 0 a.args.dropLast).length

/-- **What was found is what was laid down.** -/
structure ParsedBack (r : Argp) : Prop where
  args : r.args.map (readAt 0 (a.bytes rest)) = a.args.map some
  envs : r.envs.map (readAt 0 (a.bytes rest)) = a.envs.map some
  execFn : readAt 0 (a.bytes rest) r.execFn = some a.execFn

end ArgArea

/-! ### The loops -/

section Scan

variable {area tail : List Byte} {strings : List (List Byte)} {p : ℕ}

theorem strlen_of_lay_cons {s : List Byte} (h : area.drop p = lay 0 (s :: strings) ++ tail)
    (hs : 0 ∉ s) : strlen area p = .ok s.length := by
  unfold strlen
  rw [readAt_of_lay_cons 0 h hs]

/-- **A loop finds the strings** if its test holds where they start, and not behind the last. -/
theorem scanStrings_lay {test : ℕ → Except Fault Bool} (h : area.drop p = lay 0 strings ++ tail)
    (hs : ∀ s ∈ strings, 0 ∉ s) (hgo : ∀ q ∈ starts p strings, test q = .ok true)
    (hstop : test (p + (lay 0 strings).length) = .ok false) {fuel : ℕ} (hfuel : strings.length < fuel) :
    scanStrings area test fuel p = .ok (starts p strings, p + (lay 0 strings).length) := by
  induction strings generalizing p fuel with
  | nil =>
    obtain ⟨n, rfl⟩ := Nat.exists_eq_succ_of_ne_zero (Nat.ne_zero_of_lt hfuel)
    exact bind_eq_ok.mpr ⟨false, hstop, rfl⟩
  | cons s strings ih =>
    obtain ⟨n, rfl⟩ := Nat.exists_eq_succ_of_ne_zero (Nat.ne_zero_of_lt hfuel)
    obtain ⟨hfirst, hrest⟩ := List.forall_mem_cons.mp hs
    obtain ⟨hgo₁, hgo⟩ := List.forall_mem_cons.mp hgo
    have hlen : p + s.length + 1 + (lay 0 strings).length = p + (lay 0 (s :: strings)).length := by
      rw [lay_cons, List.length_append, List.length_cons]
      omega
    have hscan := ih (drop_of_lay_cons 0 h) hrest hgo (hlen ▸ hstop) (Nat.lt_of_succ_lt_succ hfuel)
    rw [hlen] at hscan
    refine bind_eq_ok.mpr ⟨true, hgo₁, ?_⟩
    rw [if_pos rfl]
    exact bind_eq_ok.mpr ⟨_, strlen_of_lay_cons h hfirst, bind_eq_ok.mpr ⟨_, hscan, rfl⟩⟩

/-- The first loop goes to the last argument. -/
theorem scanStrings_upTo (h : area.drop p = lay 0 strings ++ tail) (hne : strings ≠ [])
    (hs : ∀ s ∈ strings, 0 ∉ s) {fuel : ℕ} (hfuel : strings.length < fuel) :
    scanStrings area (upTo (p + (lay 0 strings.dropLast).length)) fuel p =
      .ok (starts p strings, p + (lay 0 strings).length) := by
  refine scanStrings_lay h hs (fun q hq => ?_) ?_ hfuel
  · exact congrArg Except.ok (decide_eq_true (le_of_mem_starts 0 hq))
  · refine congrArg Except.ok (decide_eq_false ?_)
    have := length_lay_dropLast_lt (0 : Byte) hne
    omega

/-- The second loop goes to the first empty string. -/
theorem scanStrings_notNul (h : area.drop p = lay 0 strings ++ 0 :: tail)
    (hs : ∀ s ∈ strings, 0 ∉ s) (hne : ∀ s ∈ strings, s ≠ []) {fuel : ℕ}
    (hfuel : strings.length < fuel) :
    scanStrings area (notNul area) fuel p = .ok (starts p strings, p + (lay 0 strings).length) := by
  refine scanStrings_lay h hs (fun q hq => ?_) ?_ hfuel
  · obtain ⟨s, hmem, rest, hdrop⟩ := exists_drop_of_mem_starts 0 h hq
    obtain ⟨b, s', rfl⟩ := List.exists_cons_of_ne_nil (hne s hmem)
    have hb : b ≠ 0 := fun hb => hs _ hmem (hb ▸ List.mem_cons_self)
    unfold notNul
    rw [← List.head?_drop, hdrop]
    exact congrArg Except.ok (decide_eq_true hb)
  · unfold notNul
    rw [← List.head?_drop, ← List.drop_drop, h, List.drop_left]
    rfl

end Scan

/-! ### The whole function -/

namespace ArgArea

variable (a : ArgArea) (rest : List Byte)

/-- The arguments come first. -/
theorem drop_zero : (a.bytes rest).drop 0 = lay 0 a.args ++ (lay 0 (a.envs ++ [a.execFn]) ++ 0 :: rest) := by
  rw [List.drop_zero, bytes, lay_append, List.append_assoc]

/-- Environment and name come behind them. -/
theorem drop_args : (a.bytes rest).drop (lay 0 a.args).length =
    lay 0 (a.envs ++ [a.execFn]) ++ 0 :: rest := by
  have h := a.drop_zero rest
  rw [List.drop_zero] at h
  rw [h, List.drop_left]

/-- What is found when the second loop comes to its end behind `strings`. -/
theorem buildArgp_eq {strings : List (List Byte)} {tail : List Byte}
    (h : (a.bytes rest).drop (lay 0 a.args).length = lay 0 strings ++ 0 :: tail)
    (hs : ∀ s ∈ strings, 0 ∉ s) (hne : ∀ s ∈ strings, s ≠ []) :
    buildArgp (a.bytes rest) a.last =
      splitExecFn (starts 0 a.args) (starts (lay 0 a.args).length strings) := by
  have hfree : ∀ s ∈ a.args, 0 ∉ s := fun s hmem => a.nulFree s (List.mem_append_left _ hmem)
  -- the area is long enough for all strings
  have hlen : (a.bytes rest).length = (lay 0 a.args).length + (lay 0 strings ++ 0 :: tail).length := by
    rw [← h, drop_args, ← List.length_append, ← drop_zero, List.drop_zero]
  have hargs_le := length_le_length_lay (0 : Byte) a.args
  have hstrings_le := length_le_length_lay (0 : Byte) strings
  rw [List.length_append] at hlen
  have hargs := scanStrings_upTo (a.drop_zero rest) a.args_ne_nil hfree (by omega : _ < (a.bytes rest).length + 1)
  have henvs := scanStrings_notNul h hs hne (by omega : _ < (a.bytes rest).length + 1)
  rw [Nat.zero_add, Nat.zero_add] at hargs
  unfold buildArgp last
  rw [hargs]
  show (scanStrings _ _ _ _ >>= _) = _
  rw [henvs]
  rfl

/-- The name is the last string, the environment the ones before it. -/
theorem splitExecFn_starts {strings : List (List Byte)} {s : List Byte} {p : ℕ} :
    splitExecFn (starts 0 a.args) (starts p (strings ++ [s])) =
      .ok ⟨starts 0 a.args, starts p strings, p + (lay 0 strings).length, (starts 0 a.args)[1]?⟩ := by
  have hone : 1 ≤ (starts 0 a.args).length := by
    rw [length_starts]
    exact List.length_pos_of_ne_nil a.args_ne_nil
  unfold splitExecFn
  rw [starts_append]
  simp only [starts, List.getLast?_concat, List.dropLast_concat]
  rw [assert_of_true hone]
  rfl

/-- **Arguments, environment and name are found as they were laid down, if and only if** no
string of the environment is empty. -/
theorem argp_parsed_iff :
    (∃ r, buildArgp (a.bytes rest) a.last = .ok r ∧ a.ParsedBack rest r) ↔ ∀ s ∈ a.envs, s ≠ [] := by
  have hfree : ∀ s ∈ a.envs ++ [a.execFn], 0 ∉ s := fun s hmem =>
    a.nulFree s (List.mem_append_right _ hmem)
  constructor
  · rintro ⟨r, hr, hback⟩ s hmem rfl
    -- the second loop ends at the first empty string
    obtain ⟨front, back, henvs, hfront⟩ := List.eq_append_cons_of_mem hmem
    have hdrop : (a.bytes rest).drop (lay 0 a.args).length =
        lay 0 front ++ 0 :: (lay 0 (back ++ [a.execFn]) ++ 0 :: rest) := by
      rw [drop_args, henvs, List.append_assoc, lay_append, List.cons_append, lay_cons, List.append_assoc]
      rfl
    have hin : ∀ t ∈ front, t ∈ a.envs ++ [a.execFn] := fun t ht => by
      rw [henvs]
      exact List.mem_append_left _ (List.mem_append_left _ ht)
    rw [a.buildArgp_eq rest hdrop (fun t ht => hfree t (hin t ht)) fun t ht hnil => hfront (hnil ▸ ht)] at hr
    rcases List.eq_nil_or_concat' front with rfl | ⟨front', t, rfl⟩
    · cases hr
    · rw [a.splitExecFn_starts] at hr
      cases hr
      have hcount := congrArg List.length hback.envs
      rw [List.length_map, length_starts, List.length_map, henvs] at hcount
      simp only [List.length_append, List.length_cons] at hcount
      omega
  · intro hne
    have hne' : ∀ s ∈ a.envs ++ [a.execFn], s ≠ [] := by
      intro s hmem
      rcases List.mem_append.mp hmem with hmem | hmem
      · exact hne s hmem
      · exact (List.mem_singleton.mp hmem) ▸ a.execFn_ne_nil
    have hread := map_readAt_starts 0 (a.drop_args rest) hfree
    rw [starts_append 0, List.map_append, List.map_append] at hread
    obtain ⟨henvs, hname⟩ := List.append_inj' hread rfl
    refine ⟨_, (a.buildArgp_eq rest (a.drop_args rest) hfree hne').trans (a.splitExecFn_starts), ?_, henvs, ?_⟩
    · exact map_readAt_starts 0 (a.drop_zero rest) fun s hmem => a.nulFree s (List.mem_append_left _ hmem)
    · exact (List.cons.inj hname).1

end ArgArea

/-- One argument, and an environment whose second string is empty. -/
def emptyEnv : ArgArea where
  args := [[0x61]]
  envs := [[0x58, 0x3d, 0x31], []]
  execFn := [0x2f, 0x62]
  args_ne_nil := List.cons_ne_nil _ _
  execFn_ne_nil := List.cons_ne_nil _ _
  nulFree := by decide

/-- The first string of the environment is taken for the name, and the environment is empty. -/
theorem emptyEnv_not_parsed :
    buildArgp (emptyEnv.bytes []) emptyEnv.last = .ok ⟨[0], [], 2, none⟩ ∧
      readAt 0 (emptyEnv.bytes []) 2 = some [0x58, 0x3d, 0x31] ∧
      ¬ emptyEnv.ParsedBack [] ⟨[0], [], 2, none⟩ := by
  refine ⟨by decide, by decide, fun h => ?_⟩
  have hcount := congrArg List.length h.envs
  cases hcount

end Snitchaser.Host
