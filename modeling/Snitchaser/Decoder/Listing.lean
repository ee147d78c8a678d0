import Snitchaser.Decoder.ScanOpcode

/-!
# What the decoder finds in the table of the file

The rows of `x86_instructions.tbl` describe no opcode twice under one prefix
(`distinct_rows`), and the builder accepts all of them (`build_some`). So the entry
`next_inst` selects under an opcode and a mandatory prefix is the file's row for
them (`select_listed`), and an undefined one where the file has none
(`select_unlisted`).

Distinctness is decided by entering a number for each described opcode and prefix
into a set of numbers kept as the bits of one number.
-/

namespace Snitchaser.Decoder

/-! ### Deciding distinctness -/

/-- No number of the list is in `seen`, and none occurs twice. -/
def distinctFrom : ℕ → List ℕ → Bool
  | _, [] => true
  | seen, k :: ks => !seen.testBit k && distinctFrom (seen ||| 1 <<< k) ks

theorem distinctFrom_sound {seen : ℕ} {ks : List ℕ} (h : distinctFrom seen ks = true) :
    ks.Nodup ∧ ∀ k ∈ ks, seen.testBit k = false := by
  induction ks generalizing seen with
  | nil => simp
  | cons k ks ih =>
    simp only [distinctFrom, Bool.and_eq_true, Bool.not_eq_true'] at h
    obtain ⟨hnodup, hseen⟩ := ih h.2
    have hk : k ∉ ks := fun hm => by
      have := hseen k hm
      simp [Nat.testBit_or, Nat.testBit_shiftLeft] at this
    refine ⟨List.nodup_cons.mpr ⟨hk, hnodup⟩, fun j hj => ?_⟩
    rcases List.mem_cons.mp hj with rfl | hj
    · exact h.1
    · have := hseen j hj
      rw [Nat.testBit_or, Bool.or_eq_false_iff] at this
      exact this.1

/-- A number for a prefix. -/
def SpecPrefix.number : SpecPrefix → ℕ
  | .none => 0
  | .p66 => 1
  | .pf2 => 2
  | .pf3 => 3

/-- Numbers for the opcodes and prefixes a row describes. -/
def Descriptor.keys (d : Descriptor) : List ℕ :=
  if d.omitted then []
  else (List.range' d.rngStart (d.rngEnd + 1 - d.rngStart)).flatMap fun i =>
    match d.specPrefix with
    | none => [4 * i, 4 * i + 1, 4 * i + 2, 4 * i + 3]
    | some p => [4 * i + p.number]

theorem Descriptor.mem_keys {d : Descriptor} {i : ℕ} {p : SpecPrefix} (h : d.describes i p = true) :
    4 * i + p.number ∈ d.keys := by
  unfold Descriptor.describes Descriptor.covers at h
  simp only [Bool.and_eq_true, Bool.not_eq_true', Nat.ble_eq] at h
  obtain ⟨⟨⟨hom, h₁⟩, h₂⟩, hp⟩ := h
  rw [Descriptor.keys, if_neg (by simp [hom]), List.mem_flatMap]
  refine ⟨i, List.mem_range'_1.mpr (by omega), ?_⟩
  cases hq : d.specPrefix with
  | none => cases p <;> simp [SpecPrefix.number]
  | some q =>
    rw [hq, beq_iff_eq] at hp
    simp [hp]

theorem distinct_of_keys {rows : List Descriptor}
    (h : distinctFrom 0 (rows.flatMap Descriptor.keys) = true) : Distinct rows := by
  obtain ⟨_, hpair⟩ := List.nodup_flatMap.mp (distinctFrom_sound h).1
  refine hpair.imp fun hdis i p hd => ?_
  by_contra hd'
  exact hdis (Descriptor.mem_keys hd) (Descriptor.mem_keys (by simpa using hd'))

/-! ### The rows of the file -/

/-- The rows of a table of the file. -/
def rowsIn (t : TableName) : List Descriptor := rowsOf x86Instructions t

theorem build_some : (buildTables x86Instructions).isSome = true := by decide +kernel

theorem distinct_rows (t : TableName) : Distinct (rowsIn t) := by
  apply distinct_of_keys
  rcases t with _ | _ | _ | _ | g
  · decide +kernel
  · decide +kernel
  · decide +kernel
  · decide +kernel
  · cases g <;> decide +kernel

/-- Every word the rows use is one the builder knows. -/
theorem rows_known (t : TableName) :
    ∀ d ∈ rowsIn t, d.omitted = false → d.operator.type ≠ none := by
  rcases t with _ | _ | _ | _ | g
  · decide +kernel
  · decide +kernel
  · decide +kernel
  · decide +kernel
  · cases g <;> decide +kernel

theorem found_x86Instructions :
    ∃ st : Tables, x86Opcode = st.printTable ∧ ∀ t i, Found (rowsIn t) i (st.resolve t i) := by
  obtain ⟨st, hst⟩ := Option.isSome_iff_exists.mp build_some
  refine ⟨st, by rw [x86Opcode_eq, hst, Option.getD_some], fun t i => ?_⟩
  rw [resolve_build hst]
  exact found_rows (distinct_rows t) (rows_known t) i

section Listed

variable {t : TableName} {i : ℕ}

/-- The entry `next_inst` selects under a prefix is the file's row. -/
theorem select_listed {p : SpecPrefix} {d : Descriptor} (hd : d ∈ rowsIn t)
    (hp : d.describes i p = true) : (x86Opcode.resolve t i).select p = d.row.printed := by
  obtain ⟨st, hst, hfound⟩ := found_x86Instructions
  rw [hst, st.select_printTable, (hfound t i).listed d hd p hp]

/-- Where the file has no row, the entry selected is an undefined one. -/
theorem select_unlisted {p : SpecPrefix} (h : ∀ d ∈ rowsIn t, d.describes i p = false) :
    (x86Opcode.resolve t i).select p = {} := by
  obtain ⟨st, hst, hfound⟩ := found_x86Instructions
  rw [hst, st.select_printTable, (hfound t i).unlisted p h]
  rfl

/-- A row without a mandatory prefix is the opcode's own entry. -/
theorem own_of_plain {d : Descriptor} (hd : d ∈ rowsIn t) (hc : d.covers i = true)
    (hp : d.specPrefix = none) : (x86Opcode.resolve t i).own = d.row.printed := by
  obtain ⟨st, hst, hfound⟩ := found_x86Instructions
  rw [hst, st.own_printTable, (hfound t i).plain d hd hc hp]

/-- A row with one makes the opcode's own entry prefix-dependent. -/
theorem own_of_dependent {d : Descriptor} (hd : d ∈ rowsIn t) (hc : d.covers i = true)
    (hp : d.specPrefix ≠ none) : (x86Opcode.resolve t i).own.type = .needSpecPrefix := by
  obtain ⟨st, hst, hfound⟩ := found_x86Instructions
  have h := (hfound t i).dependent d hd hc hp
  rw [hst, st.own_printTable, InstRow.printed, if_neg (by rw [h]; decide), h]

end Listed

end Snitchaser.Decoder
