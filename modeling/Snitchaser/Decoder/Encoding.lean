import Snitchaser.Decoder.Listing

/-!
# Prefixes, escape bytes, opcode

The bytes of an instruction up to its opcode, and the way `next_inst` takes over them
to the one entry it then goes by.

## The model

* `Encoded` — the bytes at an address: legacy prefixes, as many as there are, then
  the escape bytes of an opcode map, then the opcode. Every byte stream that is not
  prefixes without end is of this form.
* `selectedEntry` — the entry the pass at the opcode selects: the opcode's own one,
  or the one its group or its mandatory prefix leads to.

## What is proved

* `nextInst_of_encoded` — `next_inst` gets over prefixes and escape bytes and makes
  its last pass at the opcode, with the prefixes noted.
* `refusesUndefined_iff` — **an undefined entry is refused** exactly when it is the
  opcode's own one: the `switch` looks for `INST_INVALID` before it follows a group or
  a mandatory prefix, not after.
-/

namespace Snitchaser.Decoder

/-- The bytes from address `a` on begin with these. -/
def Fetches (code : Code) : Word → List Byte → Prop
  | _, [] => True
  | a, b :: bs => code a = b ∧ Fetches code (a + 1) bs

instance (code : Code) : (a : Word) → (bs : List Byte) → Decidable (Fetches code a bs)
  | _, [] => inferInstanceAs (Decidable True)
  | a, b :: bs =>
    have := instDecidableFetches code (a + 1) bs
    inferInstanceAs (Decidable (code a = b ∧ Fetches code (a + 1) bs))

/-- `lock`, `repne`, `rep`, the segment overrides, operand size and address size. -/
def legacyPrefixes : List Byte :=
  [0xf0, 0xf2, 0xf3, 0x26, 0x2e, 0x36, 0x3e, 0x64, 0x65, 0x66, 0x67]

/-- The opcode maps. -/
inductive OpMap where
  | onebyte
  | twobytes
  | threebytes_0f38
  | threebytes_0f3a
  deriving DecidableEq, Repr

/-- The table of a map. -/
def OpMap.table : OpMap → TableName
  | .onebyte => .onebyte
  | .twobytes => .twobytes
  | .threebytes_0f38 => .threebytes_0f38
  | .threebytes_0f3a => .threebytes_0f3a

/-- The bytes that lead to a map. -/
def OpMap.escapes : OpMap → List Byte
  | .onebyte => []
  | .twobytes => [0x0f]
  | .threebytes_0f38 => [0x0f, 0x38]
  | .threebytes_0f3a => [0x0f, 0x3a]

/-- **The bytes at `stream`** are the prefixes `ps`, the escape bytes of `m` and the
opcode `opc`. -/
structure Encoded (code : Code) (stream : Word) (ps : List Byte) (m : OpMap) (opc : Byte) : Prop where
  /-- The prefixes are legacy prefixes. -/
  prefixes : ∀ b ∈ ps, b ∈ legacyPrefixes
  /-- The bytes are there. -/
  fetches : Fetches code stream (ps ++ m.escapes ++ [opc])
  /-- The prefixes end there. -/
  opcode : m = .onebyte → opc ∉ legacyPrefixes

/-- What a prefix changes. -/
def PrefixState.note (st : PrefixState) (b : Byte) : PrefixState :=
  if b = 0xf0 ∨ b = 0xf2 ∨ b = 0xf3 then { st with prefix1 := b }
  else if b = 0x66 then { st with prefix3 := b, operadeSize := 2 }
  else if b = 0x67 then { st with prefix4 := b, addressSize := 2 }
  else { st with prefix2 := b }

/-- The state of `next_inst` behind the prefixes. -/
def prefixState (ps : List Byte) : PrefixState := ps.foldl PrefixState.note {}

/-- The address behind the opcode. -/
def behindOpcode (stream : Word) (ps : List Byte) (m : OpMap) : Word :=
  stream + BitVec.ofNat 32 (ps.length + m.escapes.length + 1)

/-! ### Over prefixes and escape bytes -/

theorem Fetches.append {code : Code} {a : Word} {bs cs : List Byte} :
    Fetches code a (bs ++ cs) ↔
      Fetches code a bs ∧ Fetches code (a + BitVec.ofNat 32 bs.length) cs := by
  induction bs generalizing a with
  | nil => simp [Fetches]
  | cons b bs ih =>
    simp only [List.cons_append, Fetches, ih, add_one_add_ofNat, List.length_cons, and_assoc]

theorem Fetches.getElem {code : Code} {a : Word} {bs : List Byte} (h : Fetches code a bs) {i : ℕ}
    (hi : i < bs.length) : code (a + BitVec.ofNat 32 i) = bs[i] := by
  induction bs generalizing a i with
  | nil => simp at hi
  | cons b bs ih =>
    cases i with
    | zero => simpa using h.1
    | succ i =>
      rw [List.getElem_cons_succ, ← ih h.2 (Nat.lt_of_succ_lt_succ hi), add_one_add_ofNat]

theorem prefix_types :
    ∀ b ∈ legacyPrefixes, (x86Opcode.insts .onebyte b.toNat).type =
      if b = 0xf0 ∨ b = 0xf2 ∨ b = 0xf3 then .prefix1
      else if b = 0x66 then .prefix3
      else if b = 0x67 then .prefix4
      else .prefix2 := by decide +kernel

theorem escape_types :
    (x86Opcode.insts .onebyte (0x0f : Byte).toNat).type = .escape2B ∧
    (x86Opcode.insts .twobytes (0x38 : Byte).toNat).type = .escape3B_0x38 ∧
    (x86Opcode.insts .twobytes (0x3a : Byte).toNat).type = .escape3B_0x3a := by decide +kernel

theorem lookup_prefix {b : Byte} (hb : b ∈ legacyPrefixes) (code : Code) (st : PrefixState)
    (stream : Word) : lookup x86Opcode code st .onebyte b stream = .restart (st.note b) .onebyte := by
  unfold lookup PrefixState.note
  rw [prefix_types b hb]
  split_ifs <;> rfl

/-- The loop gets over prefixes, noting each. -/
theorem nextInstLoop_prefixes {ps : List Byte} (hp : ∀ b ∈ ps, b ∈ legacyPrefixes) {code : Code}
    {stream : Word} (hf : Fetches code stream ps) (n : ℕ) (st : PrefixState) :
    nextInstLoop x86Opcode code (n + ps.length) st .onebyte stream =
      nextInstLoop x86Opcode code n (ps.foldl PrefixState.note st) .onebyte
        (stream + BitVec.ofNat 32 ps.length) := by
  induction ps generalizing stream st with
  | nil => simp
  | cons b ps ih =>
    have hb := lookup_prefix (hp b List.mem_cons_self) code st (stream + 1)
    rw [List.length_cons, ← Nat.add_assoc, nextInstLoop, hf.1, hb]
    simp only
    rw [ih (fun b' hb' => hp b' (List.mem_cons_of_mem _ hb')) hf.2, List.foldl_cons,
      add_one_add_ofNat]

/-- A run of prefixes that ends is shorter than the address space. -/
theorem Encoded.length_lt {code : Code} {stream : Word} {ps : List Byte} {m : OpMap} {opc : Byte}
    (h : Encoded code stream ps m opc) : ps.length < 2 ^ 32 := by
  by_contra hge
  have hlen : BitVec.ofNat 32 ps.length = BitVec.ofNat 32 (ps.length - 2 ^ 32) := by
    refine BitVec.eq_of_toNat_eq ?_
    simp only [BitVec.toNat_ofNat]
    omega
  obtain ⟨hps, hnext⟩ := Fetches.append.mp (List.append_assoc .. ▸ h.fetches)
  -- the byte behind the prefixes is one of the prefixes
  have hmem : code (stream + BitVec.ofNat 32 ps.length) ∈ legacyPrefixes := by
    rw [hlen, hps.getElem (by omega)]
    exact h.prefixes _ (List.getElem_mem _)
  cases m with
  | onebyte => exact h.opcode rfl (hnext.1 ▸ hmem)
  | twobytes => exact absurd (hnext.1 ▸ hmem) (by decide)
  | threebytes_0f38 => exact absurd (hnext.1 ▸ hmem) (by decide)
  | threebytes_0f3a => exact absurd (hnext.1 ▸ hmem) (by decide)

/-- The loop gets over the escape bytes. -/
theorem nextInstLoop_escapes {code : Code} {stream : Word} (m : OpMap)
    (hf : Fetches code stream m.escapes) (n : ℕ) (st : PrefixState) :
    nextInstLoop x86Opcode code (n + m.escapes.length) st .onebyte stream =
      nextInstLoop x86Opcode code n st m.table (stream + BitVec.ofNat 32 m.escapes.length) := by
  obtain ⟨h0f, h38, h3a⟩ := escape_types
  have esc : ∀ (n : ℕ) (t t' : TableName) (b : Byte) (a : Word), code a = b →
      lookup x86Opcode code st t b (a + 1) = .restart st t' →
      nextInstLoop x86Opcode code (n + 1) st t a = nextInstLoop x86Opcode code n st t' (a + 1) :=
    fun n t t' b a hb hl => by rw [nextInstLoop, hb, hl]
  have h₁ : ∀ a, lookup x86Opcode code st .onebyte 0x0f a = .restart st .twobytes := fun a => by
    unfold lookup
    rw [h0f]
  cases m with
  | onebyte => simp [OpMap.escapes, OpMap.table]
  | twobytes => exact esc n _ _ _ _ hf.1 (h₁ _)
  | threebytes_0f38 =>
    have h₂ : ∀ a, lookup x86Opcode code st .twobytes 0x38 a = .restart st .threebytes_0f38 :=
      fun a => by
        unfold lookup
        rw [h38]
    refine (esc (n + 1) _ _ _ _ hf.1 (h₁ _)).trans ((esc n _ _ _ _ hf.2.1 (h₂ _)).trans ?_)
    rw [show stream + 1 + 1 = stream + BitVec.ofNat 32 2 from add_one_add_ofNat stream 1]
    rfl
  | threebytes_0f3a =>
    have h₂ : ∀ a, lookup x86Opcode code st .twobytes 0x3a a = .restart st .threebytes_0f3a :=
      fun a => by
        unfold lookup
        rw [h3a]
    refine (esc (n + 1) _ _ _ _ hf.1 (h₁ _)).trans ((esc n _ _ _ _ hf.2.1 (h₂ _)).trans ?_)
    rw [show stream + 1 + 1 = stream + BitVec.ofNat 32 2 from add_one_add_ofNat stream 1]
    rfl

theorem OpMap.length_escapes_le (m : OpMap) : m.escapes.length ≤ 2 := by cases m <;> decide

/-- **`next_inst` makes its last pass at the opcode**, with the prefixes noted. -/
theorem nextInst_of_encoded {code : Code} {stream : Word} {ps : List Byte} {m : OpMap} {opc : Byte}
    (h : Encoded code stream ps m opc) {result : Except Fault (Option Word)}
    (hl : lookup x86Opcode code (prefixState ps) m.table opc (behindOpcode stream ps m) =
      .done result) : nextInst code stream = result := by
  have hlen := h.length_lt
  have hesc := m.length_escapes_le
  obtain ⟨hpe, hopc⟩ := Fetches.append.mp h.fetches
  obtain ⟨hps, hes⟩ := Fetches.append.mp hpe
  obtain ⟨n, hn⟩ : ∃ n, 2 ^ 32 + 2 = n + 1 + m.escapes.length + ps.length :=
    ⟨2 ^ 32 + 1 - m.escapes.length - ps.length, by omega⟩
  rw [nextInst, hn, nextInstLoop_prefixes h.prefixes hps, nextInstLoop_escapes m hes,
    add_ofNat_add_ofNat, nextInstLoop]
  rw [List.length_append] at hopc
  rw [hopc.1, show stream + BitVec.ofNat 32 (ps.length + m.escapes.length) + 1 =
    behindOpcode stream ps m from add_ofNat_add_ofNat stream _ 1]
  unfold prefixState at hl
  rw [hl]

/-! ### The entry selected -/

/-- The entry the pass at an opcode selects, `modrm` being the byte behind it. -/
def selectedEntry (st : PrefixState) (t : TableName) (opc modrm : Byte) : InstRow :=
  match (x86Opcode.insts t opc.toNat).type with
  | .group g => groupEntry x86Opcode st g modrm
  | .group7 => splitGroupEntry x86Opcode .grp7_0x0f01_mem .grp7_0x0f01_11b modrm
  | .group15 => splitGroupEntry x86Opcode .grp15_0x0fae_mem .grp15_0x0fae_11b modrm
  | .needSpecPrefix =>
    (x86Opcode.specPrefixTable ((x86Opcode.insts t opc.toNat).spec st.specPrefix)).row
  | _ => (x86Opcode.insts t opc.toNat).row

/-- The entry selected for the instruction at `stream` is an undefined one: its
opcode, its slot of a group, or its mandatory prefix has no row. -/
def UndefinedAt (code : Code) (stream : Word) (ps : List Byte) (m : OpMap) (opc : Byte) : Prop :=
  (selectedEntry (prefixState ps) m.table opc (code (behindOpcode stream ps m))).type = .invalid

/-- `next_inst` does not skip an instruction whose entry is undefined. -/
def RefusesUndefined (code : Code) (stream : Word) (ps : List Byte) (m : OpMap) (opc : Byte) : Prop :=
  UndefinedAt code stream ps m opc → ∃ text, nextInst code stream = .error (.fatal text)

/-- An entry that is invalid in print says nothing: no operands, no jump. -/
theorem row_eq_of_invalid {e : OpcodeTableEntry} (h : e.printed.row.type = .invalid) :
    e.printed.row = {} := by
  rw [OpcodeTableEntry.row_printed, InstRow.printed] at h ⊢
  split_ifs at h ⊢ with hi
  · rfl
  · exact absurd h hi

theorem insts_row_eq_of_invalid {t : TableName} {i : ℕ}
    (h : (x86Opcode.insts t i).row.type = .invalid) : (x86Opcode.insts t i).row = {} := by
  obtain ⟨st, hst, _⟩ := found_x86Instructions
  rw [hst] at h ⊢
  exact row_eq_of_invalid h

theorem specPrefixTable_row_eq_of_invalid {n : ℕ}
    (h : (x86Opcode.specPrefixTable n).row.type = .invalid) :
    (x86Opcode.specPrefixTable n).row = {} := by
  obtain ⟨st, hst, _⟩ := found_x86Instructions
  rw [hst] at h ⊢
  exact row_eq_of_invalid h

theorem groupEntry_eq_of_invalid {st : PrefixState} {g : GroupName} {modrm : Byte}
    (h : (groupEntry x86Opcode st g modrm).type = .invalid) :
    groupEntry x86Opcode st g modrm = {} := by
  unfold groupEntry at h ⊢
  simp only at h ⊢
  split_ifs at h ⊢
  · exact specPrefixTable_row_eq_of_invalid h
  · exact insts_row_eq_of_invalid h

/-- An undefined entry is taken for an instruction without operands. -/
theorem select_undefined (code : Code) (st : PrefixState) (stream : Word) :
    Pass.select code st {} stream = .done (.ok (some stream)) := by
  simp [Pass.select, skipOperades]

/-- An undefined entry other than the opcode's own one is skipped. -/
theorem lookup_undefined {code : Code} {st : PrefixState} {t : TableName} {opc : Byte} {stream : Word}
    (h : (selectedEntry st t opc (code stream)).type = .invalid)
    (hown : (x86Opcode.insts t opc.toNat).type ≠ .invalid) :
    ∃ next, lookup x86Opcode code st t opc stream = .done (.ok (some next)) := by
  unfold selectedEntry at h
  unfold lookup
  cases hty : (x86Opcode.insts t opc.toNat).type <;> rw [hty] at h <;> simp only at h ⊢
  case invalid => exact absurd hty hown
  case group g => rw [groupEntry_eq_of_invalid h, select_undefined]; exact ⟨_, rfl⟩
  case group7 =>
    rw [splitGroupEntry, insts_row_eq_of_invalid h, select_undefined]; exact ⟨_, rfl⟩
  case group15 =>
    rw [splitGroupEntry, insts_row_eq_of_invalid h, select_undefined]; exact ⟨_, rfl⟩
  case needSpecPrefix =>
    rw [specPrefixTable_row_eq_of_invalid h, select_undefined]; exact ⟨_, rfl⟩
  all_goals exact absurd (hty.symm.trans h) (by decide)

/-- **An undefined entry is refused exactly when it is the opcode's own one**: an
unlisted slot of a group and a missing mandatory prefix are skipped as if they were
instructions without operands. -/
theorem refusesUndefined_iff {code : Code} {stream : Word} {ps : List Byte} {m : OpMap} {opc : Byte}
    (h : Encoded code stream ps m opc) :
    RefusesUndefined code stream ps m opc ↔
      (UndefinedAt code stream ps m opc → (x86Opcode.insts m.table opc.toNat).type = .invalid) := by
  constructor
  · intro hrefuses hundef
    by_contra hown
    obtain ⟨text, hfatal⟩ := hrefuses hundef
    obtain ⟨next, hnext⟩ := lookup_undefined hundef hown
    rw [nextInst_of_encoded h hnext] at hfatal
    cases hfatal
  · intro hdirect hundef
    refine ⟨"invalid instruction 0x%x\n", nextInst_of_encoded h ?_⟩
    unfold lookup
    rw [hdirect hundef]

/-- A byte stream given by its first bytes. -/
def codeOf (bytes : List Byte) : Code := fun a => bytes.getD a.toNat 0

/-- `0f ff`, which no row lists, is refused. -/
theorem refusesUndefined_iff_0f_ff :
    Encoded (codeOf [0x0f, 0xff]) 0 [] .twobytes 0xff ∧
      (RefusesUndefined (codeOf [0x0f, 0xff]) 0 [] .twobytes 0xff ↔
        (UndefinedAt (codeOf [0x0f, 0xff]) 0 [] .twobytes 0xff →
          (x86Opcode.insts OpMap.twobytes.table (0xff : Byte).toNat).type = .invalid)) :=
  have h : Encoded (codeOf [0x0f, 0xff]) 0 [] .twobytes 0xff :=
    ⟨by decide, by decide, by decide⟩
  ⟨h, refusesUndefined_iff h⟩

/-- **`f2 0f 2c c0`**, `cvttsd2si %xmm0, %eax`: the file has rows for `0f 2c` without a
prefix and under `f3` only, yet the decoder skips three bytes of it and goes on at
its ModRM byte. -/
theorem cvttsd2si_skipped :
    Encoded (codeOf [0xf2, 0x0f, 0x2c, 0xc0]) 0 [0xf2] .twobytes 0x2c ∧
      UndefinedAt (codeOf [0xf2, 0x0f, 0x2c, 0xc0]) 0 [0xf2] .twobytes 0x2c ∧
      nextInst (codeOf [0xf2, 0x0f, 0x2c, 0xc0]) 0 = .ok (some 3) ∧
      ¬ RefusesUndefined (codeOf [0xf2, 0x0f, 0x2c, 0xc0]) 0 [0xf2] .twobytes 0x2c := by
  have hundef : UndefinedAt (codeOf [0xf2, 0x0f, 0x2c, 0xc0]) 0 [0xf2] .twobytes 0x2c := by
    unfold UndefinedAt
    decide +kernel
  have hnext : nextInst (codeOf [0xf2, 0x0f, 0x2c, 0xc0]) 0 = .ok (some 3) := by decide +kernel
  refine ⟨⟨by decide, by decide, by decide⟩, hundef, hnext, fun h => ?_⟩
  obtain ⟨text, hfatal⟩ := h hundef
  rw [hnext] at hfatal
  cases hfatal

end Snitchaser.Decoder
