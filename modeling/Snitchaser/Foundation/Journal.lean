import Snitchaser.Foundation.Fallible
import Mathlib.Data.List.Basic
import Mathlib.Logic.Function.Basic

/-!
# Journals of memory

One program, run twice. The first run (`record`) saves regions of a memory to a journal;
the second (`restore`) takes them from the journal and writes them to another memory.
Both may read the memory they are on, to find the next region or its size.

The second run goes the way of the first if whatever the first read was saved before:
that is `Safe`, and `restore_record` is the theorem. It does not matter which regions
overlap, nor what the second memory held.
-/

namespace Foundation.Journal

variable {A B ε α β : Type}

/-- A program over addresses `A` and bytes `B` that may fail. -/
inductive Prog (A B ε α : Type) : Type where
  | ret (a : α)
  | fail (e : ε)
  /-- A region of memory goes through the journal. -/
  | save (region : List A) (k : Prog A B ε α)
  /-- Bytes of the first run go through the journal. -/
  | emit (bytes : List B) (k : List B → Prog A B ε α)
  /-- Memory is read. -/
  | load (region : List A) (k : List B → Prog A B ε α)

/-- One program, then another. -/
def Prog.bind : Prog A B ε α → (α → Prog A B ε β) → Prog A B ε β
  | .ret a, f => f a
  | .fail e, _ => .fail e
  | .save region k, f => .save region (k.bind f)
  | .emit bytes k, f => .emit bytes fun bs => (k bs).bind f
  | .load region k, f => .load region fun bs => (k bs).bind f

instance : Monad (Prog A B ε) where
  pure := .ret
  bind := Prog.bind

@[simp] theorem pure_eq (a : α) : (pure a : Prog A B ε α) = .ret a := rfl

@[simp] theorem ret_bind (a : α) (f : α → Prog A B ε β) : (Prog.ret a >>= f) = f a := rfl

@[simp] theorem fail_bind (e : ε) (f : α → Prog A B ε β) : (Prog.fail e >>= f) = .fail e := rfl

@[simp] theorem save_bind (region : List A) (k : Prog A B ε α) (f : α → Prog A B ε β) :
    (Prog.save region k >>= f) = .save region (k >>= f) := rfl

@[simp] theorem emit_bind (bytes : List B) (k : List B → Prog A B ε α) (f : α → Prog A B ε β) :
    (Prog.emit bytes k >>= f) = .emit bytes fun bs => k bs >>= f := rfl

@[simp] theorem load_bind (region : List A) (k : List B → Prog A B ε α) (f : α → Prog A B ε β) :
    (Prog.load region k >>= f) = .load region fun bs => k bs >>= f := rfl

/-! ### The first run -/

/-- What the first run is on: a memory that may have holes, and a check on what goes to
the journal. -/
structure Recorder (A B ε : Type) where
  mem : A → Option B
  /-- How it fails at a hole. -/
  unmapped : ε
  check : List B → Except ε Unit

/-- What it leaves: a value, the pieces of the journal, the addresses saved. -/
structure Recorded (A B α : Type) where
  value : α
  pieces : List (List B)
  saved : List A

/-- The bytes of a region. -/
def Recorder.read (r : Recorder A B ε) (region : List A) : Except ε (List B) :=
  match region.mapM r.mem with
  | none => .error r.unmapped
  | some bytes => .ok bytes

/-- The first run. -/
def record (r : Recorder A B ε) : Prog A B ε α → Except ε (Recorded A B α)
  | .ret a => .ok ⟨a, [], []⟩
  | .fail e => .error e
  | .save region k => do
    let bytes ← r.read region
    r.check bytes
    let out ← record r k
    .ok ⟨out.value, bytes :: out.pieces, region ++ out.saved⟩
  | .emit bytes k => do
    r.check bytes
    let out ← record r (k bytes)
    .ok ⟨out.value, bytes :: out.pieces, out.saved⟩
  | .load region k => do
    let bytes ← r.read region
    record r (k bytes)

/-- The sizes of all that the first run puts into the journal, on a memory without holes, if
every piece is taken. -/
def sizes (m : A → B) : Prog A B ε α → List ℕ
  | .ret _ => []
  | .fail _ => []
  | .save region k => region.length :: sizes m k
  | .emit bytes k => bytes.length :: sizes m (k bytes)
  | .load region k => sizes m (k (region.map m))

/-! ### The second run -/

/-- What the second run leaves: a value, its memory, the rest of the journal, and the
sizes it asked for. -/
structure Restored (A B α : Type) where
  value : α
  mem : A → B
  rest : List B
  asked : List ℕ

/-- Bytes are written to a region. -/
def writeAll [DecidableEq A] (m : A → B) : List A → List B → A → B
  | a :: region, b :: bytes => writeAll (Function.update m a b) region bytes
  | _, _ => m

/-- The second run, on a memory and a journal; it fails with `starved` if that is too
short. -/
def restore [DecidableEq A] (starved : ε) : Prog A B ε α → (A → B) → List B →
    Except ε (Restored A B α)
  | .ret a, m, journal => .ok ⟨a, m, journal, []⟩
  | .fail e, _, _ => .error e
  | .save region k, m, journal =>
    if region.length ≤ journal.length then
      (restore starved k (writeAll m region (journal.take region.length))
        (journal.drop region.length)).map fun out => { out with asked := region.length :: out.asked }
    else .error starved
  | .emit bytes k, m, journal =>
    if bytes.length ≤ journal.length then
      (restore starved (k (journal.take bytes.length)) m (journal.drop bytes.length)).map
        fun out => { out with asked := bytes.length :: out.asked }
    else .error starved
  | .load region k, m, journal => restore starved (k (region.map m)) m journal

/-! ### They agree -/

/-- The program comes to an end in the first run. -/
def Completes (r : Recorder A B ε) (p : Prog A B ε α) : Prop := ∃ out, record r p = .ok out

/-- **What the first run reads was saved before**, if it comes to an end. -/
def Safe (r : Recorder A B ε) : (A → Prop) → Prog A B ε α → Prop
  | _, .ret _ => True
  | _, .fail _ => True
  | done, .save region k => Safe r (fun a => done a ∨ a ∈ region) k
  | done, .emit bytes k => Safe r done (k bytes)
  | done, .load region k => ∀ bytes, r.read region = .ok bytes →
    (Completes r (k bytes) → ∀ a ∈ region, done a) ∧ Safe r done (k bytes)

/-- A program that reads no memory. -/
def LoadFree : Prog A B ε α → Prop
  | .ret _ => True
  | .fail _ => True
  | .save _ k => LoadFree k
  | .emit _ k => ∀ bytes, LoadFree (k bytes)
  | .load _ _ => False

/-- Where nothing is read, nothing has to be saved before. -/
theorem LoadFree.safe {p : Prog A B ε α} (h : LoadFree p) (r : Recorder A B ε) (done : A → Prop) :
    Safe r done p := by
  induction p generalizing done with
  | ret a => trivial
  | fail e => trivial
  | save region k ih => exact ih h _
  | emit bytes k ih => exact ih bytes (h bytes) done
  | load region k ih => exact h.elim

theorem LoadFree.bind {p : Prog A B ε α} {f : α → Prog A B ε β} (hp : LoadFree p)
    (hf : ∀ a, LoadFree (f a)) : LoadFree (p >>= f) := by
  induction p with
  | ret a => exact hf a
  | fail e => trivial
  | save region k ih => exact ih hp
  | emit bytes k ih => exact fun bs => ih bs (hp bs)
  | load region k ih => exact hp.elim

theorem LoadFree.ite {c : Prop} [Decidable c] {p q : Prog A B ε α} (hp : LoadFree p)
    (hq : LoadFree q) : LoadFree (if c then p else q) := by
  split
  · exact hp
  · exact hq

theorem Recorder.read_ok {r : Recorder A B ε} {region : List A} {bytes : List B}
    (h : r.read region = .ok bytes) : region.mapM r.mem = some bytes := by
  unfold Recorder.read at h
  split at h
  · cases h
  · rename_i hmap
    cases h
    exact hmap

section FirstRun

variable {r : Recorder A B ε}

/-- A region that is saved. -/
theorem record_save {region : List A} {k : Prog A B ε α} {out : Recorded A B α}
    (h : record r (.save region k) = .ok out) :
    ∃ bytes out', r.read region = .ok bytes ∧ r.check bytes = .ok () ∧ record r k = .ok out' ∧
      out = ⟨out'.value, bytes :: out'.pieces, region ++ out'.saved⟩ := by
  obtain ⟨bytes, hread, h⟩ := bind_eq_ok.mp h
  obtain ⟨_, hcheck, h⟩ := bind_eq_ok.mp h
  obtain ⟨out', hrec, h⟩ := bind_eq_ok.mp h
  cases h
  exact ⟨bytes, out', hread, hcheck, hrec, rfl⟩

/-- Bytes that are passed on. -/
theorem record_emit {bytes : List B} {k : List B → Prog A B ε α} {out : Recorded A B α}
    (h : record r (.emit bytes k) = .ok out) :
    ∃ out', r.check bytes = .ok () ∧ record r (k bytes) = .ok out' ∧
      out = ⟨out'.value, bytes :: out'.pieces, out'.saved⟩ := by
  obtain ⟨_, hcheck, h⟩ := bind_eq_ok.mp h
  obtain ⟨out', hrec, h⟩ := bind_eq_ok.mp h
  cases h
  exact ⟨out', hcheck, hrec, rfl⟩

/-- A region that is read. -/
theorem record_load {region : List A} {k : List B → Prog A B ε α} {out : Recorded A B α}
    (h : record r (.load region k) = .ok out) :
    ∃ bytes, r.read region = .ok bytes ∧ record r (k bytes) = .ok out :=
  bind_eq_ok.mp h

theorem record_save_of {region : List A} {bytes : List B} {k : Prog A B ε α} {out : Recorded A B α}
    (hread : r.read region = .ok bytes) (hcheck : r.check bytes = .ok ())
    (hrec : record r k = .ok out) : record r (.save region k) =
      .ok ⟨out.value, bytes :: out.pieces, region ++ out.saved⟩ := by
  rw [record, hread]
  simp only [bind, Except.bind, hcheck, hrec]

theorem record_emit_of {bytes : List B} {k : List B → Prog A B ε α} {out : Recorded A B α}
    (hcheck : r.check bytes = .ok ()) (hrec : record r (k bytes) = .ok out) :
    record r (.emit bytes k) = .ok ⟨out.value, bytes :: out.pieces, out.saved⟩ := by
  rw [record, hcheck]
  simp only [bind, Except.bind, hrec]

theorem record_load_of {region : List A} {bytes : List B} {k : List B → Prog A B ε α}
    {out : Recorded A B α} (hread : r.read region = .ok bytes)
    (hrec : record r (k bytes) = .ok out) : record r (.load region k) = .ok out := by
  rw [record, hread]
  exact hrec

/-- A program that comes to an end is one part after the other. -/
theorem record_bind {p : Prog A B ε α} {f : α → Prog A B ε β} {out : Recorded A B β}
    (h : record r (p >>= f) = .ok out) :
    ∃ out₁ out₂, record r p = .ok out₁ ∧ record r (f out₁.value) = .ok out₂ ∧
      out = ⟨out₂.value, out₁.pieces ++ out₂.pieces, out₁.saved ++ out₂.saved⟩ := by
  induction p generalizing out with
  | ret a => exact ⟨⟨a, [], []⟩, out, rfl, h, rfl⟩
  | fail e => cases h
  | save region k ih =>
    obtain ⟨bytes, out', hread, hcheck, hrec, rfl⟩ := record_save h
    obtain ⟨out₁, out₂, h₁, h₂, rfl⟩ := ih hrec
    exact ⟨_, out₂, record_save_of hread hcheck h₁, h₂, by simp⟩
  | emit bytes k ih =>
    obtain ⟨out', hcheck, hrec, rfl⟩ := record_emit h
    obtain ⟨out₁, out₂, h₁, h₂, rfl⟩ := ih bytes hrec
    exact ⟨_, out₂, record_emit_of hcheck h₁, h₂, rfl⟩
  | load region k ih =>
    obtain ⟨bytes, hread, hrec⟩ := record_load h
    obtain ⟨out₁, out₂, h₁, h₂, rfl⟩ := ih bytes hrec
    exact ⟨out₁, out₂, record_load_of hread h₁, h₂, rfl⟩

/-- One part after the other, if both come to an end. -/
theorem record_bind_of {p : Prog A B ε α} {f : α → Prog A B ε β} {out₁ : Recorded A B α}
    {out₂ : Recorded A B β} (h₁ : record r p = .ok out₁) (h₂ : record r (f out₁.value) = .ok out₂) :
    record r (p >>= f) =
      .ok ⟨out₂.value, out₁.pieces ++ out₂.pieces, out₁.saved ++ out₂.saved⟩ := by
  induction p generalizing out₁ with
  | ret a =>
    cases h₁
    exact h₂
  | fail e => cases h₁
  | save region k ih =>
    obtain ⟨bytes, out', hread, hcheck, hrec, rfl⟩ := record_save h₁
    rw [save_bind, record_save_of hread hcheck (ih hrec h₂), List.append_assoc, List.cons_append]
  | emit bytes k ih =>
    obtain ⟨out', hcheck, hrec, rfl⟩ := record_emit h₁
    rw [emit_bind, record_emit_of hcheck (ih bytes hrec h₂), List.cons_append]
  | load region k ih =>
    obtain ⟨bytes, hread, hrec⟩ := record_load h₁
    rw [load_bind, record_load_of hread (ih bytes hrec h₂)]

/-- If the whole comes to an end, its second part does. -/
theorem Completes.of_bind {p : Prog A B ε α} {f : α → Prog A B ε β} (h : Completes r (p >>= f)) :
    ∃ a, Completes r (f a) := by
  obtain ⟨out, hout⟩ := h
  obtain ⟨out₁, out₂, -, h₂, -⟩ := record_bind hout
  exact ⟨out₁.value, out₂, h₂⟩

end FirstRun

section Agree

variable {mem : A → Option B}

/-- What a region with one address more is read as. -/
theorem exists_of_mapM_cons {x : A} {region : List A} {bytes : List B}
    (h : (x :: region).mapM mem = some bytes) :
    ∃ b bs, mem x = some b ∧ region.mapM mem = some bs ∧ bytes = b :: bs := by
  rw [List.mapM_cons] at h
  obtain ⟨b, hb, h⟩ := Option.bind_eq_some_iff.mp h
  obtain ⟨bs, hbs, h⟩ := Option.bind_eq_some_iff.mp h
  exact ⟨b, bs, hb, hbs, (Option.some.inj h).symm⟩

/-- Writing what is in a memory to another one brings them together, and takes no
agreement away. -/
theorem writeAll_agrees [DecidableEq A] {region : List A} {bytes : List B} (h : region.mapM mem = some bytes)
    {done : A → Prop} {m : A → B} (hm : ∀ a, done a → mem a = some (m a)) :
    ∀ a, done a ∨ a ∈ region → mem a = some (writeAll m region bytes a) := by
  induction region generalizing bytes m done with
  | nil =>
    intro a ha
    rcases ha with ha | ha
    · rw [writeAll]
      · exact hm a ha
      · simp
    · cases ha
  | cons x region ih =>
    obtain ⟨b, bs, hb, hbs, rfl⟩ := exists_of_mapM_cons h
    have hx : ∀ a, (done a ∨ a = x) → mem a = some (Function.update m x b a) := by
      intro a ha
      by_cases hax : a = x
      · rw [hax, Function.update_self, hb]
      · rw [Function.update_of_ne hax]
        exact hm a (ha.resolve_right hax)
    intro a ha
    rw [writeAll]
    refine ih hbs hx a ?_
    rw [List.mem_cons, ← or_assoc] at ha
    exact ha

/-- A region on which two memories agree reads the same. -/
theorem map_eq_of_agrees {region : List A} {bytes : List B} (h : region.mapM mem = some bytes)
    {m : A → B} (hm : ∀ a ∈ region, mem a = some (m a)) : region.map m = bytes := by
  induction region generalizing bytes with
  | nil =>
    cases h
    rfl
  | cons x region ih =>
    obtain ⟨b, bs, hb, hbs, rfl⟩ := exists_of_mapM_cons h
    have hx := hm x List.mem_cons_self
    rw [hb] at hx
    cases hx
    rw [List.map_cons, ih hbs fun a ha => hm a (List.mem_cons_of_mem _ ha)]

theorem length_of_mapM {region : List A} {bytes : List B} (h : region.mapM mem = some bytes) :
    bytes.length = region.length := by
  induction region generalizing bytes with
  | nil =>
    cases h
    rfl
  | cons x region ih =>
    obtain ⟨b, bs, hb, hbs, rfl⟩ := exists_of_mapM_cons h
    rw [List.length_cons, List.length_cons, ih hbs]

/-- What is read of a memory is in any memory that extends it. -/
theorem map_eq_of_extends {region : List A} {bytes : List B} (h : region.mapM mem = some bytes)
    {m : A → B} (hm : ∀ a b, mem a = some b → m a = b) : region.map m = bytes := by
  induction region generalizing bytes with
  | nil =>
    cases h
    rfl
  | cons x region ih =>
    obtain ⟨b, bs, hb, hbs, rfl⟩ := exists_of_mapM_cons h
    rw [List.map_cons, ih hbs, hm x b hb]

/-- **The sizes are those of the pieces**, where the first run comes to an end. -/
theorem sizes_of_record {r : Recorder A B ε} {p : Prog A B ε α} {out : Recorded A B α}
    (h : record r p = .ok out) {m : A → B} (hm : ∀ a b, r.mem a = some b → m a = b) :
    sizes m p = out.pieces.map List.length := by
  induction p generalizing out with
  | ret a =>
    cases h
    rfl
  | fail e => cases h
  | save region k ih =>
    obtain ⟨bytes, out', hread, -, hrec, rfl⟩ := record_save h
    rw [sizes, ih hrec, List.map_cons, length_of_mapM (Recorder.read_ok hread)]
  | emit bytes k ih =>
    obtain ⟨out', -, hrec, rfl⟩ := record_emit h
    rw [sizes, ih bytes hrec, List.map_cons]
  | load region k ih =>
    obtain ⟨bytes, hread, hrec⟩ := record_load h
    rw [sizes, map_eq_of_extends (Recorder.read_ok hread) hm, ih bytes hrec]

/-- The second run does not see what the first passed on, only how much. -/
theorem restore_emit_congr [DecidableEq A] (starved : ε) {bytes bytes' : List B}
    (h : bytes.length = bytes'.length) (k : List B → Prog A B ε α) :
    restore starved (.emit bytes k) = restore starved (.emit bytes' k) := by
  funext m journal
  rw [restore, restore, h]

/-- **The second run goes the way of the first**: it takes exactly the journal, comes to
the same value, and leaves a memory that agrees with the first on all that was saved. -/
theorem restore_record [DecidableEq A] {r : Recorder A B ε} (starved : ε) {p : Prog A B ε α} {out : Recorded A B α}
    (h : record r p = .ok out) {done : A → Prop} (hsafe : Safe r done p) {m : A → B}
    (hm : ∀ a, done a → r.mem a = some (m a)) (rest : List B) :
    ∃ m', restore starved p m (out.pieces.flatten ++ rest) =
        .ok ⟨out.value, m', rest, out.pieces.map List.length⟩ ∧
      ∀ a, done a ∨ a ∈ out.saved → r.mem a = some (m' a) := by
  induction p generalizing out done m with
  | ret a =>
    cases h
    refine ⟨m, rfl, fun a ha => hm a (ha.resolve_right List.not_mem_nil)⟩
  | fail e => cases h
  | save region k ih =>
    obtain ⟨bytes, out', hread, -, hrec, rfl⟩ := record_save h
    have hmap := Recorder.read_ok hread
    have hlen := length_of_mapM hmap
    obtain ⟨m', hrun, hagree⟩ := ih hrec hsafe (writeAll_agrees hmap hm)
    refine ⟨m', ?_, ?_⟩
    · rw [restore, if_pos (by simp [← hlen])]
      rw [List.flatten_cons, List.append_assoc, ← hlen, List.take_left, List.drop_left, hrun]
      simp [Except.map]
    · intro a ha
      refine hagree a ?_
      rw [List.mem_append, ← or_assoc] at ha
      exact ha
  | emit bytes k ih =>
    obtain ⟨out', -, hrec, rfl⟩ := record_emit h
    obtain ⟨m', hrun, hagree⟩ := ih bytes hrec hsafe hm
    refine ⟨m', ?_, hagree⟩
    rw [restore, if_pos (by simp)]
    rw [List.flatten_cons, List.append_assoc, List.take_left, List.drop_left, hrun]
    simp [Except.map]
  | load region k ih =>
    obtain ⟨bytes, hread, hrec⟩ := record_load h
    obtain ⟨hdone, hsafe⟩ := hsafe bytes hread
    have hall := hdone ⟨out, hrec⟩
    obtain ⟨m', hrun, hagree⟩ := ih bytes hrec hsafe hm
    refine ⟨m', ?_, hagree⟩
    rw [restore, map_eq_of_agrees (Recorder.read_ok hread) fun a ha => hm a (hall a ha), hrun]

end Agree

end Foundation.Journal
