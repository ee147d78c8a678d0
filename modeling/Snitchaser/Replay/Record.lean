import Snitchaser.Log.Stream

/-!
# What is recorded

The records of a thread that takes no signals. Compiled branches write their target,
`rdtsc` its mark and the two words; a system call appends, before it is made, its mark
and its number (`pre_log_syscall`), and after it a mark that no signal broke it, the
registers and what its handler saves (`post_log_syscall`). Other instructions, direct
jumps and calls among them, leave nothing.

The child of `clone` and `fork` appends nothing: its side of the call begins a log of
its own (`reset_logger`, or `init_logger` for a thread).

## What is proved

`record_holds`: after any events, the log holds the pieces of those since it was begun,
in order, and no region of it is empty.
-/

namespace Snitchaser.Replay

open Foundation Interp Log

/-- What a thread does. -/
inductive Event where
  /-- A branch that is logged. -/
  | branch (target : Word)
  /-- `rdtsc`, with its result. -/
  | rdtsc (eax edx : Word)
  /-- A system call with the registers after it and what its post handler appends. -/
  | syscall (nr : Word) (regs : PushaRegs) (data : List Data)
  /-- Any other instruction. -/
  | unlogged

/-- `SYSCALL_TABLE_SZ`. -/
def syscallTableSz : ℤ := 512

/-- `__NR_fork`. -/
def nrFork : Word := 2

/-- `__NR_clone`. -/
def nrClone : Word := 120

/-- The child's side of a call that makes one. -/
def isChild (nr : Word) (regs : PushaRegs) : Prop := (nr = nrClone ∨ nr = nrFork) ∧ regs.eax = 0

instance (nr : Word) (regs : PushaRegs) : Decidable (isChild nr regs) :=
  inferInstanceAs (Decidable (_ ∧ _))

/-- `append_buffer` of some words. -/
def appendWords (words : List Word) (h : words.length < 2 ^ 30) : Op :=
  .append ⟨leBytesList words, by rw [length_leBytesList]; omega⟩

/-- `pre_log_syscall`. -/
def preLogSyscall (lzo : Lzo) (l : Logger) (nr : Word) : Except Fault Logger := do
  assert (0 ≤ nr.toInt ∧ nr.toInt < syscallTableSz) "(nr >= 0) && (nr < SYSCALL_TABLE_SZ)"
  run lzo l [appendWords [syscallMark] (by decide), appendWords [nr] (by decide : 1 < 2 ^ 30)]

/-- What `post_log_syscall` and the handler append. -/
def postOps (regs : PushaRegs) (data : List Data) : List Op :=
  appendWords [noSignalMark] (by decide) :: appendWords regs.words (by decide : 9 < 2 ^ 30) ::
    data.map Op.append

/-- `post_log_syscall`; `regs` are those it records, with the user's stack pointer. -/
def postLogSyscall (lzo : Lzo) (l : Logger) (nr : Word) (regs : PushaRegs) (data : List Data) :
    Except Fault Logger :=
  if isChild nr regs then .ok (initLogger l.start) else run lzo l (postOps regs data)

/-- An event is recorded. -/
def recordEvent (lzo : Lzo) (l : Logger) : Event → Except Fault Logger
  | .branch target => step lzo l (.branch target)
  | .rdtsc eax edx => step lzo l (.rdtsc eax edx)
  | .syscall nr regs data => do
    let l ← preLogSyscall lzo l nr
    postLogSyscall lzo l nr regs data
  | .unlogged => .ok l

/-- Events are recorded one after the other. -/
def record (lzo : Lzo) (l : Logger) (events : List Event) : Except Fault Logger :=
  events.foldlM (recordEvent lzo) l

/-- `pre_exit`: the call is recorded, and the log flushed. -/
def recordExit (lzo : Lzo) (l : Logger) (nr : Word) : Except Fault Logger := do
  let l ← preLogSyscall lzo l nr
  flushLoggerBuffer lzo l

/-! ### Pieces -/

/-- The pieces before a system call. -/
def prePieces (nr : Word) : List (List Byte) := [leBytes syscallMark, leBytes nr]

/-- The pieces after it. -/
def postPieces (regs : PushaRegs) (data : List Data) : List (List Byte) :=
  leBytes noSignalMark :: leBytesList regs.words :: data.map Subtype.val

/-- The pieces of an event. -/
def Event.pieces : Event → List (List Byte)
  | .branch target => [leBytes target]
  | .rdtsc eax edx => [leBytesList [rdtscMark, eax, edx]]
  | .syscall nr regs data => prePieces nr ++ postPieces regs data
  | .unlogged => []

/-- The event is the child's return. -/
def Event.isChild : Event → Bool
  | .syscall nr regs _ => decide (Replay.isChild nr regs)
  | _ => false

/-- The events of a log, with one more: the child's return begins a new one. -/
def ownStep (past : List Event) (event : Event) : List Event :=
  if event.isChild then [] else past ++ [event]

/-- The events of the log that is current at the end: those since the last child's
return. -/
def ownEvents (events : List Event) : List Event := events.foldl ownStep []

/-- **The log holds these pieces**, and no region is empty. -/
def Recorded (lzo : Lzo) (l : Logger) (pieces : List (List Byte)) : Prop :=
  ∃ regions pending, l.Holds lzo regions pending ∧ allPieces regions ++ pending = pieces ∧
    ∀ region ∈ regions, region.pieces ≠ []

section Recorded

variable {lzo : Lzo} {l l' : Logger} {pieces : List (List Byte)}

theorem recorded_init (lzo : Lzo) (start : Pages logPagesNr) : Recorded lzo (initLogger start) [] :=
  ⟨[], [], holds_init lzo start, rfl, fun _ h => (List.not_mem_nil h).elim⟩

theorem Recorded.nonempty (h : Recorded lzo l pieces) : ∀ piece ∈ pieces, piece ≠ [] := by
  obtain ⟨regions, pending, hl, rfl, -⟩ := h
  exact hl.nonempty

theorem Recorded.run {ops : List Op} (h : Recorded lzo l pieces) (hops : ∀ op ∈ ops, op ≠ .flush)
    (hok : Log.run lzo l ops = .ok l') : Recorded lzo l' (pieces ++ ops.flatMap Op.pieces) := by
  obtain ⟨regions, pending, hl, rfl, hne⟩ := h
  obtain ⟨new, pending', hl', hpieces, hnew⟩ := run_holds hl hok
  refine ⟨regions ++ new, pending', hl', ?_, ?_⟩
  · rw [List.append_assoc, ← hpieces]
    simp [allPieces]
  · intro region hregion
    rcases List.mem_append.mp hregion with hregion | hregion
    · exact hne region hregion
    · exact hnew.mpr (flushesFull_of_no_flush hops) region hregion

theorem Recorded.step {op : Op} (h : Recorded lzo l pieces) (hop : op ≠ .flush)
    (hok : Log.step lzo l op = .ok l') : Recorded lzo l' (pieces ++ op.pieces) := by
  have hrun : Log.run lzo l [op] = .ok l' := by
    show (Log.step lzo l op >>= pure) = _
    rw [bind_pure, hok]
  have hops : ∀ o ∈ [op], o ≠ .flush := by
    intro o ho
    rw [List.mem_singleton.mp ho]
    exact hop
  simpa using h.run hops hrun

theorem appendWords_ne_flush (words : List Word) (h : words.length < 2 ^ 30) :
    appendWords words h ≠ .flush := by
  unfold appendWords
  exact Op.noConfusion

theorem pieces_appendWords (word : Word) (h : [word].length < 2 ^ 30) :
    (appendWords [word] h).pieces = [leBytes word] := by
  unfold appendWords Op.pieces leBytesList
  simp

/-- A word is in the buffer afterwards. -/
theorem step_appendWords_ne_nil {word : Word} (h : [word].length < 2 ^ 30)
    (hok : Log.step lzo l (appendWords [word] h) = .ok l') : l'.buf ≠ [] := by
  refine appendBuffer_buf_ne_nil ?_ hok
  rw [length_leBytesList]
  unfold maxLoggerSize logPagesNr pageSize loggerAdditionalBytes
  simp

theorem run_pair_ok {op₁ op₂ : Op} (h : Log.run lzo l [op₁, op₂] = .ok l') :
    ∃ l₁, Log.step lzo l op₁ = .ok l₁ ∧ Log.step lzo l₁ op₂ = .ok l' := by
  obtain ⟨l₁, h₁, h⟩ := bind_eq_ok.mp h
  obtain ⟨l₂, h₂, h⟩ := bind_eq_ok.mp h
  cases h
  exact ⟨l₁, h₁, h₂⟩

theorem Recorded.preLogSyscall {nr : Word} (h : Recorded lzo l pieces)
    (hok : Replay.preLogSyscall lzo l nr = .ok l') :
    Recorded lzo l' (pieces ++ prePieces nr) ∧ l'.buf ≠ [] := by
  obtain ⟨_, -, hok⟩ := bind_eq_ok.mp hok
  obtain ⟨l₁, hmark, hnr⟩ := run_pair_ok hok
  refine ⟨?_, step_appendWords_ne_nil _ hnr⟩
  have hall := (h.step (appendWords_ne_flush _ _) hmark).step (appendWords_ne_flush _ _) hnr
  rw [pieces_appendWords, pieces_appendWords, List.append_assoc] at hall
  exact hall

theorem flatMap_pieces_postOps (regs : PushaRegs) (data : List Data) :
    (postOps regs data).flatMap Op.pieces = postPieces regs data := by
  have hdata : (data.map Op.append).flatMap Op.pieces = data.map Subtype.val := by
    induction data with
    | nil => rfl
    | cons d data ih =>
      rw [List.map_cons, List.flatMap_cons, ih]
      rfl
  unfold postOps postPieces
  rw [List.flatMap_cons, List.flatMap_cons, hdata]
  rfl

theorem postOps_ne_flush (regs : PushaRegs) (data : List Data) :
    ∀ op ∈ postOps regs data, op ≠ .flush := by
  intro op hop
  unfold postOps at hop
  rcases List.mem_cons.mp hop with rfl | hop
  · exact appendWords_ne_flush _ _
  rcases List.mem_cons.mp hop with rfl | hop
  · exact appendWords_ne_flush _ _
  obtain ⟨d, -, rfl⟩ := List.mem_map.mp hop
  exact Op.noConfusion

/-- An event adds its pieces, or begins a new log. -/
theorem Recorded.event {event : Event} (h : Recorded lzo l pieces)
    (hok : recordEvent lzo l event = .ok l') :
    Recorded lzo l' (if event.isChild then [] else pieces ++ event.pieces) := by
  cases event with
  | branch target =>
    have hstep : Log.step lzo l (.branch target) = .ok l' := hok
    exact h.step Op.noConfusion hstep
  | rdtsc eax edx =>
    have hstep : Log.step lzo l (.rdtsc eax edx) = .ok l' := hok
    exact h.step Op.noConfusion hstep
  | unlogged =>
    cases hok
    rw [if_neg (by decide), Event.pieces, List.append_nil]
    exact h
  | syscall nr regs data =>
    obtain ⟨l₁, hpre, hpost⟩ := bind_eq_ok.mp hok
    have h₁ := (h.preLogSyscall hpre).1
    unfold postLogSyscall at hpost
    by_cases hchild : Replay.isChild nr regs
    · rw [if_pos hchild] at hpost
      rw [Event.isChild, if_pos (decide_eq_true hchild)]
      cases hpost
      exact recorded_init lzo _
    · rw [if_neg hchild] at hpost
      rw [Event.isChild, if_neg (by simpa using hchild), Event.pieces, ← List.append_assoc,
        ← flatMap_pieces_postOps]
      exact h₁.run (postOps_ne_flush regs data) hpost

end Recorded

/-- **After any events, the log holds the pieces of its own**, in order. -/
theorem record_recorded {lzo : Lzo} {start : Pages logPagesNr} {events : List Event} {l : Logger}
    (hok : record lzo (initLogger start) events = .ok l) :
    Recorded lzo l ((ownEvents events).flatMap Event.pieces) := by
  -- from any point on, with the events of the log so far
  have hrun : ∀ (events past : List Event) (l₀ : Logger),
      Recorded lzo l₀ (past.flatMap Event.pieces) → record lzo l₀ events = .ok l →
      Recorded lzo l ((events.foldl ownStep past).flatMap Event.pieces) := by
    intro events
    induction events with
    | nil =>
      intro past l₀ h hok
      cases hok
      exact h
    | cons event events ih =>
      intro past l₀ h hok
      obtain ⟨l₁, hevent, hok⟩ := bind_eq_ok.mp hok
      refine ih _ l₁ ?_ hok
      have h₁ := h.event hevent
      unfold ownStep
      split_ifs at h₁ ⊢
      · exact h₁
      · rw [List.flatMap_append, List.flatMap_singleton]
        exact h₁
  exact hrun events [] (initLogger start) (recorded_init lzo start) hok

/-- The events of the log are among the events. -/
theorem mem_of_mem_ownEvents {events : List Event} {event : Event} (h : event ∈ ownEvents events) :
    event ∈ events := by
  have hfold : ∀ (events past : List Event), event ∈ events.foldl ownStep past →
      event ∈ past ∨ event ∈ events := by
    intro events
    induction events with
    | nil => exact fun past h => .inl h
    | cons e events ih =>
      intro past h
      rcases ih _ h with h | h
      · unfold ownStep at h
        split_ifs at h
        · cases h
        · rcases List.mem_append.mp h with h | h
          · exact .inl h
          · exact .inr (List.mem_singleton.mp h ▸ List.mem_cons_self)
      · exact .inr (List.mem_cons_of_mem _ h)
  exact (hfold events [] h).resolve_left List.not_mem_nil

/-- **The log at the exit**: a reader that opens it has before it the pieces of its
events and those of the exit. -/
theorem recordExit_at {lzo : Lzo} {l l' : Logger} {pieces : List (List Byte)} {nr : Word}
    (h : Recorded lzo l pieces) (hok : recordExit lzo l nr = .ok l') :
    (openLog l'.file).At lzo (pieces ++ prePieces nr) := by
  obtain ⟨l₁, hpre, hflush⟩ := bind_eq_ok.mp hok
  obtain ⟨⟨regions, pending, hl₁, hpieces, hne⟩, hbuf⟩ := h.preLogSyscall hpre
  have hl' := hl₁.flush hflush
  have hall : allPieces (regions ++ [.compressed pending]) = pieces ++ prePieces nr := by
    rw [allPieces_append, ← hpieces]
    rfl
  rw [hl'.file, ← hall]
  refine openLog_at hl'.sized ?_ ?_
  · intro region hregion
    rcases List.mem_append.mp hregion with hregion | hregion
    · exact hne region hregion
    · rw [List.mem_singleton.mp hregion]
      -- the number of the call is still in the buffer when it is flushed
      rintro rfl
      exact hbuf hl₁.buf
  · intro piece hpiece
    exact hl'.nonempty piece (by rwa [List.append_nil])

end Snitchaser.Replay
