import Snitchaser.Foundation.X86State
import Snitchaser.Replay.ContSignal
import Snitchaser.Signal.Unwind

/-!
# The frame of a signal, recorded and replayed

`signal_handler` appends three pieces to the log: the record of the signal, the
`SIGNAL_MARK_2` structure, and the frame the kernel pushed. On replay `signal_inst` reads
the first, and `setup_sighandler` the other two, from which it makes the target what it
was when the handler was entered.

## The model

* The recorder is `signalHandler` over `Logger`, from any logger on; the bytes of the
  frame are arbitrary.
* `Proc` is the replayed process as far as `setup_sighandler` changes it. That the trap
  made for gdb leaves the process as it is, and that its stack can be written, is
  assumed.
* `read_log` may read less than it is asked for, and both callers ignore how much. A
  structure or a buffer that is not filled keeps what the stack held (`filled`).
* `Place` says where a piece of a log lies: in which region, and what is before and behind
  it there.

## What is proved

`frame_replayed_iff`: the frame comes back intact **exactly when** it fits the log buffer
behind the structure. If not, a region ends between them, and the second `read_log` of
`setup_sighandler` does no more than load the next one.
-/

namespace Snitchaser.Replay

open Foundation Foundation.X86 Interp Log Signal

/-- The replayed process. -/
structure Proc where
  mem : Mem
  regs : PushaRegs
  eip : Word

/-- A buffer of a given size on the stack, of which the first bytes were read. -/
def filled (stack : ℕ → Byte) (size : ℕ) (data : List Byte) : List Byte :=
  (List.range size).map fun i => data.getD i (stack i)

/-- `signal_inst`. A wrong address only makes a warning. -/
def signalInst (lzo : Lzo) (stack : ℕ → Byte) (terminalMark signum : Word) : StepM Proc Unit := do
  let bytes ← liftRead (readLog lzo 16)
  let marks := leWords 4 (filled stack 16 bytes)
  if marks.getD 2 0 = terminalMark ∧ marks.getD 3 0 = signum then pure ()
  else throw (.fault (.assertion
    "(marks.terminal_mark == terminal_mark) && (marks.signum == signum)"))

/-- `arch_restore_registers`. -/
def archRestoreRegisters (regs : PushaRegs) (eip : Word) (s : Proc) : Proc :=
  { s with regs := regs, eip := if eip ≠ 0 then eip else s.eip }

/-- `setup_sighandler`. -/
def setupSighandler (lzo : Lzo) (stack : ℕ → Byte) : StepM Proc Unit := do
  let m ← liftRead (readaheadLogPtr lzo)
  if m ≠ signalMark2 then
    throw (.stop (.throw .logCorrupted "no SIGNAL_MARK_2 for signal handler"))
  else
    let bytes ← liftRead (readLog lzo 48)
    let mark := leWords 12 (filled stack 48 bytes)
    let regs := PushaRegs.ofWords (mark.drop 1)
    let frameSize := (mark.getD 10 0).toNat
    let data ← liftRead (readLog lzo frameSize)
    let s ← getTarget
    setTarget (archRestoreRegisters regs (mark.getD 11 0)
      { s with mem := store s.mem regs.esp (filled stack frameSize data) })

/-- The bytes of the `SIGNAL_MARK_2` structure. -/
def signalRecord2 (regs : PushaRegs) (frameSize handler : Word) : List Byte :=
  leBytesList (signalMark2 :: regs.words ++ [frameSize, handler])

/-- A log action of the interpreter as an operation of the logger; the frame has these
bytes. -/
def LogsAs (frame : List Byte) : LogAction → Op → Prop
  | .words ws, .append data => data.1 = leBytesList ws
  | .frame _, .append data => data.1 = frame
  | .flush, .flush => True
  | _, _ => False

theorem logsAs_cases {frame : List Byte} {ws vs : List Word} {f : SigFrame} {ops : List Op}
    (h : List.Forall₂ (LogsAs frame) [.words ws, .words vs, .frame f, .flush] ops) :
    ∃ x y z : Data, ops = [.append x, .append y, .append z, .flush] ∧ x.1 = leBytesList ws ∧
      y.1 = leBytesList vs ∧ z.1 = frame := by
  match ops, h with
  | [.append x, .append y, .append z, .flush], .cons hx (.cons hy (.cons hz _)) =>
    exact ⟨x, y, z, rfl, hx, hy, hz⟩

/-- The first piece `signal_handler` appends. -/
def firstPiece (d : Delivery) : List Byte :=
  signalRecord d.addr signalHandlerMark (BitVec.ofNat 32 (d.num + 1))

/-- The second. -/
def secondPiece (d : Delivery) (tpd : Tpd) : List Byte :=
  signalRecord2 { d.regs with esp := tpd.oldStackTop } d.frameSz (tpd.sigactions d.num).saHandler

/-- The process when the handler is entered. -/
def entered (d : Delivery) (tpd : Tpd) (frame : List Byte) (s : Proc) : Proc where
  mem := store s.mem tpd.oldStackTop frame
  regs := { d.regs with esp := tpd.oldStackTop }
  eip := (tpd.sigactions d.num).saHandler

/-! ### Places in a log -/

/-- **Where a piece lies**, behind what was read before it. -/
structure Place (regions : List Region) (read : List (List Byte)) (piece : List Byte) where
  before : List Region
  region : Region
  after : List Region
  /-- The pieces of its region before it. -/
  done : List (List Byte)
  /-- The pieces of its region behind it. -/
  rest : List (List Byte)
  regions_eq : regions = before ++ region :: after
  pieces_eq : region.pieces = done ++ piece :: rest
  read_eq : allPieces before ++ done = read

section Place

variable {regions : List Region} {read : List (List Byte)} {piece : List Byte}

/-- The reader before the piece, with its region loaded; the file goes on behind the
regions. -/
def Place.ahead (p : Place regions read piece) (lzo : Lzo) (tail : List Byte) : Reader :=
  ⟨encodeRegions lzo p.after ++ tail, piece ++ p.rest.flatten⟩

/-- The reader directly behind the piece. -/
def Place.behind (p : Place regions read piece) (lzo : Lzo) (tail : List Byte) : Reader :=
  ⟨encodeRegions lzo p.after ++ tail, p.rest.flatten⟩

theorem Place.ahead_ne_behind (p : Place regions read piece) {lzo : Lzo} {tail : List Byte}
    (h : piece ≠ []) : p.ahead lzo tail ≠ p.behind lzo tail := by
  intro hsame
  have hregion : piece ++ p.rest.flatten = p.rest.flatten := congrArg Reader.region hsame
  exact h (List.append_left_eq_self.mp hregion)

theorem Place.mem_allPieces (p : Place regions read piece) : piece ∈ allPieces regions := by
  obtain ⟨before, region, after, done, rest, rfl, hpieces, -⟩ := p
  simp [allPieces, hpieces]

/-- A region with the piece is behind all regions read. -/
theorem Place.not_before (p : Place regions read piece) {regions' : List Region}
    {done : List (List Byte)} : allPieces (p.before ++ p.region :: regions') ++ done ≠ read := by
  intro h
  have hlen := congrArg List.length (h.trans p.read_eq.symm)
  simp only [allPieces, List.flatMap_append, List.flatMap_cons, p.pieces_eq, List.length_append,
    List.length_cons] at hlen
  omega

/-- **A piece has one place.** -/
theorem Place.eq (p q : Place regions read piece) : p = q := by
  have hregions := p.regions_eq.symm.trans q.regions_eq
  -- neither region is behind the other
  have hbefore : p.before = q.before ∧ p.region :: p.after = q.region :: q.after := by
    rcases List.append_eq_append_iff.mp hregions with ⟨c, hq, hp⟩ | ⟨c, hp, hq⟩
    · cases c with
      | nil => exact ⟨(hq.trans (List.append_nil _)).symm, hp⟩
      | cons x c =>
        obtain rfl := (List.cons.inj hp).1
        exact absurd (hq ▸ q.read_eq) p.not_before
    · cases c with
      | nil => exact ⟨hp.trans (List.append_nil _), hq.symm⟩
      | cons x c =>
        obtain rfl := (List.cons.inj hq).1
        exact absurd (hp ▸ p.read_eq) q.not_before
  obtain ⟨hbefore, hrest⟩ := hbefore
  obtain ⟨hregion, hafter⟩ := List.cons.inj hrest
  have hdone : p.done = q.done := by
    have hread := p.read_eq.trans q.read_eq.symm
    rw [hbefore] at hread
    exact List.append_cancel_left hread
  have hbehind : p.rest = q.rest := by
    have hpieces := p.pieces_eq
    rw [hregion, q.pieces_eq, hdone] at hpieces
    exact (List.cons.inj (List.append_cancel_left hpieces)).2.symm
  cases p
  cases q
  cases hbefore
  cases hregion
  cases hafter
  cases hdone
  cases hbehind
  rfl

end Place

/-! ### The recorder -/

/-- What is in a buffer after small data were appended to it. -/
def fill (current size : ℕ) : ℕ := if current + size < maxLoggerSize then current + size else size

section Record

variable {lzo : Lzo} {l l' : Logger} {regions : List Region} {pending : List (List Byte)}

/-- Small data are behind what was pending, or begin a new buffer. -/
theorem append_small (h : l.Holds lzo regions pending) {data : Data}
    (hsmall : data.1.length < maxLoggerSize) (hok : appendBuffer lzo l data = .ok l') :
    l'.buf.length = fill l.buf.length data.1.length ∧
      ∃ regions' old, l'.Holds lzo regions' (old ++ [data.1]) ∧
        (regions' = regions ∧ old = pending ∨ regions' = regions ++ flushed pending ∧ old = []) := by
  unfold fill
  rcases h.appendBuffer_cases hok with ⟨hfits, h'⟩ | ⟨hfull, h' | ⟨hlarge, -⟩⟩
  · rw [if_pos hfits, h'.buf, ← flatten_append_singleton h.buf, List.length_append]
    exact ⟨rfl, regions, pending, h', .inl ⟨rfl, rfl⟩⟩
  · rw [if_neg (not_lt.mpr hfull), h'.buf, List.flatten_singleton]
    exact ⟨rfl, _, [], h', .inr ⟨rfl, rfl⟩⟩
  · omega

/-- All pieces are there still. -/
theorem allPieces_small {regions' : List Region} {old : List (List Byte)}
    (h : regions' = regions ∧ old = pending ∨ regions' = regions ++ flushed pending ∧ old = []) :
    allPieces regions' ++ old = allPieces regions ++ pending := by
  rcases h with ⟨rfl, rfl⟩ | ⟨rfl, rfl⟩
  · rfl
  · unfold allPieces
    rw [List.flatMap_append, List.append_nil]
    congr 1
    exact allPieces_flushed pending

/-- **Two small pieces** are in one region, whatever then comes behind the second, or the
first ends a region and the second begins the next. -/
theorem append_two (h : l.Holds lzo regions pending) {first second : Data}
    (hfirst : first.1.length < maxLoggerSize) (hsecond : second.1.length < maxLoggerSize)
    {l₁ : Logger} (hok₁ : appendBuffer lzo l first = .ok l₁)
    (hok₂ : appendBuffer lzo l₁ second = .ok l') :
    l'.buf.length = fill (fill l.buf.length first.1.length) second.1.length ∧
      ∃ regions' old, l'.Holds lzo regions' (old ++ [second.1]) ∧
        allPieces regions' ++ old = allPieces regions ++ pending ++ [first.1] ∧
        ∀ more after,
          ∃ p : Place (regions' ++ .compressed (old ++ second.1 :: more) :: after)
              (allPieces regions ++ pending) first.1,
            p.after = after ∧ p.rest = second.1 :: more ∨
              p.after = .compressed (second.1 :: more) :: after ∧ p.rest = [] := by
  obtain ⟨hlen₁, regions₁, old₁, h₁, hcases₁⟩ := append_small h hfirst hok₁
  obtain ⟨hlen₂, regions₂, old₂, h₂, hcases₂⟩ := append_small h₁ hsecond hok₂
  have hread₁ := allPieces_small hcases₁
  refine ⟨by rw [hlen₂, hlen₁], regions₂, old₂, h₂, ?_, fun more after => ?_⟩
  · rw [allPieces_small hcases₂, ← List.append_assoc, hread₁]
  · rcases hcases₂ with ⟨rfl, rfl⟩ | ⟨rfl, rfl⟩
    · exact ⟨⟨regions₂, _, after, old₁, second.1 :: more, rfl, List.append_assoc _ _ _, hread₁⟩,
        .inl ⟨rfl, rfl⟩⟩
    · have hflushed : flushed (old₁ ++ [first.1]) = [.compressed (old₁ ++ [first.1])] :=
        if_neg (List.append_ne_nil_of_right_ne_nil _ (List.cons_ne_nil _ _))
      refine ⟨⟨regions₁, .compressed (old₁ ++ [first.1]), .compressed (second.1 :: more) :: after, old₁,
        [], ?_, rfl, hread₁⟩, .inr ⟨rfl, rfl⟩⟩
      rw [hflushed, List.append_assoc]
      rfl

/-- **The frame** is behind the piece before it if it fits there. If not, it is alone in
the region behind. -/
theorem append_last {old : List (List Byte)} {second : List Byte}
    (h : l.Holds lzo regions (old ++ [second])) {frame : Data} {l₁ : Logger}
    (hok : appendBuffer lzo l frame = .ok l₁) (hflush : flushLoggerBuffer lzo l₁ = .ok l') :
    l.buf.length + frame.1.length < maxLoggerSize ∧
        l'.Holds lzo (regions ++ [.compressed (old ++ [second, frame.1])]) [] ∨
      maxLoggerSize ≤ l.buf.length + frame.1.length ∧ ∃ region after, region.pieces = [frame.1] ∧
        l'.Holds lzo (regions ++ .compressed (old ++ [second]) :: region :: after) [] := by
  have hflushed : flushed (old ++ [second]) = [.compressed (old ++ [second])] :=
    if_neg (List.append_ne_nil_of_right_ne_nil _ (List.cons_ne_nil _ _))
  rcases h.appendBuffer_cases hok with ⟨hfits, h₁⟩ | ⟨hfull, h₁ | ⟨-, h₁⟩⟩
  · have h' := h₁.flush hflush
    rw [List.append_assoc] at h'
    exact .inl ⟨hfits, h'⟩
  · have h' := h₁.flush hflush
    rw [hflushed, List.append_assoc] at h'
    exact .inr ⟨hfull, _, [], rfl, h'⟩
  · have h' := h₁.flush hflush
    rw [hflushed, List.append_assoc, List.append_assoc] at h'
    exact .inr ⟨hfull, .uncompressed frame.1, _, rfl, h'⟩

/-- **Where the three pieces are**, in the file the flush leaves: the frame is in the region
of the piece before it if it fits there, else in the region behind. -/
theorem append_three (h : l.Holds lzo regions pending) {x y z : Data} {first second frame : List Byte}
    (hx : x.1 = first) (hy : y.1 = second) (hz : z.1 = frame)
    (hfirst : first.length < maxLoggerSize) (hsecond : second.length < maxLoggerSize)
    (hrun : run lzo l [.append x, .append y, .append z, .flush] = .ok l') :
    ∃ regions', l'.Holds lzo regions' [] ∧ ∃ (p : Place regions' (allPieces regions ++ pending) first)
      (q : Place regions' (allPieces regions ++ pending ++ [first, second]) frame), q.rest = [] ∧
      (fill (fill l.buf.length first.length) second.length + frame.length < maxLoggerSize ∧
          (p.after = q.after ∧ p.rest = [second, frame] ∨
            p.after = .compressed [second, frame] :: q.after ∧ p.rest = []) ∨
        maxLoggerSize ≤ fill (fill l.buf.length first.length) second.length + frame.length ∧
          q.region.pieces = [frame] ∧
          (p.after = q.region :: q.after ∧ p.rest = [second] ∨
            p.after = .compressed [second] :: q.region :: q.after ∧ p.rest = [])) := by
  subst hx hy hz
  obtain ⟨l₁, hok₁, hrun⟩ := bind_eq_ok.mp hrun
  obtain ⟨l₂, hok₂, hrun⟩ := bind_eq_ok.mp hrun
  obtain ⟨l₃, hok₃, hrun⟩ := bind_eq_ok.mp hrun
  obtain ⟨l₄, hflush, hrun⟩ := bind_eq_ok.mp hrun
  cases hrun
  obtain ⟨hfill, regions₂, old, h₂, hread, hplace⟩ := append_two h hfirst hsecond hok₁ hok₂
  rw [← hfill]
  have hread₂ : allPieces regions₂ ++ (old ++ [y.1]) =
      allPieces regions ++ pending ++ [x.1, y.1] := by
    rw [← List.append_assoc, hread, List.append_assoc]
    rfl
  rcases append_last h₂ hok₃ hflush with ⟨hfits, h'⟩ | ⟨hfull, region, after, hpieces, h'⟩
  · obtain ⟨p, hp⟩ := hplace [z.1] []
    have hregion : (Region.compressed (old ++ [y.1, z.1])).pieces =
        (old ++ [y.1]) ++ [z.1] := by simp [Region.pieces]
    exact ⟨_, h', p, ⟨regions₂, _, [], _, [], rfl, hregion, hread₂⟩, rfl, .inl ⟨hfits, hp⟩⟩
  · obtain ⟨p, hp⟩ := hplace [] (region :: after)
    have hregions : regions₂ ++ .compressed (old ++ [y.1]) :: region :: after =
        (regions₂ ++ [.compressed (old ++ [y.1])]) ++ region :: after := by simp
    have hread' : allPieces (regions₂ ++ [.compressed (old ++ [y.1])]) ++ [] =
        allPieces regions ++ pending ++ [x.1, y.1] := by
      rw [allPieces_append, List.append_nil]
      exact hread₂
    exact ⟨_, h', p, ⟨_, region, after, [], [], hregions, hpieces, hread'⟩, rfl,
      .inr ⟨hfull, hpieces, hp⟩⟩

end Record

/-! ### The replayer -/

section Replay

variable {lzo : Lzo} {stack : ℕ → Byte} {s : Proc}

/-- What was read in full is what was recorded. -/
@[simp] theorem filled_length (stack : ℕ → Byte) (data : List Byte) :
    filled stack data.length data = data := by
  refine List.ext_getElem (by simp [filled]) fun i h₁ h₂ => ?_
  simp [filled, h₂]

/-- `signal_inst` consumes the record of its signal. -/
theorem run_signalInst {file rest : List Byte} (addr terminal signum : Word) :
    (signalInst lzo stack terminal signum).run
        (⟨file, signalRecord addr terminal signum ++ rest⟩, s) = .ok () (⟨file, rest⟩, s) := by
  have hread : (readLog lzo 16).run ⟨file, signalRecord addr terminal signum ++ rest⟩ = _ :=
    run_readLog_append lzo (signalRecord addr terminal signum) rest
  have hfilled : filled stack 16 (signalRecord addr terminal signum) = _ :=
    filled_length stack (signalRecord addr terminal signum)
  have hwords : leWords 4 (signalRecord addr terminal signum) = _ :=
    leWords_leBytesList [signalMark, addr, terminal, signum]
  unfold signalInst
  rw [run_bind_ok (run_liftRead_ok hread)]
  simp only [hfilled, hwords]
  rw [if_pos ⟨rfl, rfl⟩]
  rfl

/-- **`setup_sighandler`** with the structure ahead: what it writes is what its second read
got. -/
theorem run_setupSighandler {r r' : Reader} {file more data : List Byte} {regs : PushaRegs}
    {size handler : Word} (hhandler : handler ≠ 0)
    (hpeek : (readaheadLogPtr lzo).run r =
      .ok signalMark2 ⟨file, signalRecord2 regs size handler ++ more⟩)
    (hdata : (readLog lzo size.toNat).run ⟨file, more⟩ = .ok data r') :
    (setupSighandler lzo stack).run (r, s) =
      .ok () (r', ⟨store s.mem regs.esp (filled stack size.toNat data), regs, handler⟩) := by
  have hread : (readLog lzo 48).run ⟨file, signalRecord2 regs size handler ++ more⟩ = _ :=
    run_readLog_append lzo (signalRecord2 regs size handler) more
  have hfilled : filled stack 48 (signalRecord2 regs size handler) = _ :=
    filled_length stack (signalRecord2 regs size handler)
  have hwords : leWords 12 (signalRecord2 regs size handler) = _ :=
    leWords_leBytesList (signalMark2 :: regs.words ++ [size, handler])
  unfold setupSighandler
  rw [run_bind_ok (run_liftRead_ok hpeek), if_neg (not_not.mpr rfl), run_bind_ok (run_liftRead_ok hread)]
  simp only [hfilled, hwords]
  have hsize : ((signalMark2 :: regs.words ++ [size, handler]).getD 10 0).toNat = size.toNat := rfl
  rw [hsize, run_bind_ok (run_liftRead_ok hdata)]
  have heip : (if handler ≠ 0 then handler else s.eip) = handler := if_pos hhandler
  show EStateM.Result.ok () (r', Proc.mk _ _ (if handler ≠ 0 then handler else s.eip)) = _
  rw [heip]
  rfl

/-- Behind the first of two pieces, a look ahead finds the second and is in its region. -/
theorem readaheadLogPtr_behind {regions after : List Region} {read pieces : List (List Byte)}
    {first more : List Byte} {word : Word} (p : Place regions read first)
    (hsized : ∀ region ∈ regions, region.Sized lzo)
    (hp : p.after = after ∧ p.rest = (leBytes word ++ more) :: pieces ∨
      p.after = .compressed ((leBytes word ++ more) :: pieces) :: after ∧ p.rest = [])
    (tail : List Byte) :
    (readaheadLogPtr lzo).run (p.behind lzo tail) =
      .ok word ⟨encodeRegions lzo after ++ tail, leBytes word ++ more ++ pieces.flatten⟩ := by
  have hlook : (readaheadLog lzo 4).run ⟨encodeRegions lzo after ++ tail, _⟩ = _ :=
    run_readaheadLog_append lzo (leBytes word) (more ++ pieces.flatten)
  have hpeek := run_readaheadLogPtr hlook
  rw [← List.append_assoc] at hpeek
  unfold Place.behind
  rcases hp with ⟨hafter, hrest⟩ | ⟨hafter, hrest⟩
  · rw [hafter, hrest]
    exact hpeek
  · have hmem : Region.compressed ((leBytes word ++ more) :: pieces) ∈ regions := by
      rw [p.regions_eq, hafter]
      simp
    have hnext := nextRegion_encode lzo (hsized _ hmem) (encodeRegions lzo after ++ tail) []
    rw [hafter, hrest, encodeRegions_cons, List.append_assoc]
    refine Eq.trans ?_ hpeek
    exact run_bind_congr (run_readaheadLog_next lzo (by decide) (by simp) hnext)

section Setup

variable {regions : List Region} {read read' : List (List Byte)} {d : Delivery} {tpd : Tpd}
  {frame : List Byte}

/-- **In one region**, the frame is behind the structure and is read with it. -/
theorem setupSighandler_together (hhandler : (tpd.sigactions d.num).saHandler ≠ 0)
    (hsize : frame.length = d.frameSz.toNat) (hsized : ∀ region ∈ regions, region.Sized lzo)
    (p : Place regions read (firstPiece d)) (q : Place regions read' frame)
    (hp : p.after = q.after ∧ p.rest = [secondPiece d tpd, frame] ∨
      p.after = .compressed [secondPiece d tpd, frame] :: q.after ∧ p.rest = [])
    (hq : q.rest = []) (tail : List Byte) :
    (setupSighandler lzo stack).run (p.behind lzo tail, s) =
      .ok () (q.behind lzo tail, entered d tpd frame s) := by
  have hpeek := readaheadLogPtr_behind p hsized hp tail
  have hdata : (readLog lzo d.frameSz.toNat).run ⟨encodeRegions lzo q.after ++ tail, frame ++ []⟩ =
      .ok frame ⟨encodeRegions lzo q.after ++ tail, []⟩ := by
    rw [← hsize, run_readLog_append]
  have hsetup : (setupSighandler lzo stack).run (p.behind lzo tail, s) = _ :=
    run_setupSighandler hhandler hpeek hdata
  rw [hsetup, ← hsize, filled_length]
  unfold Place.behind
  rw [hq]
  rfl

/-- **In two regions**, the read of the frame only loads its region: the reader stays
before the frame. -/
theorem setupSighandler_apart (hhandler : (tpd.sigactions d.num).saHandler ≠ 0)
    (hsize : frame.length = d.frameSz.toNat) (hframe : frame ≠ [])
    (hsized : ∀ region ∈ regions, region.Sized lzo) {region : Region}
    (hregion : region.pieces = [frame])
    (p : Place regions read (firstPiece d)) (q : Place regions read' frame)
    (hp : p.after = region :: q.after ∧ p.rest = [secondPiece d tpd] ∨
      p.after = .compressed [secondPiece d tpd] :: region :: q.after ∧ p.rest = [])
    (hq : q.rest = []) (tail : List Byte) :
    (setupSighandler lzo stack).run (p.behind lzo tail, s) =
      .ok () (q.ahead lzo tail, entered d tpd (filled stack frame.length []) s) := by
  have hpeek := readaheadLogPtr_behind p hsized hp tail
  have hmem : region ∈ regions := by
    rw [p.regions_eq]
    rcases hp with ⟨hafter, -⟩ | ⟨hafter, -⟩ <;> simp [hafter]
  have hnext := nextRegion_encode lzo (hsized region hmem) (encodeRegions lzo q.after ++ tail) []
  rw [← List.append_assoc, ← encodeRegions_cons] at hnext
  have hdata := run_readLog_next lzo (hsize ▸ List.length_pos_of_ne_nil hframe) hnext
  have hsetup : (setupSighandler lzo stack).run (p.behind lzo tail, s) = _ :=
    run_setupSighandler hhandler hpeek hdata
  rw [hsetup, ← hsize]
  unfold Place.ahead Region.data
  rw [hq, hregion]
  rfl

end Setup

end Replay

/-- **A frame is replayed intact exactly when it fits the buffer behind its structure.**
Whatever the logger held before, and whatever the file goes on with: `signal_inst`
consumes the record of the signal, and then `setup_sighandler` makes the process what it
was and leaves the reader behind the frame, just if the frame was no reason to flush. -/
theorem frame_replayed_iff (lzo : Lzo) (stack : ℕ → Byte) {l l' : Logger} {regions : List Region}
    {pending : List (List Byte)} (h : l.Holds lzo regions pending) {d : Delivery} {tpd : Tpd}
    (hhandler : (tpd.sigactions d.num).saHandler ≠ 0) {frame : List Byte}
    (hsize : frame.length = d.frameSz.toNat) {ops : List Op}
    (hops : List.Forall₂ (LogsAs frame) (signalHandler d tpd).2.2 ops)
    (hrun : run lzo l ops = .ok l') :
    ∃ regions', l'.Holds lzo regions' [] ∧
      Nonempty (Place regions' (allPieces regions ++ pending) (firstPiece d)) ∧
      Nonempty (Place regions' (allPieces regions ++ pending ++ [firstPiece d, secondPiece d tpd]) frame) ∧
      ∀ (p : Place regions' (allPieces regions ++ pending) (firstPiece d))
        (q : Place regions' (allPieces regions ++ pending ++ [firstPiece d, secondPiece d tpd]) frame)
        (tail : List Byte) (s : Proc),
        (signalInst lzo stack signalHandlerMark (BitVec.ofNat 32 (d.num + 1))).run
            (p.ahead lzo tail, s) = .ok () (p.behind lzo tail, s) ∧
          ((setupSighandler lzo stack).run (p.behind lzo tail, s) =
              .ok () (q.behind lzo tail, entered d tpd frame s) ↔
            fill (fill l.buf.length 16) 48 + frame.length < maxLoggerSize) := by
  obtain ⟨x, y, z, rfl, hx, hy, hz⟩ := logsAs_cases hops
  have hfirst : (firstPiece d).length = 16 := length_leBytesList _
  have hsecond : (secondPiece d tpd).length = 48 := length_leBytesList _
  obtain ⟨regions', h', p₀, q₀, hq₀, hcases⟩ := append_three h (show x.1 = firstPiece d from hx)
    (show y.1 = secondPiece d tpd from hy) hz (hfirst.trans_lt (by decide))
    (hsecond.trans_lt (by decide)) hrun
  refine ⟨regions', h', ⟨p₀⟩, ⟨q₀⟩, fun p q tail s => ⟨run_signalInst _ _ _, ?_⟩⟩
  obtain rfl := p.eq p₀
  obtain rfl := q.eq q₀
  rw [hfirst, hsecond] at hcases
  rcases hcases with ⟨hfits, hp⟩ | ⟨hfull, hregion, hp⟩
  · exact iff_of_true (setupSighandler_together hhandler hsize h'.sized p q hp hq₀ tail) hfits
  · have hframe : frame ≠ [] := h'.nonempty frame (List.mem_append_left _ q.mem_allPieces)
    refine iff_of_false ?_ (not_lt.mpr hfull)
    rw [setupSighandler_apart hhandler hsize hframe h'.sized hregion p q hp hq₀ tail]
    intro hsame
    injection hsame with _ hst
    exact q.ahead_ne_behind hframe (congrArg Prod.fst hst)

/-- A frame of 732 bytes. -/
def someFrame : List Byte := List.replicate 732 0xaa

theorem length_someFrame : someFrame.length = 732 := List.length_replicate

/-- What `signal_handler` logs of `someDelivery`. -/
def someSignalOps : List Op :=
  [.append ⟨firstPiece someDelivery, by decide⟩,
    .append ⟨secondPiece someDelivery interruptedRead.tpd, by decide⟩,
    .append ⟨someFrame, by rw [length_someFrame]; decide⟩, .flush]

theorem someSignalOps_logged :
    List.Forall₂ (LogsAs someFrame) (signalHandler someDelivery interruptedRead.tpd).2.2 someSignalOps :=
  .cons rfl (.cons rfl (.cons rfl (.cons trivial .nil)))

theorem someHandler_ne_zero : (interruptedRead.tpd.sigactions someDelivery.num).saHandler ≠ 0 := by
  decide

/-- With an empty buffer, the frame comes back. -/
theorem frame_replayed_iff_someDelivery :
    ∃ l' regions' p q, run endMarked (initLogger ⟨0x10000, by decide⟩) someSignalOps = .ok l' ∧
      l'.Holds endMarked regions' [] ∧
      ∀ tail s, (setupSighandler endMarked fun _ => 0).run
          (Place.behind (p : Place regions' ([] ++ []) (firstPiece someDelivery)) endMarked tail, s) =
        .ok () (Place.behind (q : Place regions' ([] ++ [] ++
            [firstPiece someDelivery, secondPiece someDelivery interruptedRead.tpd]) someFrame)
            endMarked tail,
          entered someDelivery interruptedRead.tpd someFrame s) := by
  obtain ⟨l', hrun, -⟩ := exists_ok (b := true)
    (x := run endMarked (initLogger ⟨0x10000, by decide⟩) someSignalOps)
    (fun _ => true) (by decide +kernel)
  obtain ⟨regions', h', ⟨p⟩, ⟨q⟩, hreplay⟩ := frame_replayed_iff endMarked (fun _ => 0)
    (holds_init endMarked ⟨0x10000, by decide⟩) someHandler_ne_zero length_someFrame
    someSignalOps_logged hrun
  refine ⟨l', regions', p, q, hrun, h', fun tail s => (hreplay p q tail s).2.mpr ?_⟩
  rw [length_someFrame]
  decide

/-- Every logger takes the pieces. -/
theorem exists_run_someSignalOps {l : Logger} {regions : List Region} {pending : List (List Byte)}
    (h : l.Holds endMarked regions pending) : ∃ l', run endMarked l someSignalOps = .ok l' := by
  have hout : ∀ data, endMarked.compress data ≠ [] := fun data => by simp [endMarked]
  obtain ⟨l₁, hok₁⟩ := h.exists_appendBuffer (hout _) ⟨firstPiece someDelivery, by decide⟩
    (by decide) (by decide)
  obtain ⟨_, _, h₁, -⟩ := h.appendBuffer hok₁
  obtain ⟨l₂, hok₂⟩ := h₁.exists_appendBuffer (hout _)
    ⟨secondPiece someDelivery interruptedRead.tpd, by decide⟩ (by decide) (by decide)
  obtain ⟨_, _, h₂, -⟩ := h₁.appendBuffer hok₂
  obtain ⟨l₃, hok₃⟩ := h₂.exists_appendBuffer (hout _)
    ⟨someFrame, by rw [length_someFrame]; decide⟩ (by rw [length_someFrame]; decide)
    (by rw [length_someFrame]; decide)
  obtain ⟨_, _, h₃, -⟩ := h₂.appendBuffer hok₃
  obtain ⟨l', hflush⟩ := h₃.exists_flush (hout _)
  exact ⟨l', run_cons hok₁ (run_cons hok₂ (run_cons hok₃ (run_cons hflush rfl)))⟩

/-- **The frame is lost** when it does not fit: the log goes on in the next region, and
what is written to the stack is what the gdbserver's own stack held. The reader stays
before the frame. -/
theorem someDelivery_split {l : Logger} {regions : List Region} {pending : List (List Byte)}
    (h : l.Holds endMarked regions pending)
    (hfull : maxLoggerSize ≤ fill (fill l.buf.length 16) 48 + 732) :
    ∃ l' regions' p q, run endMarked l someSignalOps = .ok l' ∧ l'.Holds endMarked regions' [] ∧
      ∀ s, (setupSighandler endMarked fun _ => 0).run
          (Place.behind (p : Place regions' (allPieces regions ++ pending) (firstPiece someDelivery))
            endMarked [], s) =
        .ok () (Place.ahead (q : Place regions' (allPieces regions ++ pending ++
            [firstPiece someDelivery, secondPiece someDelivery interruptedRead.tpd]) someFrame)
            endMarked [],
          entered someDelivery interruptedRead.tpd (filled (fun _ => 0) someFrame.length []) s) ∧
        q.ahead endMarked [] ≠ q.behind endMarked [] := by
  obtain ⟨l', hrun⟩ := exists_run_someSignalOps h
  have hne : someFrame ≠ [] := by
    rw [← List.length_pos_iff, length_someFrame]
    decide
  have hfirst : (firstPiece someDelivery).length = 16 := rfl
  have hsecond : (secondPiece someDelivery interruptedRead.tpd).length = 48 := rfl
  obtain ⟨regions', h', p, q, hq, hcases⟩ := append_three h rfl rfl rfl
    (hfirst.trans_lt (by decide)) (hsecond.trans_lt (by decide)) hrun
  rcases hcases with ⟨hfits, -⟩ | ⟨-, hregion, hp⟩
  · rw [hfirst, hsecond, length_someFrame] at hfits
    exact absurd hfits (not_lt.mpr hfull)
  · exact ⟨l', regions', p, q, hrun, h', fun s => ⟨setupSighandler_apart someHandler_ne_zero
      length_someFrame hne h'.sized hregion p q hp hq [], q.ahead_ne_behind hne⟩⟩

/-- A logger with 80 bytes of its buffer left. -/
def nearlyFull : Logger := ⟨⟨0x10000, by decide⟩, List.replicate (maxLoggerSize - 80) 0, []⟩

theorem length_nearlyFull : nearlyFull.buf.length = maxLoggerSize - 80 := List.length_replicate

theorem holds_nearlyFull : nearlyFull.Holds endMarked [] [nearlyFull.buf] := by
  have hpos : 0 < nearlyFull.buf.length := by
    rw [length_nearlyFull]
    decide
  refine ⟨rfl, (List.flatten_singleton).symm, fun _ h => (List.not_mem_nil h).elim, ?_, ?_⟩
  · intro piece hpiece
    rw [List.mem_singleton.mp hpiece]
    exact List.ne_nil_of_length_pos hpos
  · rw [length_nearlyFull]
    decide

/-- Behind 80 free bytes the two structures fit, and the frame does not. -/
theorem frame_split :
    ∃ l' regions' p q, run endMarked nearlyFull someSignalOps = .ok l' ∧
      l'.Holds endMarked regions' [] ∧
      ∀ s, (setupSighandler endMarked fun _ => 0).run
          (Place.behind (p : Place regions' (allPieces [] ++ [nearlyFull.buf])
            (firstPiece someDelivery)) endMarked [], s) =
        .ok () (Place.ahead (q : Place regions' (allPieces [] ++ [nearlyFull.buf] ++
            [firstPiece someDelivery, secondPiece someDelivery interruptedRead.tpd]) someFrame)
            endMarked [],
          entered someDelivery interruptedRead.tpd (filled (fun _ => 0) someFrame.length []) s) ∧
        q.ahead endMarked [] ≠ q.behind endMarked [] := by
  refine someDelivery_split holds_nearlyFull ?_
  rw [length_nearlyFull]
  decide

end Snitchaser.Replay
