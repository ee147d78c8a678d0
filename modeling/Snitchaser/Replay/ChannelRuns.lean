import Snitchaser.Foundation.Runs
import Snitchaser.Replay.DataChannel

/-!
# Runs of the data channel

What follows for whole runs from the invariant of `DataChannel`, that every step keeps and
that leaves less to do after each.

* `Inv.exists_step`: until the host has returned or thrown, one of the two can step. So a run
  that goes on as long as it can ends there.
* `host_agrees`: the host of the channel is `syscallReadCycle`, as the replay of one
  instruction uses it.
* `channel_exact_iff`: however the two interleave, the target gets for each request exactly
  the next bytes of the log, nothing is cut, and behind `syscall_read_cycle` nothing is left
  in flight — if and only if no empty region of the log stands before the last byte that is
  asked for. At one, `read_log_full` throws (`Log.Supply`).
-/

namespace Snitchaser.Replay.DataChannel

open Foundation Log Relation

section Runs

variable {lzo : Lzo} {full : ℕ → Bool} {lens : List Word} {bytes : List Byte} {s s' : State}

/-- A target that has nothing to tell has finished. -/
theorem TargetPc.eq_finished {pc : TargetPc} (h : pc.untold = []) : pc = .finished := by
  cases pc with
  | start todo => cases h
  | request todo => cases todo <;> cases h
  | length len todo => cases h
  | recv len todo got => cases todo <;> cases h
  | finished => rfl

/-- The target can tell its next message, if the way is free. -/
theorem Inv.exists_tell (h : Inv lzo lens bytes s) (hfull : full s.toHost.length = false)
    (huntold : s.target.untold ≠ []) (hcurrent : s.target.current = 0) :
    ∃ s', DataChannel.targetStep full s = some s' := by
  cases hpc : s.target with
  | start todo => exact ⟨_, by simp only [DataChannel.targetStep, hpc, tell, hfull]; rfl⟩
  | request todo =>
    cases todo with
    | nil => exact ⟨_, by simp only [DataChannel.targetStep, hpc, tell, hfull]; rfl⟩
    | cons len todo => exact ⟨_, by simp only [DataChannel.targetStep, hpc, tell, hfull]; rfl⟩
  | length len todo => exact ⟨_, by simp only [DataChannel.targetStep, hpc, tell, hfull]; rfl⟩
  | recv len todo got =>
    have hgot := h.missing len todo got hpc
    rw [hpc] at hcurrent
    have hzero : len.toNat = 0 := hcurrent
    omega
  | finished =>
    rw [hpc] at huntold
    exact absurd rfl huntold

/-- Only a target in `sock_recv` waits for bytes. -/
theorem TargetPc.eq_recv {pc : TargetPc} (h : pc.current ≠ 0) : ∃ len todo got, pc = .recv len todo got := by
  cases pc with
  | recv len todo got => exact ⟨len, todo, got, rfl⟩
  | start todo => exact absurd rfl h
  | request todo => exact absurd rfl h
  | length len todo => exact absurd rfl h
  | finished => exact absurd rfl h

/-- The target can take what is in flight. -/
theorem exists_recv (hne : s.toTarget ≠ []) (hcurrent : s.target.current ≠ 0) :
    ∃ s', targetStep full s = some s' := by
  obtain ⟨datagram, queue, hqueue⟩ := List.exists_cons_of_ne_nil hne
  obtain ⟨len, todo, got, hpc⟩ := TargetPc.eq_recv hcurrent
  exact ⟨_, by simp only [targetStep, hpc, hqueue]; rfl⟩

theorem Inv.got_lt (h : Inv lzo lens bytes s) (hcurrent : s.target.current ≠ 0) :
    s.target.got.length < s.target.current := by
  obtain ⟨len, todo, got, hpc⟩ := TargetPc.eq_recv hcurrent
  rw [hpc]
  exact h.missing len todo got hpc

theorem Inv.toTarget_ne_nil_iff (h : Inv lzo lens bytes s) : s.toTarget ≠ [] ↔ 0 < s.toTarget.flatten.length := by
  rw [List.length_pos_iff, ne_eq, ne_eq, not_iff_not, List.flatten_eq_nil_iff]
  constructor
  · intro hnil datagram hmem
    rw [hnil] at hmem
    cases hmem
  · intro hall
    exact List.eq_nil_iff_forall_not_mem.mpr fun datagram hmem => h.datagrams datagram hmem (hall datagram hmem)

/-- **Behind `syscall_read_cycle`** the target has finished, and nothing is in flight. -/
theorem Inv.returned (h : Inv lzo lens bytes s) (hret : s.host = .returned) :
    s.target = .finished ∧ s.toHost = [] ∧ s.toTarget = [] := by
  obtain ⟨told, owed, htold, hhears, hbalance⟩ := h.protocol
  rw [hret] at hhears
  generalize hexpected : told ++ s.target.untold = expected at hhears
  cases hhears
  obtain ⟨rfl, huntold⟩ := List.append_eq_nil_iff.mp hexpected
  have hfinished := TargetPc.eq_finished huntold
  refine ⟨hfinished, htold, not_not.mp fun hne => ?_⟩
  have hpos := h.toTarget_ne_nil_iff.mp hne
  simp only [hfinished, TargetPc.current] at hbalance
  omega

theorem Hears.expected_ne_nil {short : Prop} {what : Awaited} {got : List Byte} {expected : List Message} {owed : ℕ}
    (h : Hears short (.recv what got) expected owed) : owed = 0 ∧ expected ≠ [] := by
  cases h with
  | beginMark lens => exact ⟨rfl, List.cons_ne_nil _ _⟩
  | mark lens => cases lens <;> exact ⟨rfl, List.cons_ne_nil _ _⟩
  | size len lens => exact ⟨rfl, List.cons_ne_nil _ _⟩

/-- **No deadlock**: until the host has returned, or has thrown, one of the two can step. -/
theorem Inv.exists_step (h : Inv lzo lens bytes s) (hfull : full 0 = false)
    (hret : s.host ≠ .returned) (hthrown : ∀ e, s.host ≠ .thrown e) : ∃ s', Step lzo full s s' := by
  obtain ⟨told, owed, htold, hhears, hbalance⟩ := h.protocol
  have htarget : (∃ s', DataChannel.targetStep full s = some s') → ∃ s', Step lzo full s s' :=
    fun ⟨s', hstep⟩ => ⟨s', .inr hstep⟩
  cases hpc : s.host with
  | returned => exact absurd hpc hret
  | thrown e => exact absurd hpc (hthrown e)
  | read left =>
    cases hrun : (readLogFull lzo (min left sendBufSz) false).run s.reader with
    | ok data r => exact ⟨_, .inl (by simp only [DataChannel.hostStep, hpc, hrun]; rfl)⟩
    | error e r => exact ⟨_, .inl (by simp only [DataChannel.hostStep, hpc, hrun]; rfl)⟩
  | send data left =>
    by_cases hwait : full s.toTarget.length = true
    · -- What the direction is full of, the target takes.
      have hne : s.toTarget ≠ [] := by
        intro hnil
        simp [hnil, hfull] at hwait
      have hpos := h.toTarget_ne_nil_iff.mp hne
      exact htarget (exists_recv hne (by omega))
    · exact ⟨_, .inl (by simp only [DataChannel.hostStep, hpc, hwait]; rfl)⟩
  | recv what got =>
    rw [hpc] at hhears
    obtain ⟨howed, hexpected⟩ := hhears.expected_ne_nil
    cases told with
    | cons m told => exact ⟨_, .inl (by simp only [DataChannel.hostStep, hpc, htold, List.map_cons]; rfl)⟩
    | nil =>
      -- Nothing is told: the target has something to tell, or it waits for what is in flight.
      rw [howed, weight_nil] at hbalance
      by_cases hcurrent : s.target.current = 0
      · exact htarget (h.exists_tell (by rw [htold]; exact hfull) hexpected hcurrent)
      · have hgot := h.got_lt hcurrent
        exact htarget (exists_recv (h.toTarget_ne_nil_iff.mpr (by omega)) hcurrent)

end Runs

/-! ### The host alone -/

/-- What the host has still to do, if it hears these words. -/
def HostPc.rest (lzo : Lzo) : HostPc → List Word → ReadM Unit
  | .recv .beginMark _, inbox => do
    let _ ← syscallReadCycle lzo inbox
    return
  | .recv .mark _, inbox => do
    let _ ← readCycle lzo inbox
    return
  | .recv .size _, inbox => do
    let _ ← readCycle lzo (syscallReadMark :: inbox)
    return
  | .read left, inbox => do
    let _ ← sendData lzo left
    let _ ← readCycle lzo inbox
    return
  | .send _ left, inbox => do
    let _ ← sendData lzo left
    let _ ← readCycle lzo inbox
    return
  | .returned, _ => pure ()
  | .thrown e, _ => throw e

/-- The words of requests of these lengths. -/
def words (lens : List Word) : List Word := (Message.start :: asked lens).map Message.word

section Agree

variable {lzo : Lzo} {full : ℕ → Bool} {r : Reader} {s s' : State}

theorem rest_answer (lzo : Lzo) (left : ℕ) (inbox : List Word) :
    (answer left).rest lzo inbox = (HostPc.read left).rest lzo inbox := by
  unfold answer
  split_ifs with hleft
  · rw [hleft, HostPc.rest, HostPc.rest, sendData, dif_pos rfl, pure_bind]
  · rfl

/-- Whatever word comes, `syscall_read_cycle` goes on as the host does. -/
theorem rest_recv (lzo : Lzo) (what : Awaited) (word : Word) (inbox : List Word) :
    (HostPc.recv what []).rest lzo (word :: inbox) = (heard what word).rest lzo inbox := by
  cases what with
  | beginMark =>
    rw [heard, HostPc.rest, syscallReadCycle]
    split_ifs
    · rfl
    · rfl
  | mark =>
    rw [heard, HostPc.rest]
    by_cases hread : word = syscallReadMark
    · rw [hread, if_pos rfl]
      rfl
    · have hcycle : readCycle lzo (word :: inbox) =
          if word = syscallReadEndMark then pure []
          else throw (.throw .syscallReplayer "wait for SYSCALL_READ_END_MARK but receive -x%x") := by
        rw [readCycle.eq_def]
        exact if_neg hread
      rw [if_neg hread, hcycle]
      split_ifs
      · rfl
      · rfl
  | size =>
    rw [heard, rest_answer, HostPc.rest, HostPc.rest, readCycle_request]
    simp only [bind_assoc, pure_bind]

/-- The host, hearing what is in flight and what is untold, ends as `syscall_read_cycle` ends
from the beginning. -/
def Resumes (lzo : Lzo) (lens : List Word) (r : Reader) (s : State) : Prop :=
  ∃ inFlight, s.toHost = inFlight.map leBytes ∧
    (s.host.rest lzo (inFlight ++ s.target.untold.map Message.word)).run s.reader =
      ((HostPc.recv .beginMark []).rest lzo (words lens)).run r

theorem receive_eq (len : Word) (lens : List Word) (got : List Byte) (s : State) :
    (receive len lens got s).host = s.host ∧ (receive len lens got s).reader = s.reader ∧
      (receive len lens got s).toHost = s.toHost ∧ (receive len lens got s).target.untold = asked lens := by
  unfold receive
  split_ifs
  · exact ⟨rfl, rfl, rfl, rfl⟩
  · exact ⟨rfl, rfl, rfl, rfl⟩

/-- For the host, a step of the target only moves words from the untold into flight. -/
theorem targetStep_words (hstep : targetStep full s = some s') :
    s'.host = s.host ∧ s'.reader = s.reader ∧ ∃ ms : List Message,
      s'.toHost = s.toHost ++ ms.map (fun m => leBytes m.word) ∧ s.target.untold = ms ++ s'.target.untold := by
  unfold targetStep at hstep
  split at hstep
  case h_1 lens hpc =>
    obtain rfl := tell_eq_some hstep
    exact ⟨rfl, rfl, [.start], rfl, by rw [hpc]; rfl⟩
  case h_2 hpc =>
    obtain rfl := tell_eq_some hstep
    exact ⟨rfl, rfl, [.stop], rfl, by rw [hpc]; rfl⟩
  case h_3 len lens hpc =>
    obtain rfl := tell_eq_some hstep
    exact ⟨rfl, rfl, [.read], rfl, by rw [hpc]; rfl⟩
  case h_4 len lens hpc =>
    obtain rfl := tell_eq_some hstep
    obtain ⟨hhost, hreader, htoHost, huntold⟩ := receive_eq len lens [] { s with toHost := s.toHost ++ [leBytes len] }
    exact ⟨hhost, hreader, [.len len], htoHost, by rw [huntold, hpc]; rfl⟩
  case h_5 len lens got hpc =>
    split at hstep
    · cases hstep
    · cases hstep
      obtain ⟨hhost, hreader, htoHost, huntold⟩ := receive_eq len lens _ _
      exact ⟨hhost, hreader, [], by rw [htoHost]; simp, by rw [huntold, hpc]; rfl⟩
  case h_6 hpc => cases hstep

/-- For the host, its own step is the next one of `syscall_read_cycle`. -/
theorem hostStep_rest {lens : List Word} {bytes : List Byte} (h : Inv lzo lens bytes s)
    (hstep : hostStep lzo full s = some s') (hresumes : Resumes lzo lens r s) : Resumes lzo lens r s' := by
  obtain ⟨inFlight, hinFlight, hrun⟩ := hresumes
  obtain ⟨told, owed, htold, hhears, -⟩ := h.protocol
  cases hpc : s.host with
  | recv what got =>
    rw [hpc] at hhears hrun
    obtain rfl := hhears.got_eq_nil
    cases inFlight with
    | nil => simp [hostStep, hpc, hinFlight] at hstep
    | cons word inFlight =>
      rw [hostStep_recv hpc hinFlight, Option.some.injEq] at hstep
      subst hstep
      refine ⟨inFlight, rfl, ?_⟩
      rw [← hrun, List.cons_append, rest_recv]
  | read left =>
    rw [hpc] at hhears hrun
    have hsend : ∀ inbox, (HostPc.read left).rest lzo inbox =
        readLogFull lzo (min left sendBufSz) false >>= fun data =>
          (HostPc.send data (left - min left sendBufSz)).rest lzo inbox := by
      intro inbox
      rw [HostPc.rest, sendData, dif_neg hhears.left_ne_zero]
      simp only [bind_assoc, pure_bind]
      rfl
    rw [hsend] at hrun
    rw [hostStep, hpc] at hstep
    cases hread : (readLogFull lzo (min left sendBufSz) false).run s.reader with
    | ok data r' =>
      simp only [hread, Option.some.injEq] at hstep
      subst hstep
      exact ⟨inFlight, hinFlight, (run_bind_ok hread).symm.trans hrun⟩
    | error e r' =>
      simp only [hread, Option.some.injEq] at hstep
      subst hstep
      exact ⟨inFlight, hinFlight, (run_bind_error hread).symm.trans hrun⟩
  | send data left =>
    rw [hostStep, hpc] at hstep
    simp only [Option.ite_none_left_eq_some, Option.some.injEq] at hstep
    obtain ⟨-, rfl⟩ := hstep
    refine ⟨inFlight, hinFlight, ?_⟩
    rw [← hrun, hpc, rest_answer]
    rfl
  | returned => simp [hostStep, hpc] at hstep
  | thrown e => simp [hostStep, hpc] at hstep

theorem Resumes.step {lens : List Word} {bytes : List Byte} (h : Inv lzo lens bytes s)
    (hstep : Step lzo full s s') (hresumes : Resumes lzo lens r s) : Resumes lzo lens r s' := by
  rcases hstep with hstep | hstep
  · exact hostStep_rest h hstep hresumes
  · obtain ⟨inFlight, hinFlight, hrun⟩ := hresumes
    obtain ⟨hhost, hreader, ms, htoHost, huntold⟩ := targetStep_words hstep
    refine ⟨inFlight ++ ms.map Message.word, ?_, ?_⟩
    · rw [htoHost, hinFlight, List.map_append, List.map_map]
      rfl
    · rw [hhost, hreader, ← hrun, huntold, List.map_append, List.append_assoc]

/-- **The host of the channel is `syscall_read_cycle`** on the words of the target: where it
returns or throws, so does that, with the same rest of the log. -/
theorem host_agrees {lens : List Word} {bytes : List Byte} (hpos : ∀ len ∈ lens, len ≠ 0)
    (hr : r.Supplies lzo bytes) (hreach : ReflTransGen (Step lzo full) (start lens r) s) :
    (s.host = .returned → ∃ sent, (syscallReadCycle lzo (words lens)).run r = .ok sent s.reader) ∧
      ∀ e, s.host = .thrown e → (syscallReadCycle lzo (words lens)).run r = .error e s.reader := by
  have hkeep : ∀ t t', Inv lzo lens bytes t ∧ Resumes lzo lens r t → Step lzo full t t' →
      Inv lzo lens bytes t' ∧ Resumes lzo lens r t' :=
    fun t t' h hstep => ⟨(h.1.step hstep).1, h.2.step h.1 hstep⟩
  obtain ⟨-, inFlight, -, hrun⟩ := inv_of_reach hkeep hreach ⟨inv_start hpos hr, [], rfl, rfl⟩
  have hcycle : ((HostPc.recv .beginMark []).rest lzo (words lens)).run r =
      (syscallReadCycle lzo (words lens) >>= fun _ => pure ()).run r := rfl
  rw [hcycle] at hrun
  cases hx : (syscallReadCycle lzo (words lens)).run r with
  | ok sent r' =>
    rw [run_bind_ok hx] at hrun
    constructor
    · intro hret
      rw [hret] at hrun
      cases hrun
      exact ⟨sent, rfl⟩
    · intro e he
      rw [he] at hrun
      cases hrun
  | error e' r' =>
    rw [run_bind_error hx] at hrun
    constructor
    · intro hret
      rw [hret] at hrun
      cases hrun
    · intro e he
      rw [he] at hrun
      cases hrun
      rfl

end Agree

/-! ### The channel is exact -/

/-- **The channel is exact**, for requests of these lengths, by a host that reads this log:
however the two interleave, they come to an end, and there the host has returned and each
request has got its part of the log; nothing else ever comes to a request, no datagram is
cut, and when the host has returned nothing is in flight. -/
structure Exact (lzo : Lzo) (full : ℕ → Bool) (lens : List Word) (log : List Byte) (r : Reader) : Prop where
  ends : Acc (fun s' s => Step lzo full s s') (start lens r)
  served : ∀ s, ReflTransGen (Step lzo full) (start lens r) s → Ended lzo full s →
    s.host = .returned ∧ s.target = .finished ∧ s.done = slices lens log
  parts : ∀ s, ReflTransGen (Step lzo full) (start lens r) s → s.done <+: slices lens log
  whole : ∀ s, ReflTransGen (Step lzo full) (start lens r) s → s.cut = false
  empty : ∀ s, ReflTransGen (Step lzo full) (start lens r) s → s.host = .returned →
    s.toHost = [] ∧ s.toTarget = []

section Exact

variable {lzo : Lzo} {full : ℕ → Bool} {lens : List Word} {bytes : List Byte} {r : Reader}

theorem inv_of_start (hpos : ∀ len ∈ lens, len ≠ 0) (hr : r.Supplies lzo bytes) {s : State}
    (hreach : ReflTransGen (Step lzo full) (start lens r) s) : Inv lzo lens bytes s :=
  inv_of_reach (fun _ _ h hstep => (h.step hstep).1) hreach (inv_start hpos hr)

/-- No run goes on for ever. -/
theorem acc_start (hpos : ∀ len ∈ lens, len ≠ 0) (hr : r.Supplies lzo bytes) :
    Acc (fun s' s => Step lzo full s s') (start lens r) :=
  acc_of_decreasing State.todo (fun _ _ h hstep => (h.step hstep).1) (fun _ _ h hstep => (h.step hstep).2)
    (inv_start hpos hr)

/-- When the host has returned, all requests are served, out of the supply. -/
theorem Inv.served {s : State} (h : Inv lzo lens bytes s) (hret : s.host = .returned) :
    s.done = slices lens bytes ∧ total lens ≤ bytes.length := by
  obtain ⟨ahead, rest, hbytes, hserved, -⟩ := h.stream
  have hcount := h.count
  rw [(h.returned hret).1] at hserved hcount
  have htotal : total lens = s.done.flatten.length := hcount
  refine ⟨?_, ?_⟩
  · rw [hserved]
    exact (List.append_nil _).symm
  · rw [htotal, hbytes, List.length_append]
    exact Nat.le_add_right _ _

/-- The supply meets all requests: the channel is exact. -/
theorem exact_of_le (hfull : full 0 = false) (hpos : ∀ len ∈ lens, len ≠ 0) (hr : r.Supplies lzo bytes)
    (hle : total lens ≤ bytes.length) (more : List Byte) : Exact lzo full lens (bytes ++ more) r := by
  have hinv := fun {s : State} (hreach : ReflTransGen (Step lzo full) (start lens r) s) =>
    inv_of_start hpos hr hreach
  refine ⟨acc_start hpos hr, ?_, ?_, fun s hreach => (hinv hreach).whole,
    fun s hreach hret => ((hinv hreach).returned hret).2⟩
  · intro s hreach hended
    have h := hinv hreach
    have hthrown : ∀ e, s.host ≠ .thrown e := by
      intro e he
      obtain ⟨told, owed, -, hhears, -⟩ := h.protocol
      rw [he] at hhears
      generalize told ++ s.target.untold = expected at hhears
      cases hhears with
      | thrown e left lens hshort => omega
    by_cases hret : s.host = .returned
    · rw [slices_append hle]
      exact ⟨hret, (h.returned hret).1, (h.served hret).1⟩
    · obtain ⟨s', hstep⟩ := h.exists_step hfull hret hthrown
      exact absurd hstep (hended s')
  · intro s hreach
    obtain ⟨ahead, rest, -, hserved, -⟩ := (hinv hreach).stream
    rw [slices_append hle, hserved]
    exact List.prefix_append _ _

/-- The channel is exact: the supply meets all requests. -/
theorem Exact.le (hpos : ∀ len ∈ lens, len ≠ 0) (hr : r.Supplies lzo bytes) {log : List Byte}
    (h : Exact lzo full lens log r) : total lens ≤ bytes.length := by
  obtain ⟨s, hreach, hended⟩ := exists_ended h.ends
  exact ((inv_of_start hpos hr hreach).served (h.served s hreach hended).1).2

/-- **The data of a system call comes through exactly** if and only if no empty region
stands before the last byte that is asked for. -/
theorem channel_exact_iff (lzo : Lzo) {full : ℕ → Bool} (hfull : full 0 = false)
    {lens : List Word} (hpos : ∀ len ∈ lens, len ≠ 0) {cur : List Byte} {regions : List Region}
    (hsized : ∀ region ∈ regions, region.Sized lzo) (hlog : total lens ≤ (logBytes cur regions).length) :
    Exact lzo full lens (logBytes cur regions) ⟨encodeRegions lzo regions, cur⟩ ↔
      NoEmptyBefore cur regions (total lens) := by
  have hr : Reader.Supplies lzo ⟨encodeRegions lzo regions, cur⟩ (supply cur regions) :=
    ⟨cur, regions, rfl, hsized, rfl⟩
  rw [← le_length_supply_iff hlog]
  constructor
  · intro h
    exact h.le hpos hr
  · intro hle
    obtain ⟨more, hmore⟩ := exists_supply_append cur regions
    rw [hmore]
    exact exact_of_le hfull hpos hr hle more

/-- Two requests, the first of them across two regions. -/
theorem channel_exact_iff_two_regions :
    Exact endMarked (fun n => decide (10 ≤ n)) [3, 1] (logBytes [1, 2] [.compressed [[3, 4]]])
      ⟨encodeRegions endMarked [.compressed [[3, 4]]], [1, 2]⟩ := by
  have hfull : (fun n : ℕ => decide (10 ≤ n)) 0 = false := rfl
  have hpos : ∀ len ∈ ([3, 1] : List Word), len ≠ 0 := by simp
  have hsized : ∀ region ∈ [Region.compressed [[3, 4]]], region.Sized endMarked := by
    intro region hmem
    rw [List.mem_singleton.mp hmem]
    exact ⟨by decide, by decide⟩
  have hlog : total [3, 1] ≤ (logBytes [1, 2] [.compressed [[3, 4]]]).length := by decide
  exact (channel_exact_iff endMarked hfull hpos hsized hlog).mpr ((le_length_supply_iff hlog).mp (by decide))

/-- An empty region, and three bytes behind it. -/
def emptyFirst : List Region := [.compressed [], .compressed [[1, 2, 3]]]

/-- One request of the three bytes: `read_log_full` comes to the empty region and throws. -/
theorem channel_empty_region :
    total [3] ≤ (logBytes [] emptyFirst).length ∧
      ¬ Exact endMarked (fun _ => false) [3] (logBytes [] emptyFirst)
        ⟨encodeRegions endMarked emptyFirst, []⟩ := by
  have hsized : ∀ region ∈ emptyFirst, region.Sized endMarked := by
    intro region hmem
    rcases List.mem_pair.mp hmem with rfl | rfl
    · exact ⟨by decide, by decide⟩
    · exact ⟨by decide, by decide⟩
  have hpos : ∀ len ∈ ([3] : List Word), len ≠ 0 := by simp
  have hr : Reader.Supplies endMarked ⟨encodeRegions endMarked emptyFirst, []⟩ (supply [] emptyFirst) :=
    ⟨[], emptyFirst, rfl, hsized, rfl⟩
  exact ⟨by decide, fun h => absurd (h.le hpos hr) (by decide)⟩

end Exact

end Snitchaser.Replay.DataChannel
