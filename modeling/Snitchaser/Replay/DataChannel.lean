import Snitchaser.Log.Supply
import Snitchaser.Replay.SingleStep

/-!
# The channel for the data of a system call

While a system call is replayed its handler runs in the target and asks for the data the
recorder logged (`read_syscall_data`). The gdbserver answers out of the log
(`syscall_read_cycle`). Between them is a pair of datagram sockets.

    target: send(START)                   host: recv(START)
            for each request:                   mark = recv()
                send(READ)                      while (mark == READ) {
                send(len)                           size = recv()
                while (len > 0)                     while (size > 0) {
                    len -= recv(.., len)                read_log_full(n = min(size, 4096))
            send(END)                                   send(.., n); size -= n
                                                    }
                                                    mark = recv()
                                                } /* mark must be END */

## The model

* `HostPc` and `TargetPc` say where the two are, and `State` holds them, the log, and the
  datagrams in flight each way, oldest first.
* `recv` takes one datagram and drops what is more than it asked for; `cut` keeps that this
  has happened. `send` puts one datagram, and waits while its direction is `full`. What is
  full is arbitrary, but that a direction with nothing in it is not.
* The two take steps in any order (`Step`).
* The `select` by which the host looks after a target that has died, and sockets that fail,
  are left out.

## What is proved

`Inv` is the invariant. What the target has told and has still to tell is what the host
expects to hear; and the bytes in flight, those the host owes and those whose request is on
its way are the bytes that the target waits for. So a datagram is never longer than what the
target asks for. `Inv.step`: every step keeps it, and leaves less to do.
-/

namespace Snitchaser.Replay.DataChannel

open Foundation Log

/-! ### The two sides -/

/-- What `syscall_read_cycle` waits for in a `sock_recv_u32`. -/
inductive Awaited where
  | beginMark | mark | size
  deriving DecidableEq, Repr

/-- Where the host is. -/
inductive HostPc where
  /-- In `sock_recv_u32`, with the bytes it has. -/
  | recv (what : Awaited) (got : List Byte)
  /-- In the inner loop, before `read_log_full`. -/
  | read (left : ℕ)
  /-- Before `sock_send`. -/
  | send (data : List Byte) (left : ℕ)
  | returned
  | thrown (e : Stop)

/-- Where the target is, with the lengths it has still to ask for. -/
inductive TargetPc where
  /-- Before `initiate_syscall_read`. -/
  | start (lens : List Word)
  /-- Before the next `read_syscall_data`, or before `finish_syscall_read`. -/
  | request (lens : List Word)
  /-- Before `sock_send_int(len)`. -/
  | length (len : Word) (lens : List Word)
  /-- In `sock_recv(ptr, len)`, with the bytes it has. -/
  | recv (len : Word) (lens : List Word) (got : List Byte)
  | finished
  deriving DecidableEq, Repr

/-- Both, and what is between them. -/
structure State where
  host : HostPc
  reader : Reader
  target : TargetPc
  /-- What each finished `read_syscall_data` has got. -/
  done : List (List Byte)
  toHost : List (List Byte)
  toTarget : List (List Byte)
  /-- Some datagram was longer than the receive. -/
  cut : Bool

/-- The beginning. -/
def start (lens : List Word) (r : Reader) : State := ⟨.recv .beginMark [], r, .start lens, [], [], [], false⟩

/-- The head of the inner loop. -/
def answer (left : ℕ) : HostPc := if left = 0 then .recv .mark [] else .read left

/-- The host has received a word. -/
def heard : Awaited → Word → HostPc
  | .beginMark, word =>
    if word = syscallReadStartMark then .recv .mark []
    else .thrown (.throw .syscallReplayer "wait for SYSCALL_READ_START_MARK but receive 0x%x")
  | .mark, word =>
    if word = syscallReadMark then .recv .size []
    else if word = syscallReadEndMark then .returned
    else .thrown (.throw .syscallReplayer "wait for SYSCALL_READ_END_MARK but receive -x%x")
  | .size, word => answer word.toNat

/-- A step of the host, if it can make one. -/
def hostStep (lzo : Lzo) (full : ℕ → Bool) (s : State) : Option State :=
  match s.host with
  | .recv what got =>
    match s.toHost with
    | [] => none
    | datagram :: queue =>
      let got' := got ++ datagram.take (4 - got.length)
      some { s with
        host := if got'.length < 4 then .recv what got' else heard what (leWord got')
        toHost := queue
        cut := s.cut || decide (4 - got.length < datagram.length) }
  | .read left =>
    match (readLogFull lzo (min left sendBufSz) false).run s.reader with
    | .ok data r => some { s with host := .send data (left - min left sendBufSz), reader := r }
    | .error e r => some { s with host := .thrown e, reader := r }
  | .send data left =>
    if full s.toTarget.length then none
    else some { s with host := answer left, toTarget := s.toTarget ++ [data] }
  | .returned => none
  | .thrown _ => none

/-- The target sends a word. -/
def tell (full : ℕ → Bool) (word : Word) (next : State → State) (s : State) : Option State :=
  if full s.toHost.length then none else some (next { s with toHost := s.toHost ++ [leBytes word] })

/-- The target goes to another place. -/
def goto (pc : TargetPc) (s : State) : State := { s with target := pc }

/-- The head of the loop of `sock_recv`. -/
def receive (len : Word) (lens : List Word) (got : List Byte) (s : State) : State :=
  if got.length < len.toNat then { s with target := .recv len lens got }
  else { s with target := .request lens, done := s.done ++ [got] }

/-- A step of the target. -/
def targetStep (full : ℕ → Bool) (s : State) : Option State :=
  match s.target with
  | .start lens => tell full syscallReadStartMark (goto (.request lens)) s
  | .request [] => tell full syscallReadEndMark (goto .finished) s
  | .request (len :: lens) => tell full syscallReadMark (goto (.length len lens)) s
  | .length len lens => tell full len (receive len lens []) s
  | .recv len lens got =>
    match s.toTarget with
    | [] => none
    | datagram :: queue =>
      some (receive len lens (got ++ datagram.take (len.toNat - got.length))
        { s with
          toTarget := queue
          cut := s.cut || decide (len.toNat - got.length < datagram.length) })
  | .finished => none

/-- A step of one of them. -/
def Step (lzo : Lzo) (full : ℕ → Bool) (s s' : State) : Prop :=
  hostStep lzo full s = some s' ∨ targetStep full s = some s'

/-- Nobody can make a step. -/
def Ended (lzo : Lzo) (full : ℕ → Bool) (s : State) : Prop := ∀ s', ¬ Step lzo full s s'

/-! ### What is told, and what is owed -/

/-- A word from the target, by its meaning. -/
inductive Message where
  | start | read | len (n : Word) | stop
  deriving DecidableEq, Repr

def Message.word : Message → Word
  | .start => syscallReadStartMark
  | .read => syscallReadMark
  | .len n => n
  | .stop => syscallReadEndMark

/-- The bytes a message asks for. -/
def Message.bytes : Message → ℕ
  | .len n => n.toNat
  | _ => 0

/-- The bytes that some messages ask for. -/
def weight (messages : List Message) : ℕ := (messages.map Message.bytes).sum

/-- Requests of these lengths, up to the end mark. -/
def asked : List Word → List Message
  | [] => [.stop]
  | len :: lens => .read :: .len len :: asked lens

/-- The bytes of requests of these lengths. -/
def total (lens : List Word) : ℕ := (lens.map BitVec.toNat).sum

/-- The parts of the log that answer requests of these lengths. -/
def slices : List Word → List Byte → List (List Byte)
  | [], _ => []
  | len :: lens, log => log.take len.toNat :: slices lens (log.drop len.toNat)

namespace TargetPc

/-- What the target has still to tell. -/
def untold : TargetPc → List Message
  | start lens => .start :: asked lens
  | request lens => asked lens
  | length len lens => .len len :: asked lens
  | recv _ lens _ => asked lens
  | finished => []

/-- The requests that are not finished. -/
def lens : TargetPc → List Word
  | start lens => lens
  | request lens => lens
  | length len lens => len :: lens
  | recv len lens _ => len :: lens
  | finished => []

/-- What has come for the request it is in. -/
def got : TargetPc → List Byte
  | recv _ _ got => got
  | _ => []

/-- The bytes of the request it waits for. -/
def current : TargetPc → ℕ
  | recv len _ _ => len.toNat
  | _ => 0

end TargetPc

@[simp] theorem weight_nil : weight [] = 0 := rfl

@[simp] theorem weight_cons (m : Message) (ms : List Message) : weight (m :: ms) = m.bytes + weight ms := rfl

@[simp] theorem weight_append (ms ms' : List Message) : weight (ms ++ ms') = weight ms + weight ms' := by
  simp [weight]

@[simp] theorem total_cons (len : Word) (lens : List Word) : total (len :: lens) = len.toNat + total lens := rfl

theorem weight_asked (lens : List Word) : weight (asked lens) = total lens := by
  induction lens with
  | nil => rfl
  | cons len lens ih => simp [asked, ih, Message.bytes]

theorem TargetPc.total_lens (pc : TargetPc) : total pc.lens = pc.current + weight pc.untold := by
  cases pc <;> simp [lens, current, untold, weight_asked, Message.bytes, total]

theorem slices_append {lens : List Word} {log : List Byte} (h : total lens ≤ log.length)
    (more : List Byte) : slices lens (log ++ more) = slices lens log := by
  induction lens generalizing log with
  | nil => rfl
  | cons len lens ih =>
    rw [total_cons] at h
    have hlen : len.toNat ≤ log.length := by omega
    rw [slices, slices, List.take_append_of_le_length hlen, List.drop_append_of_le_length hlen,
      ih (by rw [List.length_drop]; omega)]

theorem slices_cons {len : Word} {lens : List Word} {part : List Byte} (h : part.length = len.toNat)
    (log : List Byte) : slices (len :: lens) (part ++ log) = part :: slices lens log := by
  rw [slices, List.take_left' h, List.drop_left' h]

/-- What the host expects to hear in a place, and the bytes it owes for what it has heard.
It throws only if the log is too `short`. -/
inductive Hears (short : Prop) : HostPc → List Message → ℕ → Prop
  | beginMark (lens : List Word) : Hears short (.recv .beginMark []) (.start :: asked lens) 0
  | mark (lens : List Word) : Hears short (.recv .mark []) (asked lens) 0
  | size (len : Word) (lens : List Word) : Hears short (.recv .size []) (.len len :: asked lens) 0
  | read {left : ℕ} (lens : List Word) (hleft : left ≠ 0) : Hears short (.read left) (asked lens) left
  | send {data : List Byte} (left : ℕ) (lens : List Word) (hdata : data ≠ []) :
    Hears short (.send data left) (asked lens) (data.length + left)
  | returned : Hears short .returned [] 0
  | thrown (e : Stop) (left : ℕ) (lens : List Word) (hshort : short) : Hears short (.thrown e) (asked lens) left

/-- The bytes of the log that the host has not sent. -/
def Reading (lzo : Lzo) : HostPc → Reader → List Byte → Prop
  | .send data _, r, bytes => ∃ rest, bytes = data ++ rest ∧ r.Supplies lzo rest
  | .thrown _, _, _ => True
  | _, r, bytes => r.Supplies lzo bytes

/-- The bytes the host has read and not sent. -/
def HostPc.holding : HostPc → ℕ
  | .send data _ => data.length
  | _ => 0

/-- It has not thrown. -/
def HostPc.alive : HostPc → ℕ
  | .thrown _ => 0
  | _ => 1

section Host

variable {lzo : Lzo} {r : Reader} {bytes : List Byte} {short : Prop}

theorem hears_answer (left : ℕ) (lens : List Word) : Hears short (answer left) (asked lens) left := by
  unfold answer
  split_ifs with hleft
  · rw [hleft]
    exact .mark lens
  · exact .read lens hleft

theorem answer_ne_send (left : ℕ) (data : List Byte) (left' : ℕ) : answer left ≠ .send data left' := by
  unfold answer
  split_ifs <;> simp

theorem heard_ne_send (what : Awaited) (word : Word) (data : List Byte) (left : ℕ) :
    heard what word ≠ .send data left := by
  cases what with
  | beginMark =>
    rw [heard]
    split_ifs <;> simp
  | mark =>
    rw [heard]
    split_ifs <;> simp
  | size => exact answer_ne_send word.toNat data left

/-- Elsewhere than before a `send`, the host holds nothing. -/
theorem reading_of_ne_send {pc : HostPc} (hpc : ∀ data left, pc ≠ .send data left)
    (h : r.Supplies lzo bytes) : Reading lzo pc r bytes ∧ pc.holding = 0 := by
  cases pc with
  | send data left => exact absurd rfl (hpc data left)
  | thrown e => exact ⟨trivial, rfl⟩
  | recv what got => exact ⟨h, rfl⟩
  | read left => exact ⟨h, rfl⟩
  | returned => exact ⟨h, rfl⟩

/-- **The host hears the message it expects**, and owes what it asks for. -/
theorem Hears.heard {what : Awaited} {m : Message} {ms : List Message} {owed : ℕ}
    (h : Hears short (.recv what []) (m :: ms) owed) :
    owed = 0 ∧ Hears short (heard what m.word) ms m.bytes := by
  generalize hexpected : m :: ms = expected at h
  cases h with
  | beginMark lens =>
    cases hexpected
    exact ⟨rfl, .mark lens⟩
  | mark lens =>
    cases lens with
    | nil =>
      cases hexpected
      exact ⟨rfl, .returned⟩
    | cons len lens =>
      cases hexpected
      exact ⟨rfl, .size len lens⟩
  | size len lens =>
    cases hexpected
    exact ⟨rfl, hears_answer len.toNat lens⟩

end Host

/-- **The invariant**, for these lengths and this supply of bytes. -/
structure Inv (lzo : Lzo) (lens : List Word) (bytes : List Byte) (s : State) : Prop where
  whole : s.cut = false
  /-- What is told and untold is what the host expects, and all bytes the target waits for
  are on their way. -/
  protocol : ∃ told owed, s.toHost = told.map (fun m => leBytes m.word) ∧
    Hears (bytes.length < total lens) s.host (told ++ s.target.untold) owed ∧
    s.toTarget.flatten.length + owed + weight told + s.target.got.length = s.target.current
  /-- The supply is what requests have got, what has come, what is in flight, and the rest. -/
  stream : ∃ ahead rest, bytes = s.done.flatten ++ ahead ∧
    slices lens bytes = s.done ++ slices s.target.lens ahead ∧
    ahead = s.target.got ++ (s.toTarget.flatten ++ rest) ∧ Reading lzo s.host s.reader rest
  count : total lens = s.done.flatten.length + total s.target.lens
  datagrams : ∀ datagram ∈ s.toTarget, datagram ≠ []
  missing : ∀ len lens got, s.target = .recv len lens got → got.length < len.toNat
  positive : ∀ len ∈ s.target.lens, len ≠ 0

theorem inv_start {lzo : Lzo} {lens : List Word} {bytes : List Byte} {r : Reader}
    (hpos : ∀ len ∈ lens, len ≠ 0) (hr : r.Supplies lzo bytes) : Inv lzo lens bytes (start lens r) where
  whole := rfl
  protocol := ⟨[], 0, rfl, .beginMark lens, rfl⟩
  stream := ⟨bytes, bytes, rfl, rfl, rfl, hr⟩
  count := (Nat.zero_add _).symm
  datagrams := fun _ h => by cases h
  missing := fun _ _ _ h => by cases h
  positive := hpos

/-! ### One step -/

/-- How much is left to do: a word is told and heard, a byte is read, sent and received. -/
def State.todo (s : State) : ℕ :=
  2 * s.target.untold.length + s.toHost.length +
    (3 * total s.target.lens - 3 * s.target.got.length - 2 * s.toTarget.flatten.length - s.host.holding) +
    s.host.alive

theorem Hears.holding_le {short : Prop} {pc : HostPc} {expected : List Message} {owed : ℕ} (h : Hears short pc expected owed) :
    pc.holding ≤ owed := by
  cases h <;> simp [HostPc.holding]

/-- A word is heard whole. -/
theorem Hears.got_eq_nil {short : Prop} {what : Awaited} {got : List Byte} {expected : List Message} {owed : ℕ}
    (h : Hears short (.recv what got) expected owed) : got = [] := by
  cases h <;> rfl

theorem Hears.left_ne_zero {short : Prop} {left : ℕ} {expected : List Message} {owed : ℕ}
    (h : Hears short (.read left) expected owed) : left ≠ 0 := by
  cases h with
  | read lens hleft => exact hleft

theorem HostPc.alive_le (pc : HostPc) : pc.alive ≤ 1 := by
  cases pc <;> simp [HostPc.alive]

/-- A receive for a word takes a word. -/
theorem take_leBytes (word : Word) : (leBytes word).take 4 = leBytes word := rfl

section Steps

variable {lzo : Lzo} {full : ℕ → Bool} {lens : List Word} {bytes : List Byte} {s s' : State}

theorem hostStep_recv {what : Awaited} {word : Word} {queue : List (List Byte)}
    (hpc : s.host = .recv what []) (hqueue : s.toHost = leBytes word :: queue) :
    hostStep lzo full s = some { s with host := heard what word, toHost := queue } := by
  simp [hostStep, hpc, hqueue, take_leBytes]

/-- The host receives. -/
theorem Inv.hostRecv {what : Awaited} {got : List Byte} (h : Inv lzo lens bytes s)
    (hpc : s.host = .recv what got) (hstep : hostStep lzo full s = some s') :
    Inv lzo lens bytes s' ∧ s'.todo < s.todo := by
  obtain ⟨told, owed, htold, hhears, hbalance⟩ := h.protocol
  obtain ⟨ahead, rest, hbytes, hserved, hahead, hreading⟩ := h.stream
  rw [hpc] at hhears hreading
  obtain rfl := hhears.got_eq_nil
  cases told with
  | nil =>
    rw [hostStep, hpc] at hstep
    simp [htold] at hstep
  | cons m told =>
    rw [hostStep_recv hpc htold, Option.some.injEq] at hstep
    obtain ⟨rfl, hheard⟩ := hhears.heard
    obtain ⟨hread, hholding⟩ := reading_of_ne_send (heard_ne_send what m.word) hreading
    rw [weight_cons] at hbalance
    subst hstep
    constructor
    · exact { h with
        protocol := ⟨told, m.bytes, rfl, hheard, by dsimp only; omega⟩
        stream := ⟨ahead, rest, hbytes, hserved, hahead, hread⟩ }
    · have halive := (heard what m.word).alive_le
      have hrecv : (HostPc.recv what []).holding = 0 ∧ (HostPc.recv what []).alive = 1 := ⟨rfl, rfl⟩
      simp only [State.todo, htold, hpc, hholding, hrecv, List.length_map, List.length_cons]
      omega

/-- The host reads: there is a chunk, or it throws. -/
theorem Inv.hostRead {left : ℕ} (h : Inv lzo lens bytes s) (hpc : s.host = .read left)
    (hstep : hostStep lzo full s = some s') : Inv lzo lens bytes s' ∧ s'.todo < s.todo := by
  obtain ⟨told, owed, htold, hhears, hbalance⟩ := h.protocol
  obtain ⟨ahead, rest, hbytes, hserved, hahead, hreading⟩ := h.stream
  have htotal := s.target.total_lens
  rw [hpc] at hhears hreading
  generalize hexpected : told ++ s.target.untold = expected at hhears
  cases hhears with
  | read todo hleft =>
  have hsupplies : s.reader.Supplies lzo rest := hreading
  rw [hostStep, hpc] at hstep
  have hread : (HostPc.read left).holding = 0 ∧ (HostPc.read left).alive = 1 := ⟨rfl, rfl⟩
  by_cases hle : min left sendBufSz ≤ rest.length
  · obtain ⟨r, hrun, hr⟩ := hsupplies.readLogFull hle
    simp only [hrun, Option.some.injEq] at hstep
    subst hstep
    have hlength : (rest.take (min left sendBufSz)).length = min left sendBufSz := List.length_take_of_le hle
    have hmin : 0 < min left sendBufSz := lt_min (Nat.pos_of_ne_zero hleft) (by decide)
    have hne : rest.take (min left sendBufSz) ≠ [] := List.ne_nil_of_length_pos (hmin.trans_eq hlength.symm)
    have hsend : (HostPc.send (rest.take (min left sendBufSz)) (left - min left sendBufSz)).holding =
        min left sendBufSz := hlength
    have halive : (HostPc.send (rest.take (min left sendBufSz)) (left - min left sendBufSz)).alive = 1 := rfl
    have hmin_le := min_le_left left sendBufSz
    constructor
    · exact { h with
        protocol := ⟨told, _, htold, hexpected ▸ Hears.send (left - min left sendBufSz) todo hne, by
          dsimp only
          omega⟩
        stream := ⟨ahead, rest, hbytes, hserved, hahead, _, (List.take_append_drop _ rest).symm, hr⟩ }
    · simp only [State.todo, hpc, hread, hsend, halive]
      omega
  · obtain ⟨e, r, hrun⟩ := hsupplies.readLogFull_short (not_le.mp hle)
    simp only [hrun, Option.some.injEq] at hstep
    subst hstep
    have hshort : bytes.length < total lens := by
      have hcount := h.count
      rw [hbytes, hahead]
      simp only [List.length_append]
      omega
    constructor
    · exact { h with
        protocol := ⟨told, left, htold, hexpected ▸ Hears.thrown e left todo hshort, hbalance⟩
        stream := ⟨ahead, rest, hbytes, hserved, hahead, trivial⟩ }
    · have hthrown : (HostPc.thrown e).holding = 0 ∧ (HostPc.thrown e).alive = 0 := ⟨rfl, rfl⟩
      simp only [State.todo, hpc, hread, hthrown]
      omega

/-- The host sends. -/
theorem Inv.hostSend {data : List Byte} {left : ℕ} (h : Inv lzo lens bytes s)
    (hpc : s.host = .send data left) (hstep : hostStep lzo full s = some s') :
    Inv lzo lens bytes s' ∧ s'.todo < s.todo := by
  obtain ⟨told, owed, htold, hhears, hbalance⟩ := h.protocol
  obtain ⟨ahead, rest, hbytes, hserved, hahead, hreading⟩ := h.stream
  have htotal := s.target.total_lens
  rw [hpc] at hhears hreading
  generalize hexpected : told ++ s.target.untold = expected at hhears
  cases hhears with
  | send left todo hdata =>
  obtain ⟨rest, rfl, hsupplies⟩ := hreading
  rw [hostStep, hpc] at hstep
  simp only [Option.ite_none_left_eq_some, Option.some.injEq] at hstep
  obtain ⟨-, rfl⟩ := hstep
  obtain ⟨hread, hholding⟩ := reading_of_ne_send (answer_ne_send left) hsupplies
  have hflatten : (s.toTarget ++ [data]).flatten = s.toTarget.flatten ++ data := by simp
  constructor
  · exact { h with
      protocol := ⟨told, left, htold, hexpected ▸ hears_answer left todo, by
        dsimp only
        rw [hflatten, List.length_append]
        omega⟩
      stream := ⟨ahead, rest, hbytes, hserved, by simpa using hahead, hread⟩
      datagrams := by
        intro datagram hmem
        rcases List.mem_append.mp hmem with hmem | hmem
        · exact h.datagrams datagram hmem
        · rwa [List.mem_singleton.mp hmem] }
  · have hsend : (HostPc.send data left).holding = data.length ∧ (HostPc.send data left).alive = 1 := ⟨rfl, rfl⟩
    have halive := (answer left).alive_le
    have hpos := List.length_pos_of_ne_nil hdata
    simp only [State.todo, hpc, hsend, hholding, hflatten, List.length_append]
    omega

theorem tell_eq_some {word : Word} {next : State → State} (h : tell full word next s = some s') :
    s' = next { s with toHost := s.toHost ++ [leBytes word] } := by
  unfold tell at h
  split_ifs at h
  exact (Option.some.inj h).symm

/-- The target tells the next message. -/
theorem Inv.told {untold : List Message} (h : Inv lzo lens bytes s) (m : Message) (pc : TargetPc)
    (huntold : s.target.untold = m :: untold) (hgot : s.target.got = []) (hpc : pc.untold = untold)
    (hlens : pc.lens = s.target.lens) (hpcGot : pc.got = []) (hcurrent : pc.current = s.target.current + m.bytes)
    (hmissing : ∀ len lens got, pc = .recv len lens got → got.length < len.toNat)
    (hs' : s' = { s with target := pc, toHost := s.toHost ++ [leBytes m.word] }) :
    Inv lzo lens bytes s' ∧ s'.todo < s.todo := by
  obtain ⟨told, owed, htold, hhears, hbalance⟩ := h.protocol
  obtain ⟨ahead, rest, hbytes, hserved, hahead, hreading⟩ := h.stream
  subst hs'
  rw [hgot] at hbalance hahead
  constructor
  · exact { h with
      protocol := ⟨told ++ [m], owed, by simp [htold], by
          rw [huntold, ← hpc] at hhears
          simpa using hhears, by
        simp only [weight_append, weight_cons, weight_nil, hpcGot, hcurrent]
        omega⟩
      stream := ⟨ahead, rest, hbytes, hlens ▸ hserved, by rw [hpcGot]; exact hahead, hreading⟩
      count := hlens ▸ h.count
      missing := hmissing
      positive := hlens ▸ h.positive }
  · simp only [State.todo, huntold, hpc, hlens, hgot, hpcGot, List.length_append, List.length_cons, List.length_nil]
    omega

/-- The target receives a datagram, whole. -/
theorem Inv.targetRecv {len : Word} {todo : List Word} {got : List Byte} (h : Inv lzo lens bytes s)
    (hpc : s.target = .recv len todo got) (hstep : targetStep full s = some s') :
    Inv lzo lens bytes s' ∧ s'.todo < s.todo := by
  obtain ⟨told, owed, htold, hhears, hbalance⟩ := h.protocol
  obtain ⟨ahead, rest, hbytes, hserved, hahead, hreading⟩ := h.stream
  have hcount := h.count
  have hpos := h.positive
  have hholding := hhears.holding_le
  simp only [hpc, TargetPc.untold, TargetPc.got, TargetPc.current] at hhears hbalance hahead
  simp only [hpc, TargetPc.lens, total_cons] at hcount hserved hpos
  rw [targetStep, hpc] at hstep
  cases hqueue : s.toTarget with
  | nil => simp [hqueue] at hstep
  | cons datagram queue =>
  have hne := List.length_pos_of_ne_nil (h.datagrams datagram (hqueue ▸ List.mem_cons_self))
  have hrest : ∀ d ∈ queue, d ≠ [] := fun d hd => h.datagrams d (hqueue ▸ List.mem_cons_of_mem datagram hd)
  rw [hqueue, List.flatten_cons, List.length_append] at hbalance
  rw [hqueue, List.flatten_cons, List.append_assoc, ← List.append_assoc] at hahead
  -- All that is in flight is for this request, so the datagram is not longer than what is missing.
  have hle : datagram.length ≤ len.toNat - got.length := by omega
  simp only [hqueue, Option.some.injEq, List.take_of_length_le hle, h.whole, not_lt.mpr hle, decide_false,
    Bool.or_false] at hstep
  have hlength : (got ++ datagram).length = got.length + datagram.length := List.length_append
  subst hstep
  unfold receive
  split_ifs with hmore
  · constructor
    · exact
      { whole := rfl
        protocol := ⟨told, owed, htold, hhears, by
          simp only [TargetPc.got, TargetPc.current]
          omega⟩
        stream := ⟨ahead, rest, hbytes, hserved, hahead, hreading⟩
        count := hcount
        datagrams := hrest
        missing := by
          intro len' todo' got' heq
          cases heq
          exact hmore
        positive := hpos }
    · simp only [State.todo, hpc, hqueue, TargetPc.untold, TargetPc.lens, TargetPc.got, List.flatten_cons,
        List.length_append, total_cons]
      omega
  · have hfull : (got ++ datagram).length = len.toNat := by omega
    have hflatten : (s.done ++ [got ++ datagram]).flatten = s.done.flatten ++ (got ++ datagram) := by simp
    constructor
    · exact
      { whole := rfl
        protocol := ⟨told, owed, htold, hhears, by
          simp only [TargetPc.got, TargetPc.current, List.length_nil]
          omega⟩
        stream := by
          refine ⟨queue.flatten ++ rest, rest, ?_, ?_, rfl, hreading⟩
          · rw [hflatten, List.append_assoc, ← hahead, ← hbytes]
          · rw [hserved, hahead, slices_cons hfull, List.append_assoc]
            rfl
        count := by
          rw [hflatten, List.length_append, hfull, Nat.add_assoc]
          exact hcount
        datagrams := hrest
        missing := fun _ _ _ heq => by cases heq
        positive := fun x hx => hpos x (List.mem_cons_of_mem len hx) }
    · simp only [State.todo, hpc, hqueue, TargetPc.untold, TargetPc.lens, TargetPc.got, List.flatten_cons,
        List.length_append, total_cons, List.length_nil]
      omega

/-- The host steps. -/
theorem Inv.hostStep (h : Inv lzo lens bytes s) (hstep : hostStep lzo full s = some s') :
    Inv lzo lens bytes s' ∧ s'.todo < s.todo := by
  cases hpc : s.host with
  | recv what got => exact h.hostRecv hpc hstep
  | read left => exact h.hostRead hpc hstep
  | send data left => exact h.hostSend hpc hstep
  | returned => simp [DataChannel.hostStep, hpc] at hstep
  | thrown e => simp [DataChannel.hostStep, hpc] at hstep

/-- The target steps. -/
theorem Inv.targetStep (h : Inv lzo lens bytes s) (hstep : targetStep full s = some s') :
    Inv lzo lens bytes s' ∧ s'.todo < s.todo := by
  cases hpc : s.target with
  | recv len todo got => exact h.targetRecv hpc hstep
  | finished => simp [DataChannel.targetStep, hpc] at hstep
  | start todo =>
    rw [DataChannel.targetStep, hpc] at hstep
    refine h.told .start (.request todo) ?_ ?_ rfl ?_ rfl ?_ (by simp) (tell_eq_some hstep)
    all_goals rw [hpc]; rfl
  | request todo =>
    cases todo with
    | nil =>
      rw [DataChannel.targetStep, hpc] at hstep
      refine h.told .stop .finished ?_ ?_ rfl ?_ rfl ?_ (by simp) (tell_eq_some hstep)
      all_goals rw [hpc]; rfl
    | cons len todo =>
      rw [DataChannel.targetStep, hpc] at hstep
      refine h.told .read (.length len todo) ?_ ?_ rfl ?_ rfl ?_ (by simp) (tell_eq_some hstep)
      all_goals rw [hpc]; rfl
  | length len todo =>
    have hpos : 0 < len.toNat := by
      have hne := h.positive len (by rw [hpc]; exact List.mem_cons_self)
      exact Nat.pos_of_ne_zero fun hzero => hne (BitVec.eq_of_toNat_eq hzero)
    rw [DataChannel.targetStep, hpc] at hstep
    have hs' := tell_eq_some hstep
    rw [receive, List.length_nil, if_pos hpos] at hs'
    refine h.told (.len len) (.recv len todo []) ?_ ?_ rfl ?_ rfl ?_ ?_ hs'
    case refine_5 =>
      intro len' todo' got heq
      cases heq
      exact hpos
    all_goals rw [hpc]
    · rfl
    · rfl
    · rfl
    · exact (Nat.zero_add _).symm

/-- A step keeps the invariant, and leaves less to do. -/
theorem Inv.step (h : Inv lzo lens bytes s) (hstep : Step lzo full s s') :
    Inv lzo lens bytes s' ∧ s'.todo < s.todo :=
  hstep.elim h.hostStep h.targetStep

end Steps

end Snitchaser.Replay.DataChannel
