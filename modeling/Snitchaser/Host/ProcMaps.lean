import Snitchaser.Common.Defs
import Mathlib.Data.List.GetD
import Mathlib.Data.List.Induction

/-!
# Loading the memory map

`proc_maps_load` of the replayer's `procmaps.c` reads `/proc/<pid>/maps` into a buffer that it
makes larger as it goes. There are two calls of `read` in its loop, the one in the condition and
one at the end of the body. Both write to `ptr`, and only the first is counted.

## The model

What the calls of `read` return, one after the other, is an argument; when nothing is left of it
they are at the end of the file. What is in memory that was allocated and not written is an
argument, too: `junk`. It holds for a buffer that grows as well, as every byte of it is
allocated once. Memory is there, and a read that goes beyond the buffer is a fault.

## What is proved

No read goes beyond the buffer (`loadLoop_ok`). But what the second read of a round brings
stays only if the third brings nothing, and nobody writes the terminator: `maps_loaded_iff`,
for every way the file is delivered and all that is in memory, whatever the file holds.
-/

namespace Snitchaser.Host

/-- `READ_STEP`. -/
def readStep : ℕ := 512

/-- What a call of `read` returns. -/
inductive ReadResult where
  | data (bytes : List Byte)
  | failed

/-- A buffer. -/
structure Buffer where
  size : ℕ
  bytes : ℕ → Byte

/-- `read(fd, ptr, READ_STEP)`, where it does not fail. -/
def Buffer.write (b : Buffer) (ptr : ℕ) (data : List Byte) : Except Fault Buffer :=
  if ptr + data.length ≤ b.size then
    .ok ⟨b.size, fun i => if i < ptr then b.bytes i else data.getD (i - ptr) (b.bytes i)⟩
  else .error .overrun

/-- `realloc(buffer, size)`. -/
def Buffer.grow (b : Buffer) : Buffer := ⟨b.size + readStep, b.bytes⟩

/-- `ptr`, once `n` bytes were read and the buffer has grown. -/
def Buffer.next (b : Buffer) (n : ℕ) : ℕ := b.size - readStep * 2 + n

/-- The loop of `proc_maps_load`; `none` is `NULL`. -/
def loadLoop (b : Buffer) (ptr : ℕ) : List ReadResult → Except Fault (Option Buffer)
  | [] => .ok (some b)
  | .failed :: _ => .ok none
  | .data bytes :: rest => do
    let b ← b.write ptr bytes
    if bytes = [] then .ok (some b)
    else
      match rest with
      | [] => loadLoop b.grow (b.grow.next bytes.length) []
      -- what the second call returns is not looked at
      | .failed :: rest => loadLoop b.grow (b.grow.next bytes.length) rest
      | .data more :: rest => do
        let b' ← b.grow.write (b.grow.next bytes.length) more
        loadLoop b' (b.grow.next bytes.length) rest

/-- `proc_maps_load(pid)`. -/
def procMapsLoad (junk : ℕ → Byte) (reads : List ReadResult) : Except Fault (Option Buffer) :=
  loadLoop ⟨readStep, junk⟩ 0 reads

/-! ### What it is for -/

/-- **The buffer begins with these bytes, and a terminator behind them.** -/
def Buffer.Holds (b : Buffer) (contents : List Byte) : Prop :=
  contents.length < b.size ∧ (∀ i < contents.length, b.bytes i = contents.getD i 0) ∧
    b.bytes contents.length = 0

/-- How a file is delivered: the sizes of the reads, short or not. -/
structure Delivered where
  sizes : List ℕ
  pos : ∀ n ∈ sizes, 0 < n
  le_step : ∀ n ∈ sizes, n ≤ readStep

/-- The file is delivered so. -/
def Delivered.Splits (d : Delivered) (chunks : List (List Byte)) : Prop := chunks.map List.length = d.sizes

/-- It is loaded whole. -/
def LoadedWhole (junk : ℕ → Byte) (chunks : List (List Byte)) : Prop :=
  ∃ b, procMapsLoad junk (chunks.map .data) = .ok (some b) ∧ b.Holds chunks.flatten

/-! ### The loop -/

section Loop

variable {b b' : Buffer} {ptr : ℕ} {data : List Byte}

theorem Buffer.write_eq (h : ptr + data.length ≤ b.size) :
    b.write ptr data =
      .ok ⟨b.size, fun i => if i < ptr then b.bytes i else data.getD (i - ptr) (b.bytes i)⟩ :=
  if_pos h

theorem Buffer.size_write (h : b.write ptr data = .ok b') : b'.size = b.size := by
  unfold Buffer.write at h
  split_ifs at h
  cases h
  rfl

theorem Buffer.bytes_write_of_lt (h : b.write ptr data = .ok b') {i : ℕ} (hi : i < ptr) :
    b'.bytes i = b.bytes i := by
  unfold Buffer.write at h
  split_ifs at h
  cases h
  exact if_pos hi

theorem Buffer.bytes_write_of_ge (h : b.write ptr data = .ok b') {i : ℕ} (hi : ptr + data.length ≤ i) :
    b'.bytes i = b.bytes i := by
  unfold Buffer.write at h
  split_ifs at h
  cases h
  refine (if_neg (by omega)).trans ?_
  exact List.getD_eq_default _ _ (by omega)

theorem Buffer.bytes_write_add (h : b.write ptr data = .ok b') {i : ℕ} (hi : i < data.length) (d : Byte) :
    b'.bytes (ptr + i) = data.getD i d := by
  unfold Buffer.write at h
  split_ifs at h
  cases h
  refine (if_neg (by omega)).trans ?_
  rw [Nat.add_sub_cancel_left, List.getD_eq_getElem _ _ hi, List.getD_eq_getElem _ _ hi]

/-- There is room for a read at `ptr`. -/
def Buffer.Room (b : Buffer) (ptr : ℕ) : Prop := ptr + readStep ≤ b.size

theorem Buffer.Room.exists_write (h : b.Room ptr) (hdata : data.length ≤ readStep) :
    ∃ b', b.write ptr data = .ok b' := by
  unfold Buffer.Room at h
  exact ⟨_, Buffer.write_eq (by omega)⟩

theorem Buffer.Room.write (h : b.Room ptr) {p : ℕ} (hw : b.write p data = .ok b') : b'.Room ptr := by
  unfold Buffer.Room at h ⊢
  rwa [Buffer.size_write hw]

/-- There is room again once the buffer has grown, and not before what was read. -/
theorem Buffer.Room.next (h : b.Room ptr) {n : ℕ} (hn : n ≤ readStep) :
    b.grow.Room (b.grow.next n) ∧ ptr + n ≤ b.grow.next n := by
  unfold Buffer.Room Buffer.next Buffer.grow at *
  simp only
  omega

/-- The file ends behind the first read of a round. -/
theorem loadLoop_one (hne : data ≠ []) (hw : b.write ptr data = .ok b') :
    loadLoop b ptr [.data data] = .ok (some b'.grow) := by
  refine bind_eq_ok.mpr ⟨b', hw, ?_⟩
  rw [if_neg hne]
  rfl

/-- A round with two reads. -/
theorem loadLoop_two (hne : data ≠ []) (hw : b.write ptr data = .ok b') {more : List Byte} {b'' : Buffer}
    (hw' : b'.grow.write (b'.grow.next data.length) more = .ok b'') (rest : List ReadResult) :
    loadLoop b ptr (.data data :: .data more :: rest) =
      loadLoop b'' (b'.grow.next data.length) rest := by
  have hround : loadLoop b ptr (.data data :: .data more :: rest) =
      b.write ptr data >>= fun b' => if data = [] then .ok (some b') else
        b'.grow.write (b'.grow.next data.length) more >>= fun b'' =>
          loadLoop b'' (b'.grow.next data.length) rest := rfl
  rw [hround, hw]
  show (if data = [] then _ else _) = _
  rw [if_neg hne, hw']
  rfl

/-- **No read goes beyond the buffer**; what is before `ptr` stays, and so does what the first read
of the round brings. -/
theorem loadLoop_ok {chunks : List (List Byte)} (hne : ∀ c ∈ chunks, c ≠ [])
    (hle : ∀ c ∈ chunks, c.length ≤ readStep) (h : b.Room ptr) :
    ∃ r, loadLoop b ptr (chunks.map .data) = .ok (some r) ∧ (∀ i < ptr, r.bytes i = b.bytes i) ∧
      ∀ c ∈ chunks.head?, ∀ i < c.length, r.bytes (ptr + i) = c.getD i 0 := by
  induction chunks using List.twoStepInduction generalizing b ptr with
  | nil => exact ⟨b, rfl, fun i _ => rfl, fun c hc => by cases hc⟩
  | singleton c =>
    obtain ⟨b₁, hw⟩ := h.exists_write (hle c List.mem_cons_self)
    refine ⟨b₁.grow, loadLoop_one (hne c List.mem_cons_self) hw,
      fun i hi => Buffer.bytes_write_of_lt hw hi, fun d hd i hi => ?_⟩
    cases hd
    exact Buffer.bytes_write_add hw hi 0
  | cons_cons c c' chunks ih _ =>
    obtain ⟨hne₁, hne⟩ := List.forall_mem_cons.mp hne
    obtain ⟨hle₁, hle⟩ := List.forall_mem_cons.mp hle
    obtain ⟨b₁, hw⟩ := h.exists_write hle₁
    obtain ⟨hroom, hbehind⟩ := (h.write hw).next hle₁
    obtain ⟨b₂, hw'⟩ := hroom.exists_write (hle c' List.mem_cons_self)
    obtain ⟨r, hr, hkeep, -⟩ := ih (fun d hd => hne d (List.mem_cons_of_mem _ hd))
      (fun d hd => hle d (List.mem_cons_of_mem _ hd)) (hroom.write hw')
    -- the other reads go behind it
    have hsame : ∀ i < ptr + c.length, r.bytes i = b₁.bytes i := fun i hi =>
      (hkeep i (by omega)).trans (Buffer.bytes_write_of_lt hw' (by omega))
    refine ⟨r, (loadLoop_two hne₁ hw hw' _).trans hr, fun i hi => ?_, fun d hd i hi => ?_⟩
    · exact (hsame i (by omega)).trans (Buffer.bytes_write_of_lt hw hi)
    · cases hd
      exact (hsame _ (by omega)).trans (Buffer.bytes_write_add hw hi 0)

end Loop

/-! ### The first rounds -/

section Load

variable (junk : ℕ → Byte)

theorem room_first : (⟨readStep, junk⟩ : Buffer).Room 0 := le_of_eq (Nat.zero_add _)

/-- The first round writes its two reads one behind the other. -/
theorem first_round {c c' : List Byte} (hc : c ≠ []) (hle : c.length ≤ readStep)
    (hle' : c'.length ≤ readStep) :
    ∃ b, b.size = 2 * readStep ∧ b.Room c.length ∧
      (∀ i < c.length, b.bytes i = c.getD i 0) ∧
      (∀ i < c'.length, b.bytes (c.length + i) = c'.getD i 0) ∧
      (∀ i ≥ c.length + c'.length, b.bytes i = junk i) ∧
      ∀ rest, procMapsLoad junk (.data c :: .data c' :: rest) = loadLoop b c.length rest := by
  obtain ⟨b₁, hw⟩ := (room_first junk).exists_write hle
  obtain ⟨hroom, -⟩ := ((room_first junk).write hw).next hle
  have hsize := Buffer.size_write hw
  have hnext : b₁.grow.next c.length = c.length := by
    unfold Buffer.next Buffer.grow
    rw [hsize]
    simp only
    omega
  rw [hnext] at hroom
  obtain ⟨b₂, hw'⟩ := hroom.exists_write hle'
  refine ⟨b₂, ?_, hroom.write hw', fun i hi => ?_, fun i hi => Buffer.bytes_write_add hw' hi 0,
    fun i hi => ?_, fun rest => ?_⟩
  · rw [Buffer.size_write hw', Buffer.grow, hsize]
    exact (Nat.two_mul _).symm
  · have hfirst := Buffer.bytes_write_add hw hi 0
    rw [Nat.zero_add] at hfirst
    exact (Buffer.bytes_write_of_lt hw' hi).trans hfirst
  · exact (Buffer.bytes_write_of_ge hw' hi).trans (Buffer.bytes_write_of_ge hw (by omega))
  · have hround := loadLoop_two hc hw (hnext.symm ▸ hw') rest
    rwa [hnext] at hround

/-- Of a file that comes in at most two reads the contents are there, and what is behind them is
what was in memory. -/
theorem procMapsLoad_short {chunks : List (List Byte)} (hne : ∀ c ∈ chunks, c ≠ [])
    (hle : ∀ c ∈ chunks, c.length ≤ readStep) (hlen : chunks.length ≤ 2) :
    ∃ b, procMapsLoad junk (chunks.map .data) = .ok (some b) ∧
      (chunks.flatten.length < b.size ↔ chunks.flatten.length < 2 * readStep) ∧
      (∀ i < chunks.flatten.length, b.bytes i = chunks.flatten.getD i 0) ∧
      b.bytes chunks.flatten.length = junk chunks.flatten.length := by
  rcases chunks with _ | ⟨c, _ | ⟨c', _ | ⟨c'', chunks⟩⟩⟩
  · refine ⟨⟨readStep, junk⟩, rfl, iff_of_true ?_ ?_, fun i hi => absurd hi (Nat.not_lt_zero i), rfl⟩
    · exact (by decide : 0 < readStep)
    · exact (by decide : 0 < 2 * readStep)
  · obtain ⟨b₁, hw⟩ := (room_first junk).exists_write (hle c List.mem_cons_self)
    have hflat : [c].flatten = c := List.append_nil c
    have hsize : b₁.grow.size = 2 * readStep := by
      rw [Buffer.grow, Buffer.size_write hw]
      exact (Nat.two_mul _).symm
    rw [hflat]
    refine ⟨b₁.grow, loadLoop_one (hne c List.mem_cons_self) hw, by rw [hsize], fun i hi => ?_, ?_⟩
    · have hfirst := Buffer.bytes_write_add hw hi 0
      rwa [Nat.zero_add] at hfirst
    · exact Buffer.bytes_write_of_ge hw (Nat.zero_add _).le
  · obtain ⟨b, hsize, -, hfirst, hsecond, hjunk, hload⟩ := first_round junk (hne c List.mem_cons_self)
      (hle c List.mem_cons_self) (hle c' (by simp))
    have hflat : [c, c'].flatten = c ++ c' := by simp
    rw [hflat]
    refine ⟨b, hload [], by rw [hsize], fun i hi => ?_, hjunk _ List.length_append.ge⟩
    by_cases hic : i < c.length
    · rw [hfirst i hic, List.getD_append _ _ _ _ hic]
    · obtain ⟨j, rfl⟩ := Nat.exists_eq_add_of_le (not_lt.mp hic)
      rw [List.length_append] at hi
      rw [hsecond j (by omega), List.getD_append_right _ _ _ _ (Nat.le_add_right _ _),
        Nat.add_sub_cancel_left]
  · simp only [List.length_cons] at hlen
    omega

/-- Where the third read brings something, it is over what the second one has brought. -/
theorem procMapsLoad_third {c c' c'' : List Byte} {chunks : List (List Byte)}
    (hne : ∀ d ∈ c :: c' :: c'' :: chunks, d ≠ [])
    (hle : ∀ d ∈ c :: c' :: c'' :: chunks, d.length ≤ readStep) :
    ∃ b, procMapsLoad junk ((c :: c' :: c'' :: chunks).map .data) = .ok (some b) ∧
      b.bytes c.length = c''.getD 0 0 := by
  obtain ⟨b, -, hroom, -, -, -, hload⟩ := first_round junk (hne c List.mem_cons_self)
    (hle c List.mem_cons_self) (hle c' (by simp))
  have hin : ∀ d ∈ c'' :: chunks, d ∈ c :: c' :: c'' :: chunks := fun d hd =>
    List.mem_cons_of_mem _ (List.mem_cons_of_mem _ hd)
  obtain ⟨r, hr, -, hhead⟩ := loadLoop_ok (fun d hd => hne d (hin d hd)) (fun d hd => hle d (hin d hd)) hroom
  refine ⟨r, (hload _).trans hr, ?_⟩
  exact hhead c'' rfl 0 (List.length_pos_of_ne_nil (hne c'' (by simp)))

end Load

/-! ### The whole file -/

theorem Delivered.Splits.ne_nil {d : Delivered} {chunks : List (List Byte)} (h : d.Splits chunks)
    {c : List Byte} (hc : c ∈ chunks) : c ≠ [] := by
  have hlen := d.pos c.length (h ▸ List.mem_map_of_mem hc)
  exact List.ne_nil_of_length_pos hlen

theorem Delivered.Splits.length_le {d : Delivered} {chunks : List (List Byte)} (h : d.Splits chunks)
    {c : List Byte} (hc : c ∈ chunks) : c.length ≤ readStep :=
  d.le_step c.length (h ▸ List.mem_map_of_mem hc)

theorem Delivered.Splits.length_flatten {d : Delivered} {chunks : List (List Byte)} (h : d.Splits chunks) :
    chunks.flatten.length = d.sizes.sum := by
  rw [List.length_flatten, h]

theorem map_length_replicate (sizes : List ℕ) (x : Byte) :
    (sizes.map (List.replicate · x)).map List.length = sizes := by
  rw [List.map_map]
  exact (List.map_congr_left fun n _ => List.length_replicate).trans (List.map_id _)

/-- The first byte of the second read, and that of the third. -/
theorem getD_zeros_ones {n n' : ℕ} (hn' : 0 < n') (rest : List (List Byte)) :
    ((List.replicate n (0 : Byte) :: List.replicate n' 0 :: rest).flatten).getD n 0 = 0 := by
  rw [List.flatten_cons, List.getD_append_right _ _ _ _ List.length_replicate.le, List.length_replicate,
    Nat.sub_self, List.flatten_cons, List.getD_append _ _ _ _ (by rwa [List.length_replicate]),
    List.getD_eq_getElem _ _ (by rwa [List.length_replicate]), List.getElem_replicate]

/-- What comes in three reads or more is not loaded whole, if it is zeros but for the third read. -/
theorem Delivered.length_sizes_le (d : Delivered) {junk : ℕ → Byte}
    (hall : ∀ chunks, d.Splits chunks → LoadedWhole junk chunks) :
    d.sizes.length ≤ 2 := by
  by_contra hlong
  obtain ⟨n, n', n'', sizes, hsizes⟩ : ∃ n n' n'' sizes, d.sizes = n :: n' :: n'' :: sizes := by
    rcases hd : d.sizes with _ | ⟨n, _ | ⟨n', _ | ⟨n'', sizes⟩⟩⟩
    · simp [hd] at hlong
    · simp [hd] at hlong
    · simp [hd] at hlong
    · exact ⟨n, n', n'', sizes, rfl⟩
  have hsplit : d.Splits (List.replicate n 0 :: List.replicate n' 0 :: List.replicate n'' 1 ::
      sizes.map (List.replicate · 0)) := by
    unfold Delivered.Splits
    rw [hsizes, List.map_cons, List.map_cons, List.map_cons, map_length_replicate,
      List.length_replicate, List.length_replicate, List.length_replicate]
  obtain ⟨b, hb, -, hbytes, -⟩ := hall _ hsplit
  obtain ⟨b', hb', hthird⟩ := procMapsLoad_third junk (fun _ hc => hsplit.ne_nil hc)
    (fun _ hc => hsplit.length_le hc)
  rw [hb'] at hb
  cases hb
  have hn' : 0 < n' := d.pos n' (by rw [hsizes]; simp)
  have hn'' : 0 < n'' := d.pos n'' (by rw [hsizes]; simp)
  have hat := hbytes n (by simp; omega)
  rw [List.length_replicate] at hthird
  rw [hthird, getD_zeros_ones hn', List.getD_eq_getElem _ _ (by rwa [List.length_replicate]),
    List.getElem_replicate] at hat
  exact absurd hat (by decide)

/-- **Every file that is delivered so is loaded whole, if and only if** it comes in at most two
reads, has less than two steps of bytes, and there happened to be a zero in memory behind it. -/
theorem maps_loaded_iff (d : Delivered) (junk : ℕ → Byte) :
    (∀ chunks, d.Splits chunks → LoadedWhole junk chunks) ↔
      d.sizes.length ≤ 2 ∧ d.sizes.sum < 2 * readStep ∧ junk d.sizes.sum = 0 := by
  constructor
  · intro hall
    have hlen := d.length_sizes_le hall
    have hsplit : d.Splits (d.sizes.map (List.replicate · 0)) := map_length_replicate _ 0
    obtain ⟨b, hb, hsize, -, hzero⟩ := hall _ hsplit
    obtain ⟨b', hb', hsize', -, hjunk⟩ := procMapsLoad_short junk (fun _ hc => hsplit.ne_nil hc)
      (fun _ hc => hsplit.length_le hc) (by rwa [List.length_map])
    rw [hb'] at hb
    cases hb
    rw [hsplit.length_flatten] at hsize hsize' hzero hjunk
    exact ⟨hlen, hsize'.mp hsize, hjunk ▸ hzero⟩
  · rintro ⟨hlen, hsum, hzero⟩ chunks hsplit
    have hcount : chunks.length ≤ 2 := by
      rw [← List.length_map (f := List.length), hsplit]
      exact hlen
    obtain ⟨b, hb, hsize, hbytes, hjunk⟩ := procMapsLoad_short junk (fun _ hc => hsplit.ne_nil hc)
      (fun _ hc => hsplit.length_le hc) hcount
    rw [hsplit.length_flatten] at hsize hbytes hjunk
    refine ⟨b, hb, ?_, ?_, ?_⟩
    · rw [hsplit.length_flatten]
      exact hsize.mpr hsum
    · rwa [hsplit.length_flatten]
    · rw [hsplit.length_flatten, hjunk, hzero]

/-- Three bytes that come one at a time, into memory that is all zero: the third is over the second. -/
theorem third_read_over_second :
    (∃ b, procMapsLoad (fun _ => 0) [.data [0x61], .data [0x62], .data [0x63]] = .ok (some b) ∧
      b.bytes 1 = 0x63) ∧
      ¬ LoadedWhole (fun _ => 0) [[0x61], [0x62], [0x63]] := by
  have hne : ∀ d ∈ ([[0x61], [0x62], [0x63]] : List (List Byte)), d ≠ [] := by simp
  have hle : ∀ d ∈ ([[0x61], [0x62], [0x63]] : List (List Byte)), d.length ≤ readStep := by simp [readStep]
  obtain ⟨b, hb, hthird⟩ := procMapsLoad_third (fun _ => 0) hne hle
  refine ⟨⟨b, hb, hthird⟩, ?_⟩
  rintro ⟨b', hb', -, hbytes, -⟩
  rw [hb] at hb'
  cases hb'
  have hsecond := hbytes 1 (by decide)
  rw [show b.bytes 1 = 0x63 from hthird] at hsecond
  exact absurd hsecond (by decide)

end Snitchaser.Host
