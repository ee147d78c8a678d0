import Snitchaser.Lzo1x.RoundTrip

/-!
# Streams that no compressor wrote

A log can be damaged. The tests of `lzo1x_decompress_safe` are there so that a run over any
bytes stays inside of its buffers.

They are not all made in time. The second byte of a match is read without a test, and so
are the two bytes of a distance, and where `ip` has passed `ip_end` that way, `HAVE_IP`
compares with a difference that has wrapped: up to three literals more, and a byte, are
read. Then the run ends. Six bytes behind the input is as far as it comes (`Safe`).

The tests also compare with sums that can wrap. Each zero byte of a number adds 255, so it
takes an input of 16 MB to get there.

## What is proved

* `decompress_stays_inside`: with an input up to that size the run ends with a code, and
  neither writes behind the output nor reads more than six bytes behind the input.
* `decompress_overruns`: one byte more, and there is a stream that is written behind the end
  of every buffer.
-/

namespace Snitchaser.Lzo1x

open Foundation

/-- The largest input for which no number wraps. -/
def maxSafeInput : ℕ := 16843009

/-- What is asked of the buffers. -/
structure Source.Guarded (b : Source) : Prop where
  data_pos : 0 < b.data.length
  data_le : b.data.length ≤ maxSafeInput
  outLen_lt : b.outLen < 2 ^ 32
  beyond_ge : 6 ≤ b.beyond.length

/-- Where `ip` can be, at each label. -/
def Safe (b : Source) : Label → Cursor → Prop
  | .outer, s => s.ip ≤ b.data.length + 6 ∧ s.out.length ≤ b.outLen
  | .firstLiteralRun, s => 1 ≤ s.ip ∧ s.ip < b.data.length ∧ s.out.length ≤ b.outLen
  | .matchAt t, s => t < 256 ∧ 1 ≤ s.ip ∧ s.ip ≤ b.data.length ∧ s.out.length ≤ b.outLen
  | .matchDone, s => 2 ≤ s.ip ∧ s.ip ≤ b.data.length + 2 ∧ s.out.length ≤ b.outLen
  | .matchNext t, s => (1 ≤ t ∧ t ≤ 3) ∧ (1 ≤ s.ip ∧ s.ip ≤ b.data.length + 2) ∧
      s.out.length ≤ b.outLen

/-- What a step may lead to: a safe place with fewer steps to go, or an output that fits. -/
def Next.Fine (b : Source) (n : ℕ) : Next → Prop
  | .goto l s => Safe b l s ∧ b.left l s < n
  | .done _ out => out.length ≤ b.outLen

section Safety

variable {b : Source}

theorem Source.Guarded.length_mem (h : b.Guarded) : b.data.length + 6 ≤ b.mem.length := by
  have := h.beyond_ge
  rw [Source.mem, List.length_append]
  omega

theorem Source.Guarded.read (h : b.Guarded) {i : ℕ} (hi : i < b.data.length + 6) :
    b.read i = .ok (b.mem.getD i 0) := b.read_of_lt (by have := h.length_mem; omega)

/-! ### Tests -/

theorem room_of_not_haveOp (h : b.Guarded) {x : ℕ} {out : List Byte} (hx : x < 2 ^ 32)
    (hle : out.length ≤ b.outLen) (hop : ¬ b.haveOp x out) : out.length + x ≤ b.outLen := by
  have := h.outLen_lt
  unfold Source.haveOp at hop
  omega

theorem le_of_not_haveIp (h : b.Guarded) {x ip : ℕ} (hx : x < 2 ^ 32) (hle : ip ≤ b.data.length)
    (hip : ¬ b.haveIp x ip) : ip + x ≤ b.data.length := by
  have := h.data_le
  unfold maxSafeInput at this
  unfold Source.haveIp at hip
  omega

/-! ### Numbers -/

theorem skipZeros_spec (h : b.Guarded) {f t ip : ℕ} (hip : ip ≤ b.data.length)
    (hf : b.data.length < f + ip) (ht : t + 255 * (b.data.length - ip) < 2 ^ 32) :
    ∃ r, skipZeros b f t ip = .ok r ∧ ∀ t' ip', r = some (t', ip') →
      ip ≤ ip' ∧ ip' < b.data.length ∧ t' + 255 * (b.data.length - ip') ≤
        t + 255 * (b.data.length - ip) := by
  induction f generalizing t ip with
  | zero => omega
  | succ f ih =>
    rw [skipZeros]
    by_cases hend : b.haveIp 1 ip
    · exact ⟨none, if_pos hend, fun _ _ hr => (Option.some_ne_none _ hr.symm).elim⟩
    · have hlt := le_of_not_haveIp h (by decide) hip hend
      rw [if_neg hend, h.read (by omega)]
      by_cases hzero : b.mem.getD ip 0 = 0
      · have hsplit : 255 * (b.data.length - ip) = 255 * (b.data.length - (ip + 1)) + 255 := by
          rw [← Nat.mul_succ]
          congr 1
          omega
        obtain ⟨r, hr, hspec⟩ := ih hlt (by omega)
          (show t + 255 + 255 * (b.data.length - (ip + 1)) < 2 ^ 32 by omega)
        refine ⟨r, (if_pos hzero).trans ?_, fun t' ip' hr' => ?_⟩
        · rw [sizeT_of_lt (by omega), hr]
        · obtain ⟨h₁, h₂, h₃⟩ := hspec t' ip' hr'
          exact ⟨by omega, h₂, by omega⟩
      · refine ⟨some (t, ip), if_neg hzero, ?_⟩
        rintro t' ip' ⟨⟩
        exact ⟨le_rfl, hlt, le_rfl⟩

/-- A number is read up to the end of the input, and does not wrap. -/
theorem readCount_spec (h : b.Guarded) {t base ip : ℕ} (ht : t < 256) (hbase : 1 ≤ base)
    (hbase' : base ≤ 31) (hpos : 1 ≤ ip) (hip : ip ≤ b.data.length) :
    ∃ r, readCount b t base ip = .ok r ∧ ∀ t' ip', r = some (t', ip') →
      ip ≤ ip' ∧ ip' ≤ b.data.length ∧ 1 ≤ t' ∧ t' + 4 < 2 ^ 32 := by
  have hdata : b.data.length ≤ 16843009 := h.data_le
  have hmem := h.length_mem
  rw [readCount]
  by_cases hzero : t = 0
  · obtain ⟨r, hr, hspec⟩ := skipZeros_spec h (f := b.mem.length + 1 - ip) (t := t) hip (by omega)
      (by omega)
    rw [if_pos hzero, hr]
    obtain _ | ⟨t₁, ip₁⟩ := r
    · exact ⟨none, rfl, fun _ _ hr => (Option.some_ne_none _ hr.symm).elim⟩
    · obtain ⟨h₁, h₂, h₃⟩ := hspec t₁ ip₁ rfl
      have hbyte := (b.mem.getD ip₁ 0).isLt
      refine ⟨some (t₁ + base + (b.mem.getD ip₁ 0).toNat, ip₁ + 1), ?_, ?_⟩
      · simp only [bind, Except.bind, h.read (show ip₁ < _ by omega)]
        rw [sizeT_of_lt (by omega)]
      · rintro t' ip' ⟨⟩
        exact ⟨by omega, by omega, by omega, by omega⟩
  · refine ⟨some (t, ip), if_neg hzero, ?_⟩
    rintro t' ip' ⟨⟩
    exact ⟨le_rfl, hip, by omega, by omega⟩

/-! ### Steps -/

section Steps

variable {s : Cursor} {n : ℕ}

/-- A match of `t + 2` bytes, by either copy. -/
theorem copyChecked_fine (h : b.Guarded) {off t : ℕ}
    {copy : Source → ℕ → ℕ → List Byte → Except Fault (List Byte)}
    (hcopy : ∀ out : List Byte, 1 ≤ off → off ≤ out.length → out.length + (t + 2) ≤ b.outLen →
      copy b off t out = .ok (copyBack off (t + 2) out)) (ht : t + 4 < 2 ^ 32)
    (htwo : 2 ≤ s.ip) (hip : s.ip ≤ b.data.length + 2) (hout : s.out.length ≤ b.outLen)
    (hn : b.left .matchDone s < n) :
    ∃ next, copyChecked b copy off t s = .ok next ∧ next.Fine b n := by
  unfold copyChecked
  split_ifs with hlb hop
  · exact ⟨_, rfl, hout⟩
  · exact ⟨_, rfl, hout⟩
  · have hroom := room_of_not_haveOp h (show t + 2 < 2 ^ 32 by omega) hout hop
    obtain ⟨hle, hne⟩ := not_or.mp hlb
    rw [hcopy s.out (by omega) (by omega) hroom]
    refine ⟨_, rfl, ⟨htwo, hip, ?_⟩, hn⟩
    rw [length_copyBack _ (by omega) (by omega)]
    exact hroom

theorem copyFixed_fine (h : b.Guarded) {off k : ℕ} (hk : k ≤ 3) (htwo : 2 ≤ s.ip)
    (hip : s.ip ≤ b.data.length + 2) (hout : s.out.length ≤ b.outLen)
    (hn : b.left .matchDone s < n) :
    ∃ next, copyFixed b off k s = .ok next ∧ next.Fine b n := by
  unfold copyFixed
  split_ifs with hlb hop
  · exact ⟨_, rfl, hout⟩
  · exact ⟨_, rfl, hout⟩
  · have hroom := room_of_not_haveOp h (show k < 2 ^ 32 by omega) hout hop
    obtain ⟨hle, hne⟩ := not_or.mp hlb
    rw [copyOut_eq (by omega) (by omega) hroom]
    refine ⟨_, rfl, ⟨htwo, hip, ?_⟩, hn⟩
    rw [length_copyBack _ (by omega) (by omega)]
    exact hroom

theorem stepOuter_fine (h : b.Guarded) (hs : Safe b .outer s) :
    ∃ next, stepOuter b s = .ok next ∧ next.Fine b (b.left .outer s) := by
  obtain ⟨-, hout⟩ := hs
  have hmem := h.length_mem
  have hbyte := (b.mem.getD s.ip 0).isLt
  unfold stepOuter
  by_cases hlt : s.ip < b.data.length
  · rw [if_pos hlt, h.read (by omega)]
    simp only [bind, Except.bind]
    by_cases h16 : (b.mem.getD s.ip 0).toNat ≥ 16
    · refine ⟨_, if_pos h16, ⟨hbyte, by change 1 ≤ s.ip + 1; omega, hlt, hout⟩, ?_⟩
      simp only [Source.left]
      omega
    · rw [if_neg h16]
      obtain ⟨r, hr, hspec⟩ := readCount_spec h
        (show (b.mem.getD s.ip 0).toNat < 256 by omega) (show 1 ≤ 15 by decide) (by decide)
        (show 1 ≤ s.ip + 1 by omega) hlt
      rw [hr]
      obtain _ | ⟨t, ip⟩ := r
      · exact ⟨_, rfl, hout⟩
      · obtain ⟨hip, hle, ht, hmax⟩ := hspec t ip rfl
        simp only
        by_cases hop : b.haveOp (t + 3) s.out
        · exact ⟨_, if_pos hop, hout⟩
        · rw [if_neg hop]
          by_cases hend : b.haveIp (t + 4) ip
          · exact ⟨_, if_pos hend, hout⟩
          · have hroom := room_of_not_haveOp h (by omega) hout hop
            have hin := le_of_not_haveIp h (by omega) hle hend
            have hread : ip + (t + 3) ≤ b.mem.length := by omega
            rw [if_neg hend, copyLiterals_eq (s := ⟨ip, s.out⟩) ht (by omega) hread hroom]
            refine ⟨_, rfl, ⟨?_, ?_, ?_⟩, ?_⟩
            · change 1 ≤ ip + (t + 3)
              omega
            · change ip + (t + 3) < _
              omega
            · rw [List.length_append, b.length_slice hread]
              exact hroom
            · simp only [Source.left]
              omega
  · exact ⟨_, if_neg hlt, hout⟩

theorem stepFirstLiteralRun_fine (h : b.Guarded) (hs : Safe b .firstLiteralRun s) :
    ∃ next, stepFirstLiteralRun b s = .ok next ∧ next.Fine b (b.left .firstLiteralRun s) := by
  obtain ⟨hpos, hlt, hout⟩ := hs
  have hmem := h.length_mem
  unfold stepFirstLiteralRun
  rw [h.read (by omega), h.read (by omega)]
  simp only [bind, Except.bind]
  by_cases h16 : (b.mem.getD s.ip 0).toNat ≥ 16
  · refine ⟨_, if_pos h16, ⟨(b.mem.getD s.ip 0).isLt, by change 1 ≤ s.ip + 1; omega, hlt, hout⟩, ?_⟩
    simp only [Source.left]
    omega
  · rw [if_neg h16]
    refine copyFixed_fine h le_rfl (by change 2 ≤ s.ip + 2; omega)
      (by change s.ip + 2 ≤ _; omega) hout ?_
    simp only [Source.left]
    omega

theorem le16_of_le (h : b.Guarded) {ip : ℕ} (hip : ip ≤ b.data.length) : ∃ w, le16 b ip = .ok w := by
  rw [le16, h.read (by omega), h.read (by omega)]
  exact ⟨_, rfl⟩

theorem stepMatch_fine (h : b.Guarded) {t : ℕ} (hs : Safe b (.matchAt t) s) :
    ∃ next, stepMatch b t s = .ok next ∧ next.Fine b (b.left (.matchAt t) s) := by
  obtain ⟨ht, hpos, hip, hout⟩ := hs
  have hmem := h.length_mem
  unfold stepMatch
  split_ifs with h64 h32 h16
  · rw [h.read (by omega)]
    simp only [bind, Except.bind]
    have hlen : 1 ≤ (t >>> 5) - 1 ∧ (t >>> 5) - 1 + 4 < 2 ^ 32 := by
      rw [Nat.shiftRight_eq_div_pow]
      omega
    refine copyChecked_fine h (fun out => copyMatch_eq hlen.1) hlen.2
      (by change 2 ≤ s.ip + 1; omega) (by change s.ip + 1 ≤ _; omega) hout ?_
    simp only [Source.left]
    omega
  · have hand : t &&& 31 < 256 := lt_of_le_of_lt Nat.and_le_left ht
    obtain ⟨r, hr, hspec⟩ := readCount_spec h hand (show 1 ≤ 31 by decide) le_rfl hpos hip
    rw [hr]
    obtain _ | ⟨t', ip⟩ := r
    · exact ⟨_, rfl, hout⟩
    · obtain ⟨hle, hle', hone, hmax⟩ := hspec t' ip rfl
      obtain ⟨w, hw⟩ := le16_of_le h hle'
      simp only [bind, Except.bind, hw]
      refine copyChecked_fine h (fun out => copyLong_eq hone) hmax
        (by change 2 ≤ ip + 2; omega) (by change ip + 2 ≤ _; omega) hout ?_
      simp only [Source.left]
      omega
  · have hand : t &&& 7 < 256 := lt_of_le_of_lt Nat.and_le_left ht
    obtain ⟨r, hr, hspec⟩ := readCount_spec h hand (show 1 ≤ 7 by decide) (by decide) hpos hip
    rw [hr]
    obtain _ | ⟨t', ip⟩ := r
    · exact ⟨_, rfl, hout⟩
    · obtain ⟨hle, hle', hone, hmax⟩ := hspec t' ip rfl
      obtain ⟨w, hw⟩ := le16_of_le h hle'
      simp only [bind, Except.bind, hw]
      unfold copyFar
      split_ifs with hzero
      · exact ⟨_, rfl, hout⟩
      · refine copyChecked_fine h (fun out => copyLong_eq hone) hmax
          (by change 2 ≤ ip + 2; omega) (by change ip + 2 ≤ _; omega) hout ?_
        simp only [Source.left]
        omega
  · rw [h.read (by omega)]
    simp only [bind, Except.bind]
    refine copyFixed_fine h (by decide) (by change 2 ≤ s.ip + 1; omega)
      (by change s.ip + 1 ≤ _; omega) hout ?_
    simp only [Source.left]
    omega

theorem stepMatchDone_fine (h : b.Guarded) (hs : Safe b .matchDone s) :
    ∃ next, stepMatchDone b s = .ok next ∧ next.Fine b (b.left .matchDone s) := by
  obtain ⟨htwo, hip, hout⟩ := hs
  unfold stepMatchDone
  rw [if_neg (by omega), h.read (by omega)]
  simp only [bind, Except.bind]
  by_cases hzero : (b.mem.getD (s.ip - 2) 0).toNat &&& 3 = 0
  · refine ⟨_, if_pos hzero, ⟨by omega, hout⟩, ?_⟩
    simp only [Source.left]
    omega
  · have hthree : (b.mem.getD (s.ip - 2) 0).toNat &&& 3 ≤ 3 := Nat.and_le_right
    refine ⟨_, if_neg hzero, ⟨⟨by omega, hthree⟩, ⟨by omega, hip⟩, hout⟩, ?_⟩
    simp only [Source.left]
    omega

theorem stepMatchNext_fine (h : b.Guarded) {t : ℕ} (hs : Safe b (.matchNext t) s) :
    ∃ next, stepMatchNext b t s = .ok next ∧ next.Fine b (b.left (.matchNext t) s) := by
  obtain ⟨⟨hone, hthree⟩, ⟨hpos, hip⟩, hout⟩ := hs
  have hmem := h.length_mem
  have hnum : (if t > 1 then if t > 2 then 3 else 2 else 1) = t := by split_ifs <;> omega
  unfold stepMatchNext
  rw [hnum]
  split_ifs with hop hend
  · exact ⟨_, rfl, hout⟩
  · exact ⟨_, rfl, hout⟩
  · have hroom := room_of_not_haveOp h (by omega) hout hop
    have hread : s.ip + t ≤ b.mem.length := by omega
    have hlen : (s.out ++ b.slice s.ip t).length ≤ b.outLen := by
      rw [List.length_append, b.length_slice hread]
      exact hroom
    rw [copyIn_eq hread hroom]
    simp only [bind, Except.bind]
    rw [h.read (by omega)]
    simp only
    by_cases hlt : s.ip + t + 1 < b.data.length
    · refine ⟨_, if_pos hlt, ⟨(b.mem.getD (s.ip + t) 0).isLt, ?_, hlt.le, hlen⟩, ?_⟩
      · change 1 ≤ s.ip + t + 1
        omega
      · simp only [Source.left]
        omega
    · -- Past the end of the input there is no way back into it.
      refine ⟨_, if_neg hlt, ⟨?_, hlen⟩, ?_⟩
      · change s.ip + t + 1 ≤ _
        omega
      · simp only [Source.left]
        omega

/-- **One step** from a safe place does not fail, and leads to a safe place. -/
theorem step_fine (h : b.Guarded) {l : Label} (hs : Safe b l s) :
    ∃ next, b.step l s = .ok next ∧ next.Fine b (b.left l s) := by
  cases l with
  | outer => exact stepOuter_fine h hs
  | firstLiteralRun => exact stepFirstLiteralRun_fine h hs
  | matchAt t => exact stepMatch_fine h hs
  | matchDone => exact stepMatchDone_fine h hs
  | matchNext t => exact stepMatchNext_fine h hs

/-- **A run** from a safe place ends, with an output that fits. -/
theorem run_fine (h : b.Guarded) {l : Label} (hs : Safe b l s) (hn : b.left l s < n) :
    ∃ c out, b.run n l s = .ok (c, out) ∧ out.length ≤ b.outLen := by
  induction n generalizing l s with
  | zero => omega
  | succ n ih =>
    obtain ⟨next, hstep, hfine⟩ := step_fine h hs
    rw [Source.run, hstep]
    cases next with
    | goto l' s' =>
      obtain ⟨hs', hlt⟩ := hfine
      exact ih hs' (by omega)
    | done c out => exact ⟨c, out, rfl, hfine⟩

theorem start_fine (h : b.Guarded) :
    ∃ next, b.start = .ok next ∧ ∃ n, next.Fine b n := by
  have hdata := h.data_pos
  have hmem := h.length_mem
  have hbyte := (b.mem.getD 0 0).isLt
  unfold Source.start
  rw [h.read (by omega)]
  simp only [bind, Except.bind]
  by_cases h17 : (b.mem.getD 0 0).toNat > 17
  · rw [if_pos h17]
    by_cases hfour : (b.mem.getD 0 0).toNat - 17 < 4
    · exact ⟨_, if_pos hfour, _, ⟨⟨by omega, by omega⟩, ⟨le_rfl, by change 1 ≤ _; omega⟩,
        Nat.zero_le _⟩, Nat.lt_succ_self _⟩
    · rw [if_neg hfour]
      by_cases hop : b.haveOp ((b.mem.getD 0 0).toNat - 17) []
      · exact ⟨_, if_pos hop, 0, Nat.zero_le _⟩
      · rw [if_neg hop]
        by_cases hend : b.haveIp ((b.mem.getD 0 0).toNat - 17 + 1) 1
        · exact ⟨_, if_pos hend, 0, Nat.zero_le _⟩
        · have hroom := room_of_not_haveOp h (by omega) (Nat.zero_le _) hop
          have hin := le_of_not_haveIp h (by omega) hdata hend
          have hread : 1 + ((b.mem.getD 0 0).toNat - 17) ≤ b.mem.length := by omega
          rw [if_neg hend, copyIn_eq (s := ⟨1, []⟩) hread hroom]
          refine ⟨_, rfl, _, ⟨?_, ?_, ?_⟩, Nat.lt_succ_self _⟩
          · change 1 ≤ 1 + _
            omega
          · change 1 + _ < _
            omega
          · rw [List.length_append, b.length_slice hread]
            exact hroom
  · exact ⟨_, if_neg h17, _, ⟨Nat.zero_le _, Nat.zero_le _⟩, Nat.lt_succ_self _⟩

end Steps

end Safety

/-- **Any input.** The run ends with a code. It neither writes behind the output, nor reads
before the output or more than six bytes behind the input. -/
theorem decompress_stays_inside {b : Source} (h : b.Guarded) :
    ∃ c out, lzo1xDecompressSafe b = .ok (c, out) ∧ out.length ≤ b.outLen := by
  obtain ⟨next, hstart, n, hfine⟩ := start_fine h
  rw [lzo1xDecompressSafe, hstart]
  cases next with
  | goto l s => exact run_fine h hfine.1 (Nat.lt_succ_self _)
  | done c out => exact ⟨c, out, rfl, hfine⟩

theorem decompress_stays_inside_zeros :
    ∃ c out, lzo1xDecompressSafe ⟨[0, 0, 0], List.replicate 6 0, 16⟩ = .ok (c, out) ∧
      out.length ≤ 16 :=
  decompress_stays_inside (b := ⟨[0, 0, 0], List.replicate 6 0, 16⟩)
    ⟨by decide, by decide, by decide, by decide⟩

/-! ### A number that wraps -/

section Overrun

variable {b : Source} {s : Cursor}

theorem copyIn_overruns {t : ℕ} (hmany : b.outLen < s.out.length + t)
    (hle : s.out.length ≤ b.outLen) (hread : s.ip + (b.outLen - s.out.length) < b.mem.length) :
    copyIn b t s = .error .overrun := by
  induction t generalizing s with
  | zero => omega
  | succ t ih =>
    rw [copyIn, b.read_of_lt (by omega)]
    by_cases hroom : s.out.length + 1 ≤ b.outLen
    · have hput : b.put s.out [b.mem.getD s.ip 0] = .ok (s.out ++ [b.mem.getD s.ip 0]) :=
        b.put_of_le hroom
      have hlen : (s.out ++ [b.mem.getD s.ip 0]).length = s.out.length + 1 := List.length_append
      simp only [bind, Except.bind, hput]
      refine ih ?_ ?_ ?_ <;> dsimp only <;> omega
    · have hput : b.put s.out [b.mem.getD s.ip 0] = .error .overrun := if_neg hroom
      simp only [bind, Except.bind, hput]

theorem copy4In_overruns (hroom : b.outLen < s.out.length + 4) (hread : s.ip + 4 ≤ b.mem.length) :
    copy4In b s = .error .overrun := by
  have hput : ∀ x₀ x₁ x₂ x₃, b.put s.out [x₀, x₁, x₂, x₃] = .error .overrun :=
    fun _ _ _ _ => if_neg (Nat.not_le.mpr hroom)
  rw [copy4In, b.read_of_lt (by omega), b.read_of_lt (by omega), b.read_of_lt (by omega),
    b.read_of_lt (by omega)]
  simp only [bind, Except.bind, hput]

theorem copyIn4_overruns {t : ℕ} (hmany : b.outLen < s.out.length + t)
    (hle : s.out.length ≤ b.outLen) (hread : s.ip + (b.outLen - s.out.length) + 4 ≤ b.mem.length) :
    copyIn4 b t s = .error .overrun := by
  fun_induction copyIn4 b t s with
  | case1 t s ih =>
    by_cases hroom : s.out.length + 4 ≤ b.outLen
    · have hlen : (s.out ++ b.slice s.ip 4).length = s.out.length + 4 := by
        rw [List.length_append, b.length_slice (by omega)]
      rw [copy4In_eq (by omega) hroom]
      refine ih _ ?_ ?_ ?_ <;> dsimp only <;> omega
    · rw [copy4In_overruns (by omega) (by omega)]
      rfl
  | case2 t s => exact copyIn_overruns hmany hle (by omega)

theorem copyLiterals_overruns {t : ℕ} (hfive : 5 ≤ t) (hlt : t < 2 ^ 32)
    (hmany : b.outLen < s.out.length + (t + 3)) (hle : s.out.length ≤ b.outLen)
    (hread : s.ip + (b.outLen - s.out.length) + 4 ≤ b.mem.length) :
    copyLiterals b t s = .error .overrun := by
  rw [copyLiterals]
  by_cases hroom : s.out.length + 4 ≤ b.outLen
  · have hlen : (s.out ++ b.slice s.ip 4).length = s.out.length + 4 := by
      rw [List.length_append, b.length_slice (by omega)]
    rw [copy4In_eq (by omega) hroom, decrement_of_pos (by omega) hlt]
    change copyRest b (t - 1) _ = _
    rw [copyRest, if_pos (by omega), if_pos (by omega)]
    refine copyIn4_overruns ?_ ?_ ?_ <;> dsimp only <;> omega
  · rw [copy4In_overruns (by omega) (by omega)]
    rfl

end Overrun

/-- So many zero bytes, and one more byte, are a run of three less than `2 ^ 32` literals. -/
def wrappingZeros : ℕ := maxSafeInput

/-- **A larger input.** The sums that the tests compare with wrap, and whatever the size of
the output, more than that is written. -/
theorem decompress_overruns (rest beyond : List Byte) {outLen : ℕ} (hrest : outLen + 4 ≤ rest.length)
    (hlen : rest.length < 2 ^ 31) :
    lzo1xDecompressSafe ⟨List.replicate wrappingZeros 0 ++ 238 :: rest, beyond, outLen⟩ =
      .error .overrun := by
  obtain ⟨b, hb⟩ : ∃ b : Source, b = ⟨List.replicate wrappingZeros 0 ++ 238 :: rest, beyond, outLen⟩ :=
    ⟨_, rfl⟩
  have hdata : b.data = List.replicate wrappingZeros 0 ++ 238 :: rest := by rw [hb]
  have hout : b.outLen = outLen := by rw [hb]
  have hlength : b.data.length = 16843010 + rest.length := by
    rw [hdata, List.length_append, List.length_replicate, List.length_cons, wrappingZeros,
      maxSafeInput]
    omega
  have hmem := b.length_data_le
  have hsized : b.Sized := ⟨by omega, by omega⟩
  rw [← hb]
  have hat : b.At 0 (0 :: (List.replicate 16843008 0 ++ [238])) :=
    ⟨[], rest, by
      rw [hdata, wrappingZeros, maxSafeInput, List.replicate_succ]
      simp only [List.nil_append, List.cons_append, List.append_assoc], rfl⟩
  have hskip : ∀ f, 16843008 < f →
      skipZeros b f 0 1 = .ok (some (0 + 255 * 16843008, 1 + 16843008)) := fun f hf =>
    skipZeros_eq hsized hat.tail (by decide) hf (by omega)
  have hlast : b.read (1 + 16843008) = .ok 238 := by
    have h := hat.tail.right.read
    rwa [List.length_replicate] at h
  have hcount : readCount b 0 15 1 = .ok (some (2 ^ 32 - 3, 16843010)) := by
    rw [readCount, if_pos rfl, hskip _ (by omega)]
    simp only [bind, Except.bind, hlast]
    rfl
  have hop : ¬ b.haveOp (2 ^ 32 - 3 + 3) [] := fun h => Nat.not_lt_zero _ h
  have hip : ¬ b.haveIp (2 ^ 32 - 3 + 4) 16843010 := by
    unfold Source.haveIp
    omega
  have hcopy : copyLiterals b (2 ^ 32 - 3) ⟨16843010, []⟩ = .error .overrun := by
    refine copyLiterals_overruns (by decide) (by decide) ?_ (Nat.zero_le _) ?_
    · rw [List.length_nil]
      omega
    · dsimp only
      rw [List.length_nil]
      omega
  have hstep : b.step .outer ⟨0, []⟩ = .error .overrun := by
    have hfirst : readCount b (0 : Byte).toNat 15 (0 + 1) = .ok (some (2 ^ 32 - 3, 16843010)) := hcount
    change stepOuter b ⟨0, []⟩ = _
    rw [stepOuter, if_pos (show 0 < b.data.length by omega)]
    simp only [bind, Except.bind, hat.read, hfirst]
    rw [if_neg (by decide), if_neg hop, if_neg hip, hcopy]
  rw [lzo1xDecompressSafe, start_of_le hat.read (by decide)]
  simp only [bind, Except.bind]
  rw [Source.run, hstep]
  rfl

theorem decompress_overruns_four :
    lzo1xDecompressSafe ⟨List.replicate wrappingZeros 0 ++ 238 :: [1, 2, 3, 4], [], 0⟩ =
      .error .overrun :=
  decompress_overruns [1, 2, 3, 4] [] (by decide) (by decide)

end Snitchaser.Lzo1x
