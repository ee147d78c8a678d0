import Snitchaser.Checkpoint.Region

/-!
# Reading `/proc/self/maps`

`read_procmem_line` takes a line apart with

    sscanf(line, "%lx-%lx %4s %llx %*2x:%*2x %*d %n", ..)

and looks for the newline behind it. The interpreter has a `sscanf` of its own (`vsprintf.c`),
and two of its habits show:

* a suppressed conversion (`%*`) takes what there is up to white space, in the format as well
  as in the string,
* a `%n` is filled if the string is not at its end, or if the string ends just before the `%n`
  is come to. White space in the format is skipped together with the conversion that follows
  it, so for the last line of the listing, if it has no name, the `%n` is not filled.

## The model

A string of C is a list without its `'\0'`. The format is given as its conversions, each with
whether white space stands before it; only the conversions that the format uses are modelled.
The byte before the listing, which is looked at if the listing is empty, is taken to be no
newline.
-/

namespace Snitchaser.Checkpoint

/-- `isspace(c)`. -/
def isSpace (b : Byte) : Bool := (9 ≤ b && b ≤ 13) || b == 32 || b == 160

/-- `isxdigit(c)`. -/
def isXdigit (b : Byte) : Bool := (48 ≤ b && b ≤ 57) || (65 ≤ b && b ≤ 70) || (97 ≤ b && b ≤ 102)

/-- `isdigit(*cp) ? *cp-'0' : TOLOWER(*cp)-'a'+10`. -/
def digitValue (b : Byte) : ℕ := if b ≤ 57 then b.toNat - 48 else (b ||| 0x20).toNat - 97 + 10

/-- The number of some digits. -/
def hexValue (digits : List Byte) : ℕ := digits.foldl (fun v b => v * 16 + digitValue b) 0

/-- `0x` before a number is skipped. -/
def skip0x : List Byte → List Byte
  | a :: x :: rest => if a = chr '0' ∧ x ||| 0x20 = chr 'x' then rest else a :: x :: rest
  | s => s

/-- `simple_strtoul(cp, endp, 16)`, before it is cut to its width. -/
def simpleStrtoul16 (cp : List Byte) : ℕ × List Byte :=
  (hexValue ((skip0x cp).takeWhile isXdigit), (skip0x cp).dropWhile isXdigit)

/-- A conversion, or a character that has to be there. -/
inductive Conv where
  | lit (b : Byte)
  /-- `%lx` or `%llx`. -/
  | hex
  /-- `%s`, with its width. -/
  | str (width : ℕ)
  /-- `%*`, up to white space. -/
  | skip
  /-- `%n`. -/
  | count
  deriving DecidableEq, Repr

/-- What is assigned. -/
inductive Value where
  | num (n : ℕ)
  | text (s : List Byte)
  deriving DecidableEq, Repr

/-- What `sscanf` leaves: its result is the number of values. -/
structure Scan where
  values : List Value
  /-- What `%n` was filled with. -/
  count : Option ℕ
  deriving DecidableEq, Repr

/-- One more value. -/
def Scan.push (v : Value) (s : Scan) : Scan := { s with values := v :: s.values }

/-- It stops here. -/
def Scan.stop : Scan := ⟨[], none⟩

/-- `vsscanf`: `total` is the length of the string, of which `str` is left. -/
def vsscanf (total : ℕ) : List (Bool × Conv) → List Byte → Scan
  | [], _ => .stop
  | (space, conv) :: fmt, str =>
    if str = [] then ⟨[], if space = false ∧ conv = .count then some total else none⟩
    else
      let str := if space then str.dropWhile isSpace else str
      match conv with
      | .lit b => if str.head? = some b then vsscanf total fmt str.tail else .stop
      | .skip => vsscanf total fmt (str.dropWhile (!isSpace ·))
      | .hex =>
        let str := str.dropWhile isSpace
        if str.head?.any isXdigit then
          (vsscanf total fmt (simpleStrtoul16 str).2).push (.num (simpleStrtoul16 str).1)
        else .stop
      | .str width =>
        if str = [] then .stop
        else
          let str := str.dropWhile isSpace
          let word := (str.takeWhile (!isSpace ·)).take width
          (vsscanf total fmt (str.drop word.length)).push (.text word)
      | .count =>
        if str = [] then .stop
        else { vsscanf total fmt str with count := some (total - str.length) }

/-- `"%lx-%lx %4s %llx %*2x:%*2x %*d %n"`. -/
def procFormat : List (Bool × Conv) :=
  [(false, .hex), (false, .lit (chr '-')), (false, .hex), (true, .str 4), (true, .hex), (true, .skip),
    (true, .skip), (true, .count)]

/-- `region->prot`. -/
def protOf (strProt : List Byte) : Word :=
  (if strProt.getD 0 0 = chr 'r' then 1 else 0) ||| (if strProt.getD 1 0 = chr 'w' then 2 else 0) |||
    (if strProt.getD 2 0 = chr 'x' then 4 else 0)

/-- `'\n'`. -/
def newline : Byte := 10

/-- `*region`, for a name. -/
def regionOf (start stop : ℕ) (strProt : List Byte) (offset : ℕ) (fn : List Byte) : MemRegion :=
  ⟨BitVec.ofNat 32 start, BitVec.ofNat 32 stop, protOf strProt, BitVec.ofNat 64 offset,
    BitVec.ofNat 32 (fn.length + 1)⟩

/-- What `read_procmem_line` gives: the region, the name, and the next line. -/
structure Parsed where
  region : MemRegion
  fn : List Byte
  rest : List Byte
  deriving DecidableEq, Repr

/-- `*p_fn`: behind what was scanned, or at the newline that was scanned last. -/
def nameAt (text : List Byte) (l : ℕ) : List Byte :=
  if 0 < l ∧ text[l - 1]? = some newline then text.drop (l - 1) else text.drop l

/-- `read_procmem_line`: nothing at the end. -/
def readProcmemLine (line : List Byte) : Except Fault (Option Parsed) :=
  let scan := vsscanf line.length procFormat line
  match scan.values with
  | [] => .ok none
  | [.num start, .num stop, .text strProt, .num offset] =>
    let tail := nameAt line (scan.count.getD 0)
    if newline ∈ tail then
      let fn := tail.takeWhile (· ≠ newline)
      .ok (some ⟨regionOf start stop strProt offset fn, fn, tail.drop (fn.length + 1)⟩)
    else .error (.assertion "eol != NULL")
  | _ => .error (.assertion "err == 0")

/-! ### Lines -/

/-- `' '`. -/
def blank : Byte := 32

/-- A word: not empty, without white space. -/
def IsWord (s : List Byte) : Prop := s ≠ [] ∧ ∀ b ∈ s, isSpace b = false

/-- A number in hexadecimal digits. -/
def IsHex (s : List Byte) : Prop := s ≠ [] ∧ ∀ b ∈ s, isXdigit b = true

/-- **A line of the listing**, as the kernel prints it:
`08048000-08049000 r-xp 00000000 03:01 4711       /bin/true`. -/
structure MapsLine where
  start : List Byte
  stop : List Byte
  perms : List Byte
  offset : List Byte
  /-- The device, `major:minor`. -/
  dev : List Byte
  inode : List Byte
  /-- How many blanks follow the one behind the inode. -/
  pad : ℕ
  name : List Byte
  start_hex : IsHex start
  stop_hex : IsHex stop
  perms_word : IsWord perms
  perms_length : perms.length = 4
  offset_hex : IsHex offset
  dev_word : IsWord dev
  inode_word : IsWord inode
  /-- A newline in a name is printed as `\012`. -/
  name_line : newline ∉ name
  name_head : ∀ b, name.head? = some b → isSpace b = false
  /-- No character is `'\0'`. -/
  no_zero : ∀ b ∈ start ++ stop ++ perms ++ offset ++ dev ++ inode ++ name, b ≠ 0

instance (s : List Byte) : Decidable (IsWord s) := inferInstanceAs (Decidable (_ ∧ _))

instance (s : List Byte) : Decidable (IsHex s) := inferInstanceAs (Decidable (_ ∧ _))

namespace MapsLine

/-- A line of these texts, with no more blanks than one. -/
def ofTexts (start stop perms offset dev inode name : String)
    (h : (IsHex (str start) ∧ IsHex (str stop) ∧ IsHex (str offset)) ∧
      (IsWord (str perms) ∧ IsWord (str dev) ∧ IsWord (str inode)) ∧ (str perms).length = 4 ∧
      (newline ∉ str name ∧ (str name).head?.all (fun b => !isSpace b) = true) ∧
      ∀ b ∈ str start ++ str stop ++ str perms ++ str offset ++ str dev ++ str inode ++ str name, b ≠ 0) :
    MapsLine where
  start := str start
  stop := str stop
  perms := str perms
  offset := str offset
  dev := str dev
  inode := str inode
  pad := 0
  name := str name
  start_hex := h.1.1
  stop_hex := h.1.2.1
  perms_word := h.2.1.1
  perms_length := h.2.2.1
  offset_hex := h.1.2.2
  dev_word := h.2.1.2.1
  inode_word := h.2.1.2.2
  name_line := h.2.2.2.1.1
  name_head b hb := by
    have hall := h.2.2.2.1.2
    rw [hb] at hall
    simpa using hall
  no_zero := h.2.2.2.2

variable (line : MapsLine)

/-- From the device on. -/
def tailText : List Byte :=
  line.dev ++ blank :: (line.inode ++ blank :: (List.replicate line.pad blank ++ line.name))

/-- The line without its newline. -/
def body : List Byte :=
  line.start ++ chr '-' :: (line.stop ++ blank :: (line.perms ++ blank :: (line.offset ++ blank :: line.tailText)))

def text : List Byte := line.body ++ [newline]

/-- The region it describes, under a name. -/
def region (fn : List Byte) : MemRegion :=
  regionOf (hexValue line.start) (hexValue line.stop) line.perms (hexValue line.offset) fn

end MapsLine

/-- `/proc/self/maps`. -/
def listing (lines : List MapsLine) : List Byte := lines.flatMap MapsLine.text

/-! ### Words -/

theorem isSpace_eq_false_of_isXdigit : ∀ b : Byte, isXdigit b = true → isSpace b = false := by decide

theorem IsHex.isWord {s : List Byte} (h : IsHex s) : IsWord s :=
  ⟨h.1, fun b hb => isSpace_eq_false_of_isXdigit b (h.2 b hb)⟩

/-- What begins with a word has no white space to be skipped. -/
theorem IsWord.dropWhile_isSpace {s : List Byte} (h : IsWord s) (rest : List Byte) :
    (s ++ rest).dropWhile isSpace = s ++ rest := by
  obtain ⟨hne, hword⟩ := h
  cases s with
  | nil => exact absurd rfl hne
  | cons b s => exact List.dropWhile_cons_of_neg (by simp [hword b List.mem_cons_self])

theorem IsWord.dropWhile_blank {s : List Byte} (h : IsWord s) (rest : List Byte) :
    (blank :: (s ++ rest)).dropWhile isSpace = s ++ rest :=
  (List.dropWhile_cons_of_pos (by decide)).trans (h.dropWhile_isSpace rest)

/-- A word goes up to the blank. -/
theorem IsWord.takeWhile_blank {s : List Byte} (h : IsWord s) (rest : List Byte) :
    (s ++ blank :: rest).takeWhile (!isSpace ·) = s := by
  rw [List.takeWhile_append_of_pos]
  · rw [List.takeWhile_cons_of_neg (by decide), List.append_nil]
  · intro b hb
    simp [h.2 b hb]

theorem IsWord.dropWhile_word {s : List Byte} (h : IsWord s) (rest : List Byte) :
    (s ++ blank :: rest).dropWhile (!isSpace ·) = blank :: rest := by
  rw [List.dropWhile_append_of_pos]
  · exact List.dropWhile_cons_of_neg (by decide)
  · intro b hb
    simp [h.2 b hb]

/-- No digit is followed by an `x`. -/
theorem IsHex.skip0x {s : List Byte} (h : IsHex s) {c : Byte} (hc : c = chr '-' ∨ c = blank)
    (rest : List Byte) : skip0x (s ++ c :: rest) = s ++ c :: rest := by
  have hdigit : ∀ b : Byte, isXdigit b = true → b ||| 0x20 ≠ chr 'x' := by decide
  have hlit : c ||| 0x20 ≠ chr 'x' := by rcases hc with rfl | rfl <;> decide
  obtain ⟨hne, hhex⟩ := h
  cases s with
  | nil => exact absurd rfl hne
  | cons a s =>
    cases s with
    | nil => exact if_neg fun hx => hlit hx.2
    | cons b s => exact if_neg fun hx => hdigit b (hhex b (by simp)) hx.2

/-- A number goes up to what follows it. -/
theorem IsHex.simpleStrtoul16 {s : List Byte} (h : IsHex s) {c : Byte} (hc : c = chr '-' ∨ c = blank)
    (rest : List Byte) : simpleStrtoul16 (s ++ c :: rest) = (hexValue s, c :: rest) := by
  have hlit : ¬isXdigit c = true := by rcases hc with rfl | rfl <;> decide
  unfold Checkpoint.simpleStrtoul16
  rw [h.skip0x hc, List.takeWhile_append_of_pos h.2, List.dropWhile_append_of_pos h.2,
    List.takeWhile_cons_of_neg hlit, List.dropWhile_cons_of_neg hlit, List.append_nil]

/-! ### The conversions of the format -/

section

variable {total : ℕ} {fmt : List (Bool × Conv)} {s : List Byte} (rest : List Byte)

theorem vsscanf_hex (h : IsHex s) {c : Byte} (hc : c = chr '-' ∨ c = blank) :
    vsscanf total ((false, .hex) :: fmt) (s ++ c :: rest) =
      (vsscanf total fmt (c :: rest)).push (.num (hexValue s)) := by
  have hne : s ++ c :: rest ≠ [] := by simp
  have hhead : (s ++ c :: rest).head?.any isXdigit = true := by
    obtain ⟨hs, hhex⟩ := h
    cases s with
    | nil => exact absurd rfl hs
    | cons b s => exact hhex b List.mem_cons_self
  rw [vsscanf, if_neg hne]
  simp only [Bool.false_eq_true, if_false, h.isWord.dropWhile_isSpace, hhead, if_true,
    h.simpleStrtoul16 hc]

theorem vsscanf_blank_hex (h : IsHex s) :
    vsscanf total ((true, .hex) :: fmt) (blank :: (s ++ blank :: rest)) =
      vsscanf total ((false, .hex) :: fmt) (s ++ blank :: rest) := by
  have hne : s ++ blank :: rest ≠ [] := by simp
  rw [vsscanf, if_neg (List.cons_ne_nil _ _), vsscanf, if_neg hne]
  simp only [if_true, Bool.false_eq_true, if_false, h.isWord.dropWhile_blank]

theorem vsscanf_lit {b : Byte} :
    vsscanf total ((false, .lit b) :: fmt) (b :: rest) = vsscanf total fmt rest := by
  rw [vsscanf, if_neg (List.cons_ne_nil _ _)]
  simp only [Bool.false_eq_true, if_false, List.head?_cons, if_true, List.tail_cons]

theorem vsscanf_str (h : IsWord s) :
    vsscanf total ((true, .str s.length) :: fmt) (blank :: (s ++ blank :: rest)) =
      (vsscanf total fmt (blank :: rest)).push (.text s) := by
  have hne : s ++ blank :: rest ≠ [] := by simp
  rw [vsscanf, if_neg (List.cons_ne_nil _ _)]
  simp only [if_true, h.dropWhile_blank, if_neg hne, h.dropWhile_isSpace, h.takeWhile_blank,
    List.take_length, List.drop_left]

theorem vsscanf_skip (h : IsWord s) :
    vsscanf total ((true, .skip) :: fmt) (blank :: (s ++ blank :: rest)) =
      vsscanf total fmt (blank :: rest) := by
  rw [vsscanf, if_neg (List.cons_ne_nil _ _)]
  simp only [if_true, h.dropWhile_blank, h.dropWhile_word]

/-- `%n`, behind white space: it is filled if something follows. -/
theorem vsscanf_count {str : List Byte} (hne : str ≠ []) :
    vsscanf total [(true, .count)] str =
      ⟨[], if str.dropWhile isSpace = [] then none
        else some (total - (str.dropWhile isSpace).length)⟩ := by
  rw [vsscanf, if_neg hne]
  simp only [if_true]
  split_ifs <;> rfl

end

/-! ### A line is read -/

namespace MapsLine

variable (line : MapsLine)

/-- What the format has to skip before it comes to the end. -/
theorem vsscanf_text (total : ℕ) (rest : List Byte) :
    vsscanf total procFormat (line.text ++ rest) =
      ⟨[.num (hexValue line.start), .num (hexValue line.stop), .text line.perms,
          .num (hexValue line.offset)],
        (vsscanf total [(true, .count)]
          (blank :: (List.replicate line.pad blank ++ (line.name ++ newline :: rest)))).count⟩ := by
  have htext : line.text ++ rest = line.start ++ chr '-' :: (line.stop ++ blank :: (line.perms ++
      blank :: (line.offset ++ blank :: (line.dev ++ blank :: (line.inode ++ blank ::
        (List.replicate line.pad blank ++ (line.name ++ newline :: rest))))))) := by
    simp only [text, body, tailText, List.append_assoc, List.cons_append, List.nil_append]
  rw [htext]
  unfold procFormat
  rw [vsscanf_hex _ line.start_hex (.inl rfl), vsscanf_lit, vsscanf_hex _ line.stop_hex (.inr rfl),
    ← line.perms_length, vsscanf_str _ line.perms_word, vsscanf_blank_hex _ line.offset_hex,
    vsscanf_hex _ line.offset_hex (.inr rfl), vsscanf_skip _ line.dev_word,
    vsscanf_skip _ line.inode_word, vsscanf_count (List.cons_ne_nil _ _)]
  rfl

/-- What stands before the name. -/
def lead : List Byte :=
  line.start ++ chr '-' :: (line.stop ++ blank :: (line.perms ++ blank :: (line.offset ++ blank ::
    (line.dev ++ blank :: (line.inode ++ List.replicate (line.pad + 1) blank)))))

theorem body_eq : line.body = line.lead ++ line.name := by
  simp only [body, tailText, lead, List.append_assoc, List.cons_append, List.replicate_succ]

/-- The name comes right behind a blank. -/
theorem lead_getLast : ∃ s, line.lead = s ++ [blank] := by
  refine ⟨line.start ++ chr '-' :: (line.stop ++ blank :: (line.perms ++ blank :: (line.offset ++
    blank :: (line.dev ++ blank :: (line.inode ++ List.replicate line.pad blank))))), ?_⟩
  simp only [lead, List.append_assoc, List.cons_append, List.replicate_succ']

theorem newline_not_mem_word {s : List Byte} (h : IsWord s) : newline ∉ s := fun hmem =>
  absurd (h.2 _ hmem) (by decide)

/-- A line has one newline. -/
theorem newline_not_mem_body : newline ∉ line.body := by
  have hdash : newline ≠ chr '-' := by decide
  have hblank : newline ≠ blank := by decide
  simp only [body, tailText, List.mem_append, List.mem_cons, List.mem_replicate, hdash, hblank,
    newline_not_mem_word line.start_hex.isWord, newline_not_mem_word line.stop_hex.isWord,
    newline_not_mem_word line.perms_word, newline_not_mem_word line.offset_hex.isWord,
    newline_not_mem_word line.dev_word, newline_not_mem_word line.inode_word, line.name_line,
    and_false, or_false, not_false_eq_true]

/-- **The name that is read**: if the line has none and is the last, it is the line itself. -/
def scannedFn (last : Bool) : List Byte := if line.name = [] ∧ last then line.body else line.name

/-- What may follow a line. -/
def Follows (rest : List Byte) : Prop := ∀ b, rest.head? = some b → isSpace b = false

theorem dropWhile_of_follows {rest : List Byte} (h : Follows rest) : rest.dropWhile isSpace = rest := by
  cases rest with
  | nil => rfl
  | cons b rest => exact List.dropWhile_cons_of_neg (by simp [h b rfl])

theorem dropWhile_blanks (n : ℕ) (rest : List Byte) :
    (blank :: (List.replicate n blank ++ rest)).dropWhile isSpace = rest.dropWhile isSpace := by
  rw [← List.cons_append, ← List.replicate_succ, List.dropWhile_append_of_pos]
  intro b hb
  rw [List.eq_of_mem_replicate hb]
  decide

/-- Behind a newline, the name is looked for at the newline. -/
theorem nameAt_newline (s rest : List Byte) :
    nameAt (s ++ newline :: rest) (s.length + 1) = newline :: rest := by
  unfold nameAt
  rw [if_pos ⟨Nat.succ_pos _, by simp⟩]
  simp

/-- Behind a blank, it is looked for there. -/
theorem nameAt_blank (s rest : List Byte) :
    nameAt (s ++ [blank] ++ rest) (s ++ [blank]).length = rest := by
  unfold nameAt
  rw [if_neg, List.drop_left]
  rintro ⟨-, h⟩
  simp at h
  exact absurd h (by decide)

/-- Where the name is looked for. -/
theorem nameAt_text {rest : List Byte} (hrest : Follows rest) :
    nameAt (line.text ++ rest)
        ((vsscanf (line.text ++ rest).length procFormat (line.text ++ rest)).count.getD 0) =
      line.scannedFn (rest = []) ++ newline :: rest := by
  rw [vsscanf_text, vsscanf_count (List.cons_ne_nil _ _), dropWhile_blanks]
  have htext : line.text ++ rest = line.body ++ newline :: rest := by
    rw [text, List.append_assoc]
    rfl
  by_cases hname : line.name = []
  · have hskip : (line.name ++ newline :: rest).dropWhile isSpace = rest := by
      rw [hname]
      exact (List.dropWhile_cons_of_pos (by decide)).trans (dropWhile_of_follows hrest)
    simp only [hskip]
    by_cases hlast : rest = []
    · -- the format is at its end, and nothing was counted
      have hfn : line.scannedFn (rest = []) = line.body := if_pos ⟨hname, by simpa using hlast⟩
      rw [if_pos hlast, hfn, htext]
      exact if_neg fun h => absurd h.1 (lt_irrefl 0)
    · have hfn : line.scannedFn (rest = []) = [] := by
        rw [scannedFn, if_neg (by simp [hlast]), hname]
      have hcount : (line.text ++ rest).length - rest.length = line.body.length + 1 := by
        rw [List.length_append, Nat.add_sub_cancel, text, List.length_append]
        rfl
      rw [if_neg hlast, hfn, Option.getD_some, hcount, htext]
      exact nameAt_newline _ _
  · have hskip : (line.name ++ newline :: rest).dropWhile isSpace = line.name ++ newline :: rest := by
      refine dropWhile_of_follows fun b hb => line.name_head b ?_
      rw [List.head?_append_of_ne_nil _ hname] at hb
      exact hb
    have hfn : line.scannedFn (rest = []) = line.name := if_neg fun h => hname h.1
    obtain ⟨s, hs⟩ := line.lead_getLast
    have hlead : line.text ++ rest = s ++ [blank] ++ (line.name ++ newline :: rest) := by
      rw [htext, body_eq, hs, List.append_assoc (s ++ [blank])]
    have hcount : (line.text ++ rest).length - (line.name ++ newline :: rest).length =
        (s ++ [blank]).length := by
      rw [hlead, List.length_append, Nat.add_sub_cancel]
    simp only [hskip, if_neg (show line.name ++ newline :: rest ≠ [] by simp), hfn, Option.getD_some,
      hcount]
    rw [hlead]
    exact nameAt_blank _ _

/-- **A line of the listing is read**, with what follows it. -/
theorem readProcmemLine_text {rest : List Byte} (hrest : Follows rest) :
    readProcmemLine (line.text ++ rest) =
      .ok (some ⟨line.region (line.scannedFn (rest = [])), line.scannedFn (rest = []), rest⟩) := by
  have hfn : newline ∉ line.scannedFn (rest = []) := by
    unfold scannedFn
    split_ifs
    · exact line.newline_not_mem_body
    · exact line.name_line
  have htake : (line.scannedFn (rest = []) ++ newline :: rest).takeWhile (· ≠ newline) =
      line.scannedFn (rest = []) := by
    rw [List.takeWhile_append_of_pos]
    · simp
    · intro b hb
      exact decide_eq_true fun h => hfn (h ▸ hb)
  unfold readProcmemLine
  simp only [line.nameAt_text hrest, htake]
  rw [vsscanf_text]
  simp only [List.mem_append, List.mem_cons, true_or, or_true, if_true]
  rw [← List.drop_drop, List.drop_left]
  rfl

/-- A line that is not there to its end stops the recorder. -/
theorem readProcmemLine_cut {b : Byte} {rest : List Byte} (hb : isXdigit b = true)
    (hline : newline ∉ b :: rest) : ∃ fault, readProcmemLine (b :: rest) = .error fault := by
  have hspace := isSpace_eq_false_of_isXdigit b hb
  obtain ⟨v, vs, hvalues⟩ : ∃ v vs,
      (vsscanf (b :: rest).length procFormat (b :: rest)).values = v :: vs := by
    unfold procFormat
    rw [vsscanf, if_neg (List.cons_ne_nil _ _)]
    simp only [Bool.false_eq_true, if_false, List.dropWhile_cons_of_neg (show ¬isSpace b = true by simp [hspace]),
      List.head?_cons, Option.any_some, hb, if_true]
    exact ⟨_, _, rfl⟩
  have htail : ∀ l, newline ∉ nameAt (b :: rest) l := by
    intro l
    unfold nameAt
    split_ifs <;> exact fun h => hline (List.mem_of_mem_drop h)
  unfold readProcmemLine
  simp only [hvalues]
  split
  · next h => cases h
  · rw [if_neg (htail _)]
    exact ⟨_, rfl⟩
  · exact ⟨_, rfl⟩

end MapsLine

end Snitchaser.Checkpoint
