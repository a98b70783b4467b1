import Distsys.Tinyweb.HeaderLines

/-! What the parser takes for a range (`src/http_parser.c`): how much of the line the pattern looks at, which numbers
    make a partial request, and what becomes of numbers that do not fit in an `int`. -/

namespace Distsys.Tinyweb
open Regex

/-! ### The rest of the line -/

/-- Nothing but blanks, and the CR at the end. -/
def BlankTail (rest : Bytes) : Prop := ∃ blanks cr, rest = blanks ++ cr ∧ (∀ c ∈ blanks, isblank c = true) ∧
    (cr = [] ∨ cr = [CR])

/-- The complete line is a name, one range and blanks. The letters of `bytes=` are small, while those of `Range` are
    any. -/
def IsRangeLine (line : Bytes) : Prop := ∃ name first last rest, IsRange line name first last rest ∧
  str "bytes=" <:+ name ∧ BlankTail rest

/-- What `strtok` can give for a header line. -/
structure IsHeaderLine (line : Bytes) : Prop where
  nonempty : line ≠ []
  no_LF : LF ∉ line
  no_NUL : NUL ∉ line

/-- In every accepted request with this header line, where the loop comes to it: it changes the state and the range only
    as a complete range line. -/
def ChangesOnly (line : Bytes) : Prop := ∀ {lib buffer s m file text pre post q}, cstring buffer = .ok s →
  parseHttpHeader lib buffer = .ok q → Accepted q.httpState → Cut s m file text →
  headerLines text = pre ++ line :: post →
    ∃ p p', pre.foldlM (parseHeaderLine lib) (tokenFields m file) = .ok p ∧ parseHeaderLine lib p line = .ok p' ∧
      post.foldlM (parseHeaderLine lib) p' = .ok q ∧ (p'.range ≠ p.range → IsRangeLine line)

section Tail
variable {lib : Libc} {buffer s m file text line name first last rest : Bytes} {pre post : List Bytes}
  {p q : ParsedHeader} {l : RequestLine}

theorem range_withLines_singleton (lib : Libc) (p : ParsedHeader) (line : Bytes) :
    (p.withLines lib [line]).range = (rangeOf line).getD p.range := by
  simp only [ParsedHeader.withLines, lastOf_cons]
  rfl

/-- The loop comes to every line of an accepted request, and goes on to the result. -/
theorem parse_splits (hc : cstring buffer = .ok s) (hparse : parseHttpHeader lib buffer = .ok q)
    (ha : Accepted q.httpState) (hcut : Cut s m file text) (hlines : headerLines text = pre ++ line :: post) :
    pre.foldlM (parseHeaderLine lib) (tokenFields m file) = .ok ((tokenFields m file).withLines lib pre) ∧
      post.foldlM (parseHeaderLine lib) (((tokenFields m file).withLines lib pre).withLines lib [line]) = .ok q := by
  have hall : (pre ++ line :: post).foldlM (parseHeaderLine lib) (tokenFields m file) = .ok q := by
    rw [← hlines, eq_withLines_of_cut hc hparse ha hcut, parseHeaderLines_eq]
    rfl
  rw [List.foldlM_append, parseHeaderLines_eq lib pre] at hall
  have hrest : (line :: post).foldlM (parseHeaderLine lib) ((tokenFields m file).withLines lib pre) = .ok q := hall
  rw [List.foldlM_cons, parseHeaderLine_eq] at hrest
  exact ⟨parseHeaderLines_eq lib pre _, hrest⟩

/-- The request with this line and no other. -/
theorem accepts_line (hb₁ : l.blank₁ = SP) (hb₂ : l.blank₂ = SP) (hm : l.method = str "GET" ∨ l.method = str "HEAD")
    (hv : l.version = str "HTTP/1.1") (hline : IsHeaderLine line) :
      ∃ q, Accepts .working (l.text ++ CR :: LF :: line ++ [NUL]) l
      (LF :: line) q ∧ headerLines (LF :: line) = [line] := by
  have hlines : headerLines (LF :: line) = [line] := by
    have hdelim : ∀ c ∈ line, (c == LF) = false := fun c hc => by simpa using ne_of_mem_of_not_mem hc hline.no_LF
    unfold headerLines
    rw [tokens_cons_delim (by decide), tokens_all hdelim, if_neg hline.nonempty]
  have hno : NUL ∉ l.text ++ CR :: LF :: line := by
    have hctl : NUL ≠ CR ∧ NUL ≠ LF := by decide
    simp only [List.mem_append, List.mem_cons, not_or]
    refine ⟨fun hmem => ?_, hctl.1, hctl.2, hline.no_NUL⟩
    simpa using l.text_no_delim (d := NUL) (by decide) (by decide) NUL hmem
  have hc : cstring (l.text ++ CR :: LF :: line ++ [NUL]) = .ok (l.text ++ CR :: LF :: line) := cstring_append_nul hno
  have hnew : ∀ c ∈ (LF :: line).head?, c = LF := by
    intro c hc
    simpa [eq_comm] using hc
  obtain ⟨hparse, hacc⟩ := (accepted_iff hc).mpr ⟨⟨_, regexec_statusLine.mpr ⟨l, _, rfl, hnew, rfl⟩⟩, _, _, _,
    (cut_spaces_iff hb₁ hb₂).mpr ⟨hv, rfl, rfl, rfl⟩, working_succeeds.supported _ hm, rfl⟩
  exact ⟨_, ⟨hc, hnew, hparse, hacc⟩, hlines⟩

/-- A line changes the state and the range only when it is complete, exactly if a range at its start is written with a
    small `bytes=` and no other text follows it. -/
theorem changesOnly_iff (hline : IsHeaderLine line) : ChangesOnly line ↔
    ∀ name first last rest, IsRange line name first last rest → str "bytes=" <:+ name ∧ BlankTail rest := by
  constructor
  · intro h name first last rest hrange
    -- The line stands alone below the request line of the default page.
    obtain ⟨q, hacc, hlines⟩ := accepts_line (l := slashLine SP rfl) rfl rfl (Or.inl rfl) rfl hline
    have hcut : Cut ((slashLine SP rfl).text ++ CR :: LF :: line) (str "GET") (str "/") (LF :: line) :=
      (cut_spaces_iff rfl rfl).mpr ⟨rfl, rfl, rfl, rfl⟩
    have halone : headerLines (LF :: line) = [] ++ [line] := hlines
    obtain ⟨p, p', hp, hp', -, hchange⟩ := h hacc.header hacc.parse hacc.accepted hcut halone
    obtain rfl := Except.ok.inj hp
    rw [parseHeaderLine_eq] at hp'
    obtain rfl := Except.ok.inj hp'
    rw [range_withLines_singleton, rangeOf_of_isRange hrange] at hchange
    obtain ⟨name', first', last', rest', hrange', hbytes, htail⟩ := hchange fun hsame => by
      have hstate : rangeState (rangeValue first) (rangeValue last) = .ok := congrArg Prod.fst hsame
      rcases rangeState_cases (rangeValue first) (rangeValue last) with h | h <;> cases h.symm.trans hstate
    obtain ⟨rfl, -, -, rfl⟩ := hrange.unique hrange'
    exact ⟨hbytes, htail⟩
  · intro h lib buffer s m file text pre post q hc hparse ha hcut hlines
    obtain ⟨hpre, hpost⟩ := parse_splits hc hparse ha hcut hlines
    refine ⟨_, _, hpre, parseHeaderLine_eq lib _ line, hpost, fun hchange => ?_⟩
    obtain ⟨name, first, last, rest, hrange⟩ : ∃ name first last rest, IsRange line name first last rest := by
      by_contra hno
      simp only [not_exists] at hno
      rw [range_withLines_singleton, rangeOf_eq_none_iff.mpr hno] at hchange
      exact hchange rfl
    exact ⟨name, first, last, rest, hrange, h name first last rest hrange⟩

end Tail

theorem rangeLine_isHeaderLine : IsHeaderLine (str "range:bytes=7- \r") :=
  ⟨by decide, by decide +kernel, by decide +kernel⟩

theorem changesOnly_iff_example : ChangesOnly (str "range:bytes=7- \r") ↔ ∀ name first last rest,
    IsRange (str "range:bytes=7- \r") name first last rest → str "bytes=" <:+ name ∧ BlankTail rest :=
  changesOnly_iff rangeLine_isHeaderLine

/-- A list of two ranges: the first is taken, and the rest of the line is not looked at. -/
theorem rangeList_changes :
    ∃ q, parseHttpHeader .working (str "GET / HTTP/1.1\r\nRange: bytes=0-5,10-20\r\n" ++ [NUL]) = .ok q ∧
    headerLines (str "\nRange: bytes=0-5,10-20\r\n") = [str "Range: bytes=0-5,10-20\r"] ∧
    q.range = (.partialContent, 0, 5) ∧ ¬IsRangeLine (str "Range: bytes=0-5,10-20\r") := by
  refine ⟨{
    method := .text (str "GET")
    filename := .text DEFAULT_HTML_PAGE
    protocol := .text (str "HTTP/1.1")
    httpState := .partialContent
    byteStart := 0
    byteEnd := 5 }, by decide +kernel, by decide +kernel, by decide, ?_⟩
  rintro ⟨name, first, last, rest, hline, -, blanks, cr, hrest, hblanks, hcr⟩
  have hlist : IsRange (str "Range: bytes=0-5,10-20\r") (str "Range: bytes=") (str "0") (str "5") (str ",10-20\r") :=
    ⟨by decide +kernel, rangeName_mem, by decide +kernel, by decide +kernel, Or.inl (by decide), by decide +kernel⟩
  obtain ⟨-, -, -, rfl⟩ := hlist.unique hline
  cases blanks with
  | nil => rcases hcr with rfl | rfl <;> cases hrest
  | cons c blanks =>
    have hcomma : 0x2C = c := (List.cons.inj hrest).1
    exact absurd (hblanks c List.mem_cons_self) (hcomma ▸ by decide)

/-! ### The numbers -/

/-- The last of the range lines has these digits on the two sides of the hyphen. -/
def LastRangeIs (ls : List Bytes) (first last : Bytes) : Prop := ∃ pre line post name rest, ls = pre ++ line :: post ∧
  IsRange line name first last rest ∧ ∀ m ∈ post, regexec noNewline rangeRegex m = none

/-- The digits of one range: a-b, a- or -k. -/
structure RangeDigits (first last : Bytes) : Prop where
  first_digits : ∀ c ∈ first, isdigit c = true
  last_digits : ∀ c ∈ last, isdigit c = true
  some_digit : first ≠ [] ∨ last ≠ []

/-- The request lines of accepted requests: behind a tab the version does not matter, for another token is taken. -/
structure Acceptable (l : RequestLine) : Prop where
  blank₁ : l.blank₁ = SP
  get_or_head : l.method = str "GET" ∨ l.method = str "HEAD"
  version : l.blank₂ = SP → l.version = str "HTTP/1.1"

section Numbers
variable {lib : Libc} {buffer rest first last line : Bytes} {l : RequestLine} {q : ParsedHeader} {ls : List Bytes}

theorem lastRange_of_digits (h : LastRangeIs ls first last) :
    lastRange ls = (rangeState (rangeValue first) (rangeValue last), rangeValue first, rangeValue last) := by
  obtain ⟨pre, line, post, name, rest, rfl, hline, hpost⟩ := h
  refine lastOf_append_cons (rangeOf_of_isRange hline) fun m hm => ?_
  exact rangeOf_eq_none_iff.mpr (regexec_eq_none_iff.mp (hpost m hm))

theorem Accepts.range_of_digits (h : Accepts lib buffer l rest q) (hb₁ : l.blank₁ = SP) (hb₂ : l.blank₂ = SP)
    (hd : LastRangeIs (headerLines rest) first last) :
    q.httpState = rangeState (rangeValue first) (rangeValue last) ∧ q.byteStart = rangeValue first ∧
      q.byteEnd = rangeValue last :=
  ParsedHeader.range_eq_iff.mp (((lastDecides_of_spaces hb₁ hb₂).range h).trans (lastRange_of_digits hd))

theorem rangeName_head {name : Bytes} (h : name ∈ rangeNameRegex.lang) : ∃ c n, name = c :: n ∧ tolower c = 0x72 := by
  obtain ⟨w, hw, u, -, rfl⟩ := mem_lang_cat.mp h
  obtain ⟨c, n, rfl, hc, -⟩ := List.map_eq_cons_iff.mp (mem_lang_textIcase.mp hw)
  exact ⟨c, n ++ u, rfl, hc⟩

/-- The line with the digits and nothing more. -/
def rangeText (first last : Bytes) : Bytes := str "Range:bytes=" ++ first ++ 0x2D :: last

theorem isRange_rangeText (hd : RangeDigits first last) :
    IsRange (rangeText first last) (str "Range:bytes=") first last [] where
  eq := by simp [rangeText]
  name_mem := by
    simp only [rangeNameRegex, mem_lang_cat, mem_lang_star_set, mem_lang_text, mem_lang_textIcase]
    exact ⟨str "Range", rfl, _, ⟨[], by simp, _, ⟨_, rfl, _, ⟨[], by simp, str "bytes=", rfl, rfl⟩, rfl⟩, rfl⟩, rfl⟩
  first_digits := hd.first_digits
  last_digits := hd.last_digits
  some_digit := hd.some_digit
  stop := by simp

theorem rangeText_ne (hd : RangeDigits first last) {d : UInt8} (hno : isgraph d = false) :
    ∀ c ∈ rangeText first last, (c == d) = false := by
  have digits {w : Bytes} (hw : ∀ c ∈ w, isdigit c = true) : ∀ c ∈ w, isgraph c = true := fun c hc =>
    isgraph_of_isalnum (isalnum_of_isdigit (hw c hc))
  refine not_delim_of_isgraph hno fun c hc => ?_
  simp only [rangeText, List.mem_append, List.mem_cons] at hc
  rcases hc with (hc | hc) | rfl | hc
  · have hall : ∀ c ∈ str "Range:bytes=", isgraph c = true := by decide +kernel
    exact hall c hc
  · exact digits hd.first_digits c hc
  · decide
  · exact digits hd.last_digits c hc

theorem rangeText_ne_nil : rangeText first last ≠ [] := by simp [rangeText]

theorem rangeText_isHeaderLine (hd : RangeDigits first last) : IsHeaderLine (rangeText first last) where
  nonempty := rangeText_ne_nil
  no_LF hmem := by simpa using rangeText_ne hd (d := LF) (by decide) LF hmem
  no_NUL hmem := by simpa using rangeText_ne hd (d := NUL) (by decide) NUL hmem

theorem accepts_rangeText (hl : Acceptable l) (hb₂ : l.blank₂ = SP) (hd : RangeDigits first last) :
    ∃ buffer q, Accepts .working buffer l (LF :: rangeText first last) q ∧
      LastRangeIs (headerLines (LF :: rangeText first last)) first last := by
  obtain ⟨q, hacc, hlines⟩ := accepts_line hl.blank₁ hb₂ hl.get_or_head (hl.version hb₂) (rangeText_isHeaderLine hd)
  refine ⟨_, q, hacc, ?_⟩
  rw [hlines]
  exact ⟨[], _, [], _, [], rfl, isRange_rangeText hd, by simp⟩

/-- Behind a tab, a request in which this line is not read, and the tail behind the version is. -/
theorem accepts_swallowed (hl : Acceptable l) (hb₂ : l.blank₂ ≠ SP) (hd : RangeDigits first last) (tail : Bytes)
    (hnul : NUL ∉ tail) (htail : ∀ c ∈ tail, (c == LF) = false) : ∃ buffer rest q, Accepts .working buffer l rest q ∧
      LastRangeIs (headerLines rest) first last ∧ q.range = lastRange (headerLines tail) := by
  obtain ⟨buffer, file, hacc⟩ := accepts_swallowing working_succeeds hl.blank₁ (isblank_cases l.blank₂_isblank hb₂)
    hl.get_or_head (rangeText first last) tail (rangeText_ne hd (by decide))
    (fun hmem => by simpa using rangeText_ne hd (d := NUL) (by decide) NUL hmem) hnul
  refine ⟨buffer, _, _, hacc, ?_, rfl⟩
  rw [headerLines_swallowing (rangeText_ne hd (by decide)) rangeText_ne_nil htail]
  refine ⟨[], _, [str "A: HTTP/1.1" ++ CR :: tail], _, [], rfl, isRange_rangeText hd, fun m hm => ?_⟩
  obtain rfl := List.mem_singleton.mp hm
  -- The second line begins with another name.
  refine regexec_eq_none_iff.mpr fun name first' last' rest' hline => ?_
  obtain ⟨c, n, rfl, hc⟩ := rangeName_head hline.name_mem
  obtain rfl : 0x41 = c := (List.cons.inj hline.eq).1
  exact absurd hc (by decide)

/-! ### Numbers that fit in an `int` -/

/-- The range is a-b with a ≤ b, or a-, or -k with k > 0. -/
def Satisfiable (first last : Bytes) : Prop :=
  if last = [] then True
  else if first = [] then 0 < value last
  else value first ≤ value last

/-- In every accepted request with this request line whose last range line has these numbers, the state tells
    whether the range can be satisfied. -/
def AnsweredRight (l : RequestLine) (first last : Bytes) : Prop := ∀ {lib buffer rest q}, Accepts lib buffer l rest q →
  LastRangeIs (headerLines rest) first last → (q.httpState = .partialContent ↔ Satisfiable first last) ∧
    (¬Satisfiable first last → q.httpState = .rangeNotSatisfiable)

instance (first last : Bytes) : Decidable (Satisfiable first last) :=
  inferInstanceAs (Decidable (if last = [] then True else
    if first = [] then 0 < value last else value first ≤ value last))

theorem rangeState_satisfiable (hd : RangeDigits first last) (hfirst : value first ≤ INT_MAX)
    (hlast : value last ≤ INT_MAX) :
    rangeState (rangeValue first) (rangeValue last) = .partialContent ↔
      Satisfiable first last ∧ ¬(first ≠ [] ∧ last ≠ [] ∧ value first = value last) := by
  rw [rangeState_partialContent_iff]
  unfold Satisfiable
  by_cases hl : last = []
  · have hf : first ≠ [] := hd.some_digit.resolve_right (not_not.mpr hl)
    rw [rangeValue_of_ne_nil hf hfirst, rangeValue, if_pos hl, if_pos hl]
    simp [hl]
  · rw [rangeValue_of_ne_nil hl hlast, if_neg hl]
    by_cases hf : first = []
    · rw [rangeValue, if_pos hf, if_pos hf]
      simp [hf]
    · rw [rangeValue_of_ne_nil hf hfirst, if_neg hf]
      simp only [ne_eq, hf, hl, not_false_eq_true, true_and]
      omega

theorem answeredRight_iff (hl : Acceptable l) (hd : RangeDigits first last) (hfirst : value first ≤ INT_MAX)
    (hlast : value last ≤ INT_MAX) : AnsweredRight l first last ↔
      l.blank₂ = SP ∧ ¬(first ≠ [] ∧ last ≠ [] ∧ value first = value last) := by
  constructor
  · intro h
    have hb₂ : l.blank₂ = SP := by
      by_contra hb₂
      -- The request is answered as one without a range.
      obtain ⟨buffer, rest, q, hacc, hrange, hq⟩ := accepts_swallowed hl hb₂ hd [] (by simp) (by simp)
      obtain ⟨hok, -, -⟩ := ParsedHeader.range_eq_iff.mp hq
      have hright := h hacc hrange
      rw [hok] at hright
      by_cases hs : Satisfiable first last
      · cases hright.1.mpr hs
      · cases hright.2 hs
    refine ⟨hb₂, fun heq => ?_⟩
    obtain ⟨buffer, q, hacc, hrange⟩ := accepts_rangeText hl hb₂ hd
    obtain ⟨hstate, -, -⟩ := hacc.range_of_digits hl.blank₁ hb₂ hrange
    have hs : Satisfiable first last := by
      unfold Satisfiable
      rw [if_neg heq.2.1, if_neg heq.1]
      exact Nat.le_of_eq heq.2.2
    have hpartial := (h hacc hrange).1.mpr hs
    rw [hstate, rangeState_satisfiable hd hfirst hlast] at hpartial
    exact hpartial.2 heq
  · rintro ⟨hb₂, hne⟩ lib buffer rest q hacc hrange
    obtain ⟨hstate, -, -⟩ := hacc.range_of_digits hl.blank₁ hb₂ hrange
    have hiff := rangeState_satisfiable hd hfirst hlast
    rw [hstate]
    refine ⟨hiff.trans (and_iff_left hne), fun hs => ?_⟩
    exact (rangeState_cases _ _).resolve_left fun hpartial => hs (hiff.mp hpartial).1

/-! ### Numbers that do not -/

/-- What is left of a number in 32 bits. -/
def residue (w : Bytes) : Nat := value w % 2 ^ 32

/-- What is left of the numbers makes a range that the parser takes. -/
def TakenModulo (first last : Bytes) : Prop :=
  if last = [] then residue first < 2 ^ 31
  else if first = [] then 0 < residue last ∧ residue last < 2 ^ 31
  else if residue first = 2 ^ 32 - 1 then 0 < residue last ∧ residue last < 2 ^ 31
  else residue first < 2 ^ 31 ∧ (residue last = 2 ^ 32 - 1 ∨ residue first < residue last ∧ residue last < 2 ^ 31)

/-- In no accepted request with this request line whose last range line has these numbers, another range is served:
    the values of a partial request are those of the numbers, and none of them looks like a number that is not set. -/
def NeverOther (l : RequestLine) (first last : Bytes) : Prop := ∀ {lib buffer rest q}, Accepts lib buffer l rest q →
  LastRangeIs (headerLines rest) first last → q.httpState = .partialContent →
    (first ≠ [] → q.byteStart = value first ∧ q.byteStart ≠ -1 ∧ q.byteStart ≠ -2) ∧
    (last ≠ [] → q.byteEnd = value last ∧ q.byteEnd ≠ -1 ∧ q.byteEnd ≠ -2)

theorem wrap32_residue (w : Bytes) : residue w < 2 ^ 31 ∧ wrap32 (value w) = residue w ∨
    2 ^ 31 ≤ residue w ∧ residue w < 2 ^ 32 ∧ wrap32 (value w) = residue w - 2 ^ 32 := by
  have hlt : residue w < 2 ^ 32 := Nat.mod_lt _ (by decide)
  have hmod : ((value w : Int) % (2 ^ 32 : Nat)) = residue w := by
    unfold residue
    exact (Int.natCast_mod _ _).symm
  unfold wrap32
  rw [Int.bmod_def, hmod]
  split <;> omega

theorem rangeState_modulo (hd : RangeDigits first last) :
    rangeState (rangeValue first) (rangeValue last) = .partialContent ↔ TakenModulo first last := by
  rw [rangeState_partialContent_iff]
  unfold TakenModulo rangeValue
  have hfirst := wrap32_residue first
  have hlast := wrap32_residue last
  by_cases hl : last = []
  · have hf : first ≠ [] := hd.some_digit.resolve_right (not_not.mpr hl)
    rw [if_pos hl, if_neg hf, if_pos hl]
    omega
  · rw [if_neg hl, if_neg hl]
    by_cases hf : first = []
    · rw [if_pos hf, if_pos hf]
      omega
    · rw [if_neg hf, if_neg hf]
      split <;> omega

theorem rangeValue_ne {w : Bytes} (h : INT_MAX < value w) : rangeValue w ≠ value w := by
  have hint := (rangeValue_int w).2
  unfold INT_MAX at h
  omega

theorem neverOther_iff (hl : Acceptable l) (hd : RangeDigits first last)
    (hover : INT_MAX < value first ∨ INT_MAX < value last) : NeverOther l first last ↔
      l.blank₂ = SP ∧ ¬TakenModulo first last := by
  have hne {w : Bytes} (h : INT_MAX < value w) : w ≠ [] := by
    rintro rfl
    cases h
  constructor
  · intro h
    have hb₂ : l.blank₂ = SP := by
      by_contra hb₂
      -- The range behind the other version is served.
      obtain ⟨buffer, rest, q, hacc, hrange, hq⟩ := accepts_swallowed hl hb₂ hd (str "Range:bytes=1-2")
        (by decide +kernel) (by decide +kernel)
      have htail : lastRange (headerLines (str "Range:bytes=1-2")) = (.partialContent, 1, 2) := by decide +kernel
      obtain ⟨hstate, hstart, hend⟩ := ParsedHeader.range_eq_iff.mp (hq.trans htail)
      obtain ⟨hfirst, hlast⟩ := h hacc hrange hstate
      unfold INT_MAX at hover hne
      rcases hover with hover | hover
      · have hvalue := hstart.symm.trans (hfirst (hne hover)).1
        omega
      · have hvalue := hend.symm.trans (hlast (hne hover)).1
        omega
    refine ⟨hb₂, fun htaken => ?_⟩
    obtain ⟨buffer, q, hacc, hrange⟩ := accepts_rangeText hl hb₂ hd
    obtain ⟨hstate, hstart, hend⟩ := hacc.range_of_digits hl.blank₁ hb₂ hrange
    obtain ⟨hfirst, hlast⟩ := h hacc hrange (hstate.trans ((rangeState_modulo hd).mpr htaken))
    rcases hover with hover | hover
    · exact rangeValue_ne hover (hstart.symm.trans (hfirst (hne hover)).1)
    · exact rangeValue_ne hover (hend.symm.trans (hlast (hne hover)).1)
  · rintro ⟨hb₂, hno⟩ lib buffer rest q hacc hrange hpartial
    obtain ⟨hstate, -, -⟩ := hacc.range_of_digits hl.blank₁ hb₂ hrange
    exact absurd ((rangeState_modulo hd).mp (hstate.symm.trans hpartial)) hno

end Numbers

theorem slashLine_acceptable : Acceptable (slashLine SP rfl) := ⟨rfl, Or.inl rfl, fun _ => rfl⟩

theorem answeredRight_iff_example : AnsweredRight (slashLine SP rfl) (str "3") (str "07") ↔
    SP = SP ∧ ¬(str "3" ≠ [] ∧ str "07" ≠ [] ∧ value (str "3") = value (str "07")) :=
  answeredRight_iff slashLine_acceptable ⟨by decide +kernel, by decide +kernel, Or.inl (by decide)⟩
    (by decide +kernel) (by decide +kernel)

/-- The range of the first byte alone is refused. -/
theorem oneByte_refused : ∃ q,
    parseHttpHeader .working (str "GET / HTTP/1.1\r\nRange: bytes=0-0\r\n\r\n" ++ [NUL]) = .ok q ∧
    LastRangeIs (headerLines (str "\nRange: bytes=0-0\r\n\r\n")) (str "0") (str "0") ∧ Satisfiable (str "0") (str "0") ∧
    q.httpState = .rangeNotSatisfiable := by
  refine ⟨{
    method := .text (str "GET")
    filename := .text DEFAULT_HTML_PAGE
    protocol := .text (str "HTTP/1.1")
    httpState := .rangeNotSatisfiable
    byteStart := 0
    byteEnd := 0 }, by decide +kernel, ?_, by decide +kernel, rfl⟩
  refine ⟨[], str "Range: bytes=0-0\r", [str "\r"], str "Range: bytes=", str "\r",
    by decide +kernel, ?_, by decide +kernel⟩
  exact ⟨by decide +kernel, rangeName_mem, by decide +kernel, by decide +kernel, Or.inl (by decide), by decide +kernel⟩

theorem neverOther_iff_example : NeverOther (slashLine SP rfl) (str "3") (str "2147483648") ↔
    SP = SP ∧ ¬TakenModulo (str "3") (str "2147483648") :=
  neverOther_iff slashLine_acceptable ⟨by decide +kernel, by decide +kernel, Or.inl (by decide)⟩
    (Or.inr (by decide +kernel))

/-- 2^32 as the start of a range is 0. -/
theorem overflow_served : ∃ q,
    parseHttpHeader .working (str "GET / HTTP/1.1\r\nRange: bytes=4294967296-\r\n\r\n" ++ [NUL]) = .ok q ∧
    LastRangeIs (headerLines (str "\nRange: bytes=4294967296-\r\n\r\n")) (str "4294967296") [] ∧
    INT_MAX < value (str "4294967296") ∧ q.httpState = .partialContent ∧ q.byteStart = 0 := by
  refine ⟨{
    method := .text (str "GET")
    filename := .text DEFAULT_HTML_PAGE
    protocol := .text (str "HTTP/1.1")
    httpState := .partialContent
    byteStart := 0
    byteEnd := -1 }, by decide +kernel, ?_, by decide +kernel, rfl, rfl⟩
  refine ⟨[], str "Range: bytes=4294967296-\r", [str "\r"], str "Range: bytes=", str "\r",
    by decide +kernel, ?_, by decide +kernel⟩
  exact ⟨by decide +kernel, rangeName_mem, by decide +kernel, by decide +kernel, Or.inl (by decide), by decide +kernel⟩

end Distsys.Tinyweb
