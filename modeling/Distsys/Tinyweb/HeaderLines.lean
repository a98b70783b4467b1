import Distsys.Tinyweb.RequestForm

/-! The header lines of an accepted request: the loop of `parse_http_header` over the lines that follow the three
    tokens of the request line. The last line with a range and the last line with a date decide. -/

namespace Distsys.Tinyweb
open Regex

/-! ### The last hit -/

section Last
variable {α β : Type}

/-- What the last hit of a list gives, and `d` where nothing hits. -/
def lastOf (f : α → Option β) (d : β) (ls : List α) : β := ((ls.filterMap f).getLast?).getD d

theorem lastOf_cons (f : α → Option β) (d : β) (a : α) (ls : List α) :
    lastOf f d (a :: ls) = lastOf f ((f a).getD d) ls := by
  unfold lastOf
  cases h : f a with
  | none => rw [List.filterMap_cons_none h, Option.getD_none]
  | some b =>
    rw [List.filterMap_cons_some h, List.getLast?_cons, Option.getD_some, Option.getD_some]

theorem lastOf_filter (f : α → Option β) (d : β) (ls : List α) :
    lastOf f d (ls.filter fun a => (f a).isSome) = lastOf f d ls := by
  unfold lastOf
  rw [List.filterMap_filter]
  congr 3
  funext a
  cases f a <;> rfl

theorem lastOf_append_cons {f : α → Option β} {d b : β} {a : α} {pre post : List α} (ha : f a = some b)
    (hpost : ∀ x ∈ post, f x = none) : lastOf f d (pre ++ a :: post) = b := by
  unfold lastOf
  rw [List.filterMap_append, List.filterMap_cons_some ha, List.filterMap_eq_nil_iff.mpr hpost, List.getLast?_append]
  rfl

theorem lastOf_const {f : α → Option β} {d : β} {ls : List α} (h : ∀ x ∈ ls, ∀ b, f x = some b → b = d) :
    lastOf f d ls = d := by
  induction ls with
  | nil => rfl
  | cons x ls ih =>
    have hx : (f x).getD d = d := by
      cases hf : f x with
      | none => rfl
      | some b => exact h x List.mem_cons_self b hf
    rw [lastOf_cons, hx]
    exact ih fun y hy => h y (List.mem_cons_of_mem _ hy)

theorem lastOf_forall₂ {f : α → Option β} {R : α → α → Prop} (hR : ∀ x y, R x y → f y = f x) :
    ∀ {ls ls' : List α} {d : β}, List.Forall₂ R ls ls' → lastOf f d ls' = lastOf f d ls
  | _, _, _, .nil => rfl
  | _, _, _, .cons h hs => by
    rw [lastOf_cons, lastOf_cons, hR _ _ h]
    exact lastOf_forall₂ hR hs

theorem lastOf_none {f : α → Option β} {d : β} {ls : List α} (h : ∀ x ∈ ls, f x = none) : lastOf f d ls = d := by
  unfold lastOf
  rw [List.filterMap_eq_nil_iff.mpr h]
  rfl

end Last

/-! ### The loop -/

/-- What the range of a line sets, if it is a range line: the state and the two values. -/
def rangeOf (line : Bytes) : Option (HttpStatus × Int × Int) :=
  match regexec noNewline rangeRegex line with
  | none => none
  | some (_, matchEnd) => match scanRange line matchEnd with
    | .error _ => none
    | .ok (startValue, endValue) => some (rangeState startValue endValue, startValue, endValue)

/-- What a range line can change. -/
def ParsedHeader.range (p : ParsedHeader) : HttpStatus × Int × Int := (p.httpState, p.byteStart, p.byteEnd)

theorem ParsedHeader.range_eq_iff {p : ParsedHeader} {state : HttpStatus} {a b : Int} :
    p.range = (state, a, b) ↔ p.httpState = state ∧ p.byteStart = a ∧ p.byteEnd = b := by
  simp only [ParsedHeader.range, Prod.mk.injEq]

/-- The state and the values that the last range line sets. -/
def lastRange (ls : List Bytes) : HttpStatus × Int × Int := lastOf rangeOf (.ok, -2, -2) ls

/-- The time of the last date line. -/
def lastDate (lib : Libc) (ls : List Bytes) : Time := lastOf lib.ifModifiedSince .epoch ls

/-- The fields after the lines. -/
def ParsedHeader.withLines (lib : Libc) (p : ParsedHeader) (ls : List Bytes) : ParsedHeader where
  method := p.method
  filename := p.filename
  protocol := p.protocol
  httpState := (lastOf rangeOf p.range ls).1
  modsince := lastOf lib.ifModifiedSince p.modsince ls
  byteStart := (lastOf rangeOf p.range ls).2.1
  byteEnd := (lastOf rangeOf p.range ls).2.2
  isCGI := p.isCGI

section Loop
variable {lib : Libc} {p : ParsedHeader} {line name first last rest : Bytes}

theorem rangeOf_of_isRange (h : IsRange line name first last rest) :
    rangeOf line = some (rangeState (rangeValue first) (rangeValue last), rangeValue first, rangeValue last) := by
  unfold rangeOf
  rw [regexec_range.mpr ⟨rfl, name, first, last, rest, h, rfl⟩]
  simp only [scanRange_of_isRange h]

theorem rangeOf_eq_none_iff : rangeOf line = none ↔ ∀ name first last rest, ¬IsRange line name first last rest := by
  constructor
  · intro h name first last rest hr
    cases h.symm.trans (rangeOf_of_isRange hr)
  · intro h
    unfold rangeOf
    rw [regexec_eq_none_iff.mpr h]

theorem parseHeaderLine_eq (lib : Libc) (p : ParsedHeader) (line : Bytes) :
    parseHeaderLine lib p line = .ok (p.withLines lib [line]) := by
  by_cases h : ∃ name first last rest, IsRange line name first last rest
  · obtain ⟨name, first, last, rest, h⟩ := h
    rw [parseHeaderLine_of_isRange h]
    simp only [ParsedHeader.withLines, lastOf_cons, rangeOf_of_isRange h]
    rfl
  · simp only [not_exists] at h
    rw [parseHeaderLine_of_not_isRange h]
    simp only [ParsedHeader.withLines, lastOf_cons, rangeOf_eq_none_iff.mpr h]
    rfl

/-- The loop over the lines, as what the last of each kind makes of the fields. -/
theorem parseHeaderLines_eq (lib : Libc) : ∀ (ls : List Bytes) (p : ParsedHeader),
    ls.foldlM (parseHeaderLine lib) p = .ok (p.withLines lib ls)
  | [], _ => rfl
  | line :: ls, p => by
    rw [List.foldlM_cons, parseHeaderLine_eq]
    show ls.foldlM (parseHeaderLine lib) (p.withLines lib [line]) = _
    rw [parseHeaderLines_eq lib ls]
    simp only [ParsedHeader.withLines, ParsedHeader.range, lastOf_cons]
    rfl

end Loop

/-! ### The three tokens -/

/-- `strtok` cuts the string into the method, the file and the right version, and leaves the header lines. -/
def Cut (s method file rest : Bytes) : Prop := ∃ u v, strtok (· == SP) s = some (method, u) ∧
  strtok (· == SP) u = some (file, v) ∧ strtok (· == CR) v = some (str "HTTP/1.1", rest)

/-- The library does what the parser needs for these tokens, and the method is one of the two. -/
structure Supported (lib : Libc) (m file : Bytes) : Prop where
  statusLine : lib.regcomp .statusLine = true
  range : lib.regcomp .range = true
  method : lib.malloc .method = true
  protocol : lib.malloc .protocol = true
  filename : file.length ≠ 1 → lib.malloc .filename = true ∧ lib.regcomp .cgi = true
  get_or_head : m = str "GET" ∨ m = str "HEAD"

theorem Libc.Succeeds.supported {lib : Libc} {m : Bytes} (hlib : lib.Succeeds) (file : Bytes)
    (hm : m = str "GET" ∨ m = str "HEAD") : Supported lib m file where
  statusLine := hlib.regcomp _
  range := hlib.regcomp _
  method := hlib.malloc _
  protocol := hlib.malloc _
  filename _ := ⟨hlib.malloc _, hlib.regcomp _⟩
  get_or_head := hm

/-- The fields with which the loop begins. -/
def tokenFields (method file : Bytes) : ParsedHeader where
  method := .text method
  filename := .text (if file.length = 1 then DEFAULT_HTML_PAGE else file)
  protocol := .text (str "HTTP/1.1")
  httpState := .ok
  isCGI := if file.length = 1 then false else (regexec noNewline cgiRegex file).isSome

section Cut
variable {lib : Libc} {buffer s method file rest : Bytes} {q : ParsedHeader}

theorem accepted_withLines (lib : Libc) (method file : Bytes) (ls : List Bytes) :
    Accepted ((tokenFields method file).withLines lib ls).httpState := by
  obtain ⟨q, hq, hk⟩ := parseHeaderLines_ok lib ls (tokenFields method file)
  obtain rfl := Except.ok.inj ((parseHeaderLines_eq lib ls _).symm.trans hq)
  exact hk.accepted accepted_ok

theorem Cut.unique (h : Cut s method file rest) {method' file' rest' : Bytes} (h' : Cut s method' file' rest') :
    method' = method ∧ file' = file ∧ rest' = rest := by
  obtain ⟨u, v, h₁, h₂, h₃⟩ := h
  obtain ⟨u', v', h₁', h₂', h₃'⟩ := h'
  obtain ⟨rfl, rfl⟩ := Prod.mk.inj (Option.some.inj (h₁'.symm.trans h₁))
  obtain ⟨rfl, rfl⟩ := Prod.mk.inj (Option.some.inj (h₂'.symm.trans h₂))
  exact ⟨rfl, rfl, (Prod.mk.inj (Option.some.inj (h₃'.symm.trans h₃))).2⟩

theorem protocol_withLines {v : Bytes} {p : ParsedHeader} (h : parseProtocol lib p v = .ok q)
    (ha : Accepted q.httpState) (hp : p.httpState = .internalServerError) : lib.malloc .protocol = true ∧
      lib.regcomp .range = true ∧
      (p.method = .text (str "GET") ∨ p.method = .text (str "HEAD")) ∧
      ∃ rest, strtok (· == CR) v = some (str "HTTP/1.1", rest) ∧
        q = { p with protocol := .text (str "HTTP/1.1"), httpState := .ok : ParsedHeader }.withLines lib
          (tokens (· == LF) rest) := by
  obtain ⟨hmalloc, hreg, hmethod, rest, hcut, hfold⟩ := parseProtocol_accepted h ha hp
  rw [parseHeaderLines_eq] at hfold
  exact ⟨hmalloc, hreg, hmethod, rest, hcut, (Except.ok.inj hfold).symm⟩

/-- A request is accepted exactly when the pattern takes its start, the tokens are right and the library provides;
    the lines behind the tokens then give the result. -/
theorem accepted_iff (hc : cstring buffer = .ok s) : parseHttpHeader lib buffer = .ok q ∧ Accepted q.httpState ↔
    (∃ e, regexec newline statusLineRegex s = some (0, e)) ∧ ∃ method file rest, Cut s method file rest ∧
      Supported lib method file ∧ q = (tokenFields method file).withLines lib (tokens (· == LF) rest) := by
  constructor
  · rintro ⟨h, ha⟩
    obtain ⟨hr, hmalloc, l, _, t, u, hc', hrest, ht, -, hq⟩ := parseHttpHeader_accepted_ok h ha
    obtain rfl := Except.ok.inj (hc.symm.trans hc')
    refine ⟨⟨_, regexec_statusLine.mpr ⟨l, _, rfl, hrest, rfl⟩⟩, ?_⟩
    obtain ⟨-, file, v, hfile, hq⟩ := parseFilename_ok hq
    split at hq
    · next hlen =>
      obtain ⟨hprot, hrange, hmethod, rest, hcut, hlines⟩ := protocol_withLines hq.2 ha rfl
      refine ⟨t, file, rest, ⟨u, v, ht, hfile, hcut⟩,
        ⟨hr, hrange, hmalloc, hprot, fun hne => absurd hlen hne, by simpa using hmethod⟩, ?_⟩
      rw [hlines, tokenFields, if_pos hlen, if_pos hlen]
    · next hlen =>
      split at hq
      · subst hq
        exact absurd ha not_accepted
      · next hname =>
        obtain ⟨-, hq⟩ := hq
        split at hq
        · subst hq
          exact absurd ha not_accepted
        · next hcgi =>
          obtain ⟨hprot, hrange, hmethod, rest, hcut, hlines⟩ := protocol_withLines hq ha rfl
          refine ⟨t, file, rest, ⟨u, v, ht, hfile, hcut⟩,
            ⟨hr, hrange, hmalloc, hprot, fun _ => ⟨by simpa using hname, by simpa using hcgi⟩,
            by simpa using hmethod⟩, ?_⟩
          rw [hlines, tokenFields, if_neg hlen, if_neg hlen]
  · rintro ⟨⟨e, hmatch⟩, method, file, rest, ⟨u, v, h₁, h₂, h₃⟩, hs, rfl⟩
    refine ⟨?_, accepted_withLines lib method file _⟩
    rw [parseHttpHeader_accepted hc hs.statusLine hmatch]
    unfold parseMethod parseFilename parseProtocol
    simp only [h₁, h₂, h₃, hs.method, hs.protocol, hs.range, hs.get_or_head, Pointer.text.injEq, ne_eq,
      Bool.true_eq_false, not_true_eq_false, ↓reduceIte, parseHeaderLines_eq]
    by_cases hlen : file.length = 1
    · simp only [hlen, ↓reduceIte, tokenFields]
    · obtain ⟨hname, hcgi⟩ := hs.filename hlen
      simp only [hlen, hname, hcgi, Bool.true_eq_false, ↓reduceIte, tokenFields]

theorem eq_withLines_of_cut (hc : cstring buffer = .ok s) (h : parseHttpHeader lib buffer = .ok q)
    (ha : Accepted q.httpState) (hcut : Cut s method file rest) :
      q = (tokenFields method file).withLines lib (tokens (· == LF) rest) := by
  obtain ⟨-, method', file', rest', hcut', -, hq⟩ := (accepted_iff hc).mp ⟨h, ha⟩
  obtain ⟨rfl, rfl, rfl⟩ := hcut.unique hcut'
  exact hq

end Cut

/-! ### The header lines of a request line -/

/-- An accepted request: its request line, up to a CR, and the text of its header lines. -/
structure Accepts (lib : Libc) (buffer : Bytes) (l : RequestLine) (rest : Bytes) (q : ParsedHeader) : Prop where
  header : cstring buffer = .ok (l.text ++ CR :: rest)
  newline : ∀ c ∈ rest.head?, c = LF
  parse : parseHttpHeader lib buffer = .ok q
  accepted : Accepted q.httpState

/-- The lines that the loop over the header comes to. -/
def headerLines (rest : Bytes) : List Bytes := tokens (· == LF) rest

section Blanks
variable {lib : Libc} {buffer rest w m file r line tail : Bytes} {l : RequestLine} {q : ParsedHeader}

/-- Between spaces the tokens are the parts of the request line, and the header lines are what follows it. -/
theorem cut_spaces_iff (hb₁ : l.blank₁ = SP) (hb₂ : l.blank₂ = SP) : Cut (l.text ++ CR :: rest) m file r ↔
    l.version = str "HTTP/1.1" ∧ m = l.method ∧ file = l.path ∧ r = rest := by
  have h₁ : strtok (· == SP) (l.method ++ SP :: (l.path ++ SP :: (l.version ++ CR :: rest))) =
      some (l.method, l.path ++ SP :: (l.version ++ CR :: rest)) :=
        strtok_append l.method_no_SP l.method_ne_nil (by simp)
  have h₂ : strtok (· == SP) (l.path ++ SP :: (l.version ++ CR :: rest)) = some (l.path, l.version ++ CR :: rest) :=
    strtok_append l.path_no_SP l.path_ne_nil (by simp)
  have h₃ : strtok (· == CR) (l.version ++ CR :: rest) = some (l.version, rest) :=
    strtok_append l.version_no_CR l.version_ne_nil (by simp)
  unfold Cut
  rw [l.text_append, hb₁, hb₂, h₁]
  constructor
  · rintro ⟨u, v, hm, hfile, hv⟩
    obtain ⟨rfl, rfl⟩ := Prod.mk.inj (Option.some.inj hm)
    obtain ⟨rfl, rfl⟩ := Prod.mk.inj (Option.some.inj (h₂.symm.trans hfile))
    obtain ⟨hversion, rfl⟩ := Prod.mk.inj (Option.some.inj (h₃.symm.trans hv))
    exact ⟨hversion, rfl, rfl, rfl⟩
  · rintro ⟨hversion, rfl, rfl, rfl⟩
    exact ⟨_, _, rfl, h₂, hversion ▸ h₃⟩

/-- Behind a tab the second token goes on to the first space, in one of the header lines. -/
theorem cut_tab (hb₁ : l.blank₁ = SP) (hb₂ : l.blank₂ = HT) (hw : ∀ c ∈ w, (c == SP) = false) :
    Cut (l.text ++ CR :: (w ++ SP :: (str "HTTP/1.1" ++ CR :: r))) l.method (l.path ++ HT :: (l.version ++ CR :: w))
      r := by
  have hfile : ∀ c ∈ l.path ++ HT :: (l.version ++ CR :: w), (c == SP) = false := by
    intro c hc
    simp only [List.mem_append, List.mem_cons] at hc
    rcases hc with hc | rfl | hc | rfl | hc
    · exact l.path_no_SP c hc
    · decide
    · exact not_delim_of_isgraph (by decide) (fun _ => isgraph_of_mem_version) c hc
    · decide
    · exact hw c hc
  refine ⟨_, _, ?_, strtok_append (d := SP) hfile (by simp) (by simp),
    strtok_append (w := str "HTTP/1.1") (d := CR) (by decide +kernel) (by decide) (by simp)⟩
  rw [l.text_append, hb₁, hb₂, strtok_append l.method_no_SP l.method_ne_nil (by simp)]
  simp

theorem Accepts.eq_withLines (h : Accepts lib buffer l rest q) (hb₁ : l.blank₁ = SP) (hb₂ : l.blank₂ = SP) :
    q = (tokenFields l.method l.path).withLines lib (headerLines rest) := by
  obtain ⟨-, m, file, r, hcut, -, hq⟩ := (accepted_iff h.header).mp ⟨h.parse, h.accepted⟩
  obtain ⟨-, rfl, rfl, rfl⟩ := (cut_spaces_iff hb₁ hb₂).mp hcut
  exact hq

/-- Header text in which the first line goes into the file name, when a tab precedes the version, and the second has
    the token that is taken for the version. -/
def swallowing (line tail : Bytes) : Bytes := LF :: line ++ LF :: str "A: HTTP/1.1" ++ CR :: tail

theorem headerLines_swallowing (hline : ∀ c ∈ line, (c == LF) = false) (hne : line ≠ [])
    (htail : ∀ c ∈ tail, (c == LF) = false) :
    headerLines (swallowing line tail) = [line, str "A: HTTP/1.1" ++ CR :: tail] := by
  have hlast : ∀ c ∈ str "A: HTTP/1.1" ++ CR :: tail, (c == LF) = false := by
    intro c hc
    rcases List.mem_append.mp hc with hc | hc
    · have hall : ∀ c ∈ str "A: HTTP/1.1", (c == LF) = false := by decide +kernel
      exact hall c hc
    · rcases List.mem_cons.mp hc with rfl | hc
      · decide
      · exact htail c hc
  unfold headerLines swallowing
  rw [List.append_assoc, List.cons_append, tokens_cons_delim (by decide), List.cons_append, tokens_line hline
    (by decide), if_neg hne, tokens_all hlast, if_neg (by simp)]

/-- Of such a text the parser sees the lines from behind that token on. -/
theorem accepts_swallowing (hlib : lib.Succeeds) (hb₁ : l.blank₁ = SP) (hb₂ : l.blank₂ = HT)
    (hm : l.method = str "GET" ∨ l.method = str "HEAD") (line tail : Bytes) (hline : ∀ c ∈ line, (c == SP) = false)
    (hnul : NUL ∉ line) (htail : NUL ∉ tail) : ∃ buffer file, Accepts lib buffer l (swallowing line tail)
      ((tokenFields l.method file).withLines lib (tokens (· == LF) tail)) := by
  have hw : ∀ c ∈ LF :: line ++ LF :: str "A:", (c == SP) = false := by
    intro c hc
    simp only [List.cons_append, List.mem_cons, List.mem_append] at hc
    rcases hc with rfl | hc | rfl | hc
    · decide
    · exact hline c hc
    · decide
    · have hall : ∀ c ∈ str "A:", (c == SP) = false := by decide +kernel
      exact hall c hc
  have htext : swallowing line tail = (LF :: line ++ LF :: str "A:") ++ SP :: (str "HTTP/1.1" ++ CR :: tail) := by
    have hx : str "A: HTTP/1.1" = str "A:" ++ SP :: str "HTTP/1.1" := by decide +kernel
    simp [swallowing, hx]
  have hno : NUL ∉ l.text ++ CR :: swallowing line tail := by
    have htoken : NUL ∉ str "A: HTTP/1.1" := by decide +kernel
    have hctl : NUL ≠ CR ∧ NUL ≠ LF := by decide
    simp only [swallowing, List.cons_append, List.mem_append, List.mem_cons, not_or]
    refine ⟨fun hmem => ?_, hctl.1, hctl.2, ⟨hnul, hctl.2, htoken⟩, hctl.1, htail⟩
    simpa using l.text_no_delim (d := NUL) (by decide) (by decide) NUL hmem
  have hc : cstring (l.text ++ CR :: swallowing line tail ++ [NUL]) = .ok (l.text ++ CR :: swallowing line tail) :=
    cstring_append_nul hno
  have hnew : ∀ c ∈ (swallowing line tail).head?, c = LF := by
    intro c hc
    simpa [swallowing, eq_comm] using hc
  obtain ⟨hparse, hacc⟩ := (accepted_iff hc).mpr ⟨⟨_, regexec_statusLine.mpr ⟨l, _, rfl, hnew, rfl⟩⟩, _, _, _,
    htext ▸ cut_tab hb₁ hb₂ hw, hlib.supported _ hm, rfl⟩
  exact ⟨_, _, hc, hnew, hparse, hacc⟩

end Blanks

/-! ### What the header lines decide -/

/-- In every accepted request with this request line the last range line alone gives the state and the range, and the
    last date line alone the time; other lines do not matter, nor does the order of a range line and a date line. -/
structure LastDecides (l : RequestLine) : Prop where
  range : ∀ {lib buffer rest q}, Accepts lib buffer l rest q → q.range = lastRange (headerLines rest)
  date : ∀ {lib buffer rest q}, Accepts lib buffer l rest q → q.modsince = lastDate lib (headerLines rest)
  others : ∀ {lib buffer buffer' rest rest' q q'}, Accepts lib buffer l rest q → Accepts lib buffer' l rest' q' →
    (headerLines rest).filter (fun line => (regexec noNewline rangeRegex line).isSome) =
      (headerLines rest').filter (fun line => (regexec noNewline rangeRegex line).isSome) →
    (headerLines rest).filter (fun line => (lib.ifModifiedSince line).isSome) =
      (headerLines rest').filter (fun line => (lib.ifModifiedSince line).isSome) → q = q'

section Decide
variable {l : RequestLine} {line : Bytes}

theorem rangeOf_isSome (line : Bytes) : (rangeOf line).isSome = (regexec noNewline rangeRegex line).isSome := by
  rw [Bool.eq_iff_iff, ← not_iff_not]
  simp only [Bool.not_eq_true, Option.isSome_eq_false_iff, Option.isNone_iff_eq_none, rangeOf_eq_none_iff,
    regexec_eq_none_iff]

theorem lastDecides_of_spaces (hb₁ : l.blank₁ = SP) (hb₂ : l.blank₂ = SP) : LastDecides l where
  range h := by
    rw [h.eq_withLines hb₁ hb₂]
    rfl
  date h := by
    rw [h.eq_withLines hb₁ hb₂]
    rfl
  others {lib _ _ rest rest' _ _} h h' hrange hdate := by
    simp only [← rangeOf_isSome] at hrange
    rw [h.eq_withLines hb₁ hb₂, h'.eq_withLines hb₁ hb₂]
    simp only [ParsedHeader.withLines]
    rw [← lastOf_filter rangeOf _ (headerLines rest), hrange, lastOf_filter,
      ← lastOf_filter lib.ifModifiedSince _ (headerLines rest), hdate, lastOf_filter]

/-- The last lines decide for every list of header lines exactly when the version is behind a space. -/
theorem lastDecides_iff (hb₁ : l.blank₁ = SP) (hm : l.method = str "GET" ∨ l.method = str "HEAD") :
    LastDecides l ↔ l.blank₂ = SP := by
  refine ⟨fun h => ?_, lastDecides_of_spaces hb₁⟩
  by_contra hb₂
  -- A range line that goes into the file name.
  obtain ⟨buffer, file, hacc⟩ := accepts_swallowing working_succeeds hb₁ (isblank_cases l.blank₂_isblank hb₂)
    hm (str "Range:bytes=0-5") [] (by decide +kernel) (by decide +kernel) (by decide)
  have hlines : headerLines (swallowing (str "Range:bytes=0-5") []) =
      [str "Range:bytes=0-5", str "A: HTTP/1.1" ++ [CR]] :=
    headerLines_swallowing (by decide +kernel) (by decide) (by simp)
  have hrange := h.range hacc
  rw [hlines] at hrange
  have hlast : lastRange [str "Range:bytes=0-5", str "A: HTTP/1.1" ++ [CR]] = (.partialContent, 0, 5) := by
    decide +kernel
  cases hrange.trans hlast

end Decide

theorem get_mem : str "GET" ∈ methodRegex.lang :=
  mem_lang_any.mpr ⟨.text (str "GET"), by simp [methods], mem_lang_text.mpr rfl⟩

theorem slash_mem : str "/" ∈ pathRegex.lang := mem_lang_pathRegex.mpr ⟨[], [], rfl, by simp, Or.inl rfl⟩

/-- `GET / HTTP/1.1`, with a space or a tab before the version. -/
def slashLine (blank : UInt8) (h : isblank blank = true) : RequestLine where
  method := str "GET"
  blank₁ := SP
  path := str "/"
  blank₂ := blank
  version := str "HTTP/1.1"
  method_mem := get_mem
  blank₁_isblank := rfl
  path_mem := slash_mem
  blank₂_isblank := h
  version_mem := version_mem

theorem lastDecides_iff_example : LastDecides (slashLine SP rfl) ↔ SP = SP :=
  lastDecides_iff (l := slashLine SP rfl) rfl (Or.inl rfl)

/-- With a tab before the version the range line goes into the file name. -/
theorem swallowed_range : ¬LastDecides (slashLine HT rfl) := by
  intro h
  have hacc : Accepts .working (str "GET /\tHTTP/1.1\r\nRange:bytes=0-5\r\nA: HTTP/1.1\r\n\r\n" ++ [NUL])
    (slashLine HT rfl)
      (str "\nRange:bytes=0-5\r\nA: HTTP/1.1\r\n\r\n") {
        method := .text (str "GET")
        filename := .text (str "/\tHTTP/1.1\r\nRange:bytes=0-5\r\nA:")
        protocol := .text (str "HTTP/1.1")
        httpState := .ok } := ⟨by decide +kernel, by decide +kernel, by decide +kernel, by decide⟩
  have hrange := h.range hacc
  have hlast : lastRange (headerLines (str "\nRange:bytes=0-5\r\nA: HTTP/1.1\r\n\r\n")) = (.partialContent, 0, 5) := by
    decide +kernel
  cases hrange.trans hlast

end Distsys.Tinyweb
