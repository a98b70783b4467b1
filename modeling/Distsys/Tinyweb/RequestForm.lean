import Distsys.Tinyweb.AcceptedRequest

/-! The first line of a request, in its parts at the spaces, and the state that the parser gives the request. The
    class of punctuation has the slash and the hyphen in it, so that a path can be read in several ways: only which
    paths there are counts. -/

namespace Distsys.Tinyweb
open Regex

/-- The bytes before the first line feed, or all of them. -/
def firstLine (s : Bytes) : Bytes := s.takeWhile (· != LF)

/-- A request whose first line has a method of the pattern, a path and a version, with a space between them and a CR
    at the end. -/
structure RequestForm (buffer method path version : Bytes) : Prop where
  header : ∃ s, cstring buffer = .ok s ∧ firstLine s = method ++ SP :: path ++ SP :: version ++ [CR]
  method_mem : method ∈ methods
  path_no_blank : ∀ c ∈ path, isblank c = false
  version_no_blank : ∀ c ∈ version, isblank c = false

/-- Every `regcomp` and every `malloc` succeeds. -/
structure Libc.Succeeds (lib : Libc) : Prop where
  regcomp : ∀ p, lib.regcomp p = true
  malloc : ∀ a, lib.malloc a = true

theorem working_succeeds : Libc.working.Succeeds := ⟨fun _ => rfl, fun _ => rfl⟩

/-! ### The first line -/

section FirstLine
variable {s w rest m p v : Bytes} {l : RequestLine}

theorem firstLine_append (hw : ∀ c ∈ w, (c == LF) = false) (hrest : ∀ c ∈ rest.head?, c = LF) :
    firstLine (w ++ rest) = w := by
  unfold firstLine
  rw [List.takeWhile_append_of_pos fun c hc => by simp [bne, hw c hc]]
  cases rest with
  | nil => simp
  | cons c rest => simp [hrest c rfl]

theorem exists_of_firstLine (h : firstLine s = w) : ∃ rest, s = w ++ rest ∧ ∀ c ∈ rest.head?, c = LF := by
  refine ⟨s.dropWhile (· != LF), ?_, fun c hc => ?_⟩
  · rw [← h, firstLine, List.takeWhile_append_dropWhile]
  · have hhead := List.head?_dropWhile_not (· != LF) s
    rw [Option.mem_def.mp hc] at hhead
    simpa using hhead

theorem RequestLine.firstLine_text (l : RequestLine) (hrest : ∀ c ∈ rest.head?, c = LF) :
    firstLine (l.text ++ CR :: rest) = l.text ++ [CR] := by
  have hline : ∀ c ∈ l.text ++ [CR], (c == LF) = false := by
    intro c hc
    rcases List.mem_append.mp hc with hc | hc
    · exact l.text_no_delim (by decide) (by decide) c hc
    · obtain rfl := List.mem_singleton.mp hc
      decide
  simpa using firstLine_append hline hrest

theorem RequestLine.parts_eq (hm : m ∈ methods) (hp : ∀ c ∈ p, isblank c = false)
    (h : l.text ++ [CR] = m ++ SP :: p ++ SP :: v ++ [CR]) :
    l.method = m ∧ l.blank₁ = SP ∧ l.path = p ∧ l.blank₂ = SP ∧ l.version = v := by
  have graph {w : Bytes} (hw : ∀ c ∈ w, isgraph c = true) : ∀ c ∈ w, isblank c = false := by
    intro c hc
    have hne {b : UInt8} (hb : isgraph b = false) : c ≠ b := ne_of_class (hw c hc) hb
    simp [isblank, hne (show isgraph SP = false by decide), hne (show isgraph HT = false by decide)]
  have hmethod : ∀ c ∈ m, isblank c = false := graph (by
    have hall : ∀ m ∈ methods, ∀ c ∈ m, isgraph c = true := by decide +kernel
    exact hall m hm)
  have hline := List.append_cancel_right h
  simp only [RequestLine.text, List.append_assoc, List.cons_append] at hline
  obtain ⟨h₁, hb₁, hline⟩ := append_cons_inj (graph fun _ => isgraph_of_mem_method) hmethod l.blank₁_isblank
    (by decide) hline
  obtain ⟨h₂, hb₂, hline⟩ := append_cons_inj (graph fun _ => isgraph_of_mem_path) hp l.blank₂_isblank (by decide) hline
  exact ⟨h₁, hb₁, h₂, hb₂, hline⟩

end FirstLine

/-! ### The state -/

section State
variable {lib : Libc} {buffer rest m p v : Bytes} {l : RequestLine}

/-- The fields with which the loop over the header lines begins. -/
def RequestLine.fields (l : RequestLine) (isCGI : Bool) : ParsedHeader where
  method := .text l.method
  filename := .text (requestedFile l.path)
  protocol := .text l.version
  httpState := .ok
  isCGI := isCGI

theorem rangeFields_fields (l : RequestLine) (isCGI : Bool) : RangeFields (l.fields isCGI) where
  state := Or.inl rfl
  ok _ := ⟨rfl, rfl⟩
  partialContent h := by cases h
  start_int := show -2 ^ 31 ≤ (-2 : Int) ∧ (-2 : Int) < 2 ^ 31 by decide
  end_int := show -2 ^ 31 ≤ (-2 : Int) ∧ (-2 : Int) < 2 ^ 31 by decide

theorem parse_of_spaces (hlib : lib.Succeeds) (hc : cstring buffer = .ok (l.text ++ CR :: rest))
    (hrest : ∀ c ∈ rest.head?, c = LF) (hb₁ : l.blank₁ = SP) (hb₂ : l.blank₂ = SP) :
    ∃ isCGI, parseHttpHeader lib buffer =
      if l.version ≠ str "HTTP/1.1" then .ok { l.fields isCGI with httpState := .badRequest }
      else if ¬(l.method = str "GET" ∨ l.method = str "HEAD") then .ok
        { l.fields isCGI with httpState := .notImplemented }
      else (tokens (· == LF) rest).foldlM (parseHeaderLine lib) (l.fields isCGI) := by
  obtain ⟨isCGI, hparse⟩ := parseMethod_spaces rest hb₁ hb₂ (hlib.malloc .method)
    fun _ => ⟨hlib.malloc .filename, hlib.regcomp .cgi⟩
  refine ⟨isCGI, ?_⟩
  rw [parseHttpHeader_accepted hc (hlib.regcomp .statusLine) (regexec_statusLine.mpr ⟨l, rest, rfl, hrest, rfl⟩),
    hparse]
  unfold parseProtocol
  rw [strtok_append l.version_no_CR l.version_ne_nil (by simp)]
  simp only [hlib.malloc .protocol, hlib.regcomp .range, Bool.true_eq_false, ↓reduceIte, Pointer.text.injEq]
  rfl

theorem RequestForm.refused (h : RequestForm buffer m p v) (hlib : lib.Succeeds)
    (hbad : v ≠ str "HTTP/1.1" ∨ ¬IsPath p) : ∃ q, parseHttpHeader lib buffer = .ok q ∧ q.httpState = .badRequest := by
  obtain ⟨s, hc, hline⟩ := h.header
  by_cases hmatch : ∃ e, regexec newline statusLineRegex s = some (0, e)
  · obtain ⟨e, hmatch⟩ := hmatch
    obtain ⟨l, rest, rfl, hrest, -⟩ := regexec_statusLine.mp hmatch
    rw [l.firstLine_text hrest] at hline
    obtain ⟨-, hb₁, rfl, hb₂, rfl⟩ := RequestLine.parts_eq h.method_mem h.path_no_blank hline
    obtain ⟨isCGI, hparse⟩ := parse_of_spaces hlib hc hrest hb₁ hb₂
    have hv := hbad.resolve_right (not_not.mpr (mem_lang_pathRegex.mp l.path_mem))
    rw [hparse, if_pos hv]
    exact ⟨_, rfl, rfl⟩
  · -- There is no match, or it begins further down.
    refine ⟨{ httpState := .badRequest }, ?_, rfl⟩
    unfold parseHttpHeader parseHeader
    simp only [hlib.regcomp .statusLine, Bool.true_eq_false, ↓reduceIte, hc]
    split
    · next e hzero => exact absurd ⟨e, hzero⟩ hmatch
    · rfl

theorem version_mem : str "HTTP/1.1" ∈ versionRegex.lang := by
  simp only [versionRegex, mem_lang_cat, mem_lang_text, mem_lang_set]
  exact ⟨_, rfl, _, ⟨_, ⟨0x31, by decide, rfl⟩, _, ⟨_, ⟨0x2E, by decide, rfl⟩, _, ⟨0x31, by decide, rfl⟩, rfl⟩, rfl⟩,
    rfl⟩

/-- A line with the right version and such a path is one that the pattern takes. -/
theorem RequestForm.exists_line (h : RequestForm buffer m p (str "HTTP/1.1")) (hpath : IsPath p) :
    ∃ (l : RequestLine) (rest : Bytes),
    cstring buffer = .ok (l.text ++ CR :: rest) ∧ (∀ c ∈ rest.head?, c = LF) ∧ l.blank₁ = SP ∧ l.blank₂ = SP ∧
      l.method = m ∧ l.version = str "HTTP/1.1" := by
  obtain ⟨s, hc, hline⟩ := h.header
  obtain ⟨rest, rfl, hrest⟩ := exists_of_firstLine hline
  have hm : m ∈ methodRegex.lang := mem_lang_any.mpr ⟨_, List.mem_map_of_mem h.method_mem, mem_lang_text.mpr rfl⟩
  refine ⟨⟨m, SP, p, SP, str "HTTP/1.1", hm, rfl, mem_lang_pathRegex.mpr hpath, rfl, version_mem⟩, rest, ?_, hrest,
    rfl, rfl, rfl, rfl⟩
  rw [hc]
  simp [RequestLine.text]

/-- What the state is of a request: the version must be right and the path of the form, and only two of the methods
    are there. -/
theorem parse_requestForm (hlib : lib.Succeeds) (h : RequestForm buffer m p v) :
    ∃ q, parseHttpHeader lib buffer = .ok q ∧
    (q.httpState = .badRequest ↔ v ≠ str "HTTP/1.1" ∨ ¬IsPath p) ∧
    (v = str "HTTP/1.1" → IsPath p → (q.httpState = .notImplemented ↔ m ≠ str "GET" ∧ m ≠ str "HEAD")) ∧
    (v = str "HTTP/1.1" → IsPath p → m = str "GET" ∨ m = str "HEAD" →
      q.httpState = .ok ∨ q.httpState = .partialContent ∨ q.httpState = .rangeNotSatisfiable) := by
  by_cases hbad : v ≠ str "HTTP/1.1" ∨ ¬IsPath p
  · obtain ⟨q, hq, hstate⟩ := h.refused hlib hbad
    have hno (hv : v = str "HTTP/1.1") (hp : IsPath p) : False := hbad.elim (absurd hv) (absurd hp)
    exact ⟨q, hq, iff_of_true hstate hbad, fun hv hp => (hno hv hp).elim, fun hv hp => (hno hv hp).elim⟩
  · obtain ⟨rfl, hp⟩ : v = str "HTTP/1.1" ∧ IsPath p := by simpa only [not_or, not_not] using hbad
    obtain ⟨l, rest, hc, hrest, hb₁, hb₂, rfl, hv⟩ := h.exists_line hp
    obtain ⟨isCGI, hparse⟩ := parse_of_spaces hlib hc hrest hb₁ hb₂
    rw [hparse, if_neg (not_not.mpr hv)]
    by_cases hm : l.method = str "GET" ∨ l.method = str "HEAD"
    · obtain ⟨q, hq, hk⟩ := parseHeaderLines_ok lib (tokens (· == LF) rest) (l.fields isCGI)
      have hstate := (hk.fields (rangeFields_fields l isCGI)).state
      have hne : q.httpState ≠ .badRequest ∧ q.httpState ≠ .notImplemented := by
        rcases hstate with hstate | hstate | hstate <;> rw [hstate] <;> decide
      rw [if_neg (not_not.mpr hm)]
      refine ⟨q, hq, iff_of_false hne.1 hbad, fun _ _ => iff_of_false hne.2 ?_, fun _ _ _ => hstate⟩
      rintro ⟨hget, hhead⟩
      exact hm.elim hget hhead
    · rw [if_pos hm]
      exact ⟨_, rfl, iff_of_false (by simp) hbad, fun _ _ => iff_of_true rfl (not_or.mp hm),
        fun _ _ hm' => absurd hm' hm⟩

/-- A path with a hyphen and a group, and a method that is not there. -/
theorem parse_requestForm_example : ∃ q,
    parseHttpHeader .working (str "PUT /a-b/.c HTTP/1.1\r\nA: b\r\n" ++ [NUL]) = .ok q ∧
    (q.httpState = .badRequest ↔ str "HTTP/1.1" ≠ str "HTTP/1.1" ∨ ¬IsPath (str "/a-b/.c")) ∧
    (str "HTTP/1.1" = str "HTTP/1.1" → IsPath (str "/a-b/.c") →
      (q.httpState = .notImplemented ↔ str "PUT" ≠ str "GET" ∧ str "PUT" ≠ str "HEAD")) ∧
    (str "HTTP/1.1" = str "HTTP/1.1" → IsPath (str "/a-b/.c") → str "PUT" = str "GET" ∨ str "PUT" = str "HEAD" →
      q.httpState = .ok ∨ q.httpState = .partialContent ∨ q.httpState = .rangeNotSatisfiable) :=
  parse_requestForm working_succeeds ⟨⟨str "PUT /a-b/.c HTTP/1.1\r\nA: b\r\n", by decide +kernel, by decide +kernel⟩,
    by decide +kernel, by decide +kernel, by decide +kernel⟩

end State

end Distsys.Tinyweb
