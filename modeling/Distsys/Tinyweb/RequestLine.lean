import Distsys.Lib.Path
import Distsys.Tinyweb.RangeLine

/-! The request line. A pattern checks it, and `strtok` then cuts it at spaces and at the next CR. The
    pattern also takes a tab between the parts, where `strtok` does not cut: the two agree exactly when
    both blanks are spaces. -/

namespace Distsys.Tinyweb
open Regex

/-- The parts of a request line, as the pattern takes them. -/
structure RequestLine where
  method : Bytes
  blank₁ : UInt8
  path : Bytes
  blank₂ : UInt8
  version : Bytes
  method_mem : method ∈ methodRegex.lang
  blank₁_isblank : isblank blank₁ = true
  path_mem : path ∈ pathRegex.lang
  blank₂_isblank : isblank blank₂ = true
  version_mem : version ∈ versionRegex.lang

/-- The line without the CR at its end. -/
def RequestLine.text (l : RequestLine) : Bytes := l.method ++ l.blank₁ :: l.path ++ l.blank₂ :: l.version

/-! ### The parts -/

section Words
variable {w : Bytes} {l : RequestLine}

theorem plain_methodRegex : methodRegex.Plain := by
  refine plain_any fun r hr => ?_
  obtain ⟨t, -, rfl⟩ := List.mem_map.mp hr
  exact plain_text t

theorem plain_pathRegex : pathRegex.Plain := by
  refine ⟨plain_text _, plain_any fun r hr => ?_, ⟨trivial, trivial, trivial⟩, trivial⟩
  simp only [List.mem_cons, List.not_mem_nil, or_false] at hr
  rcases hr with rfl | rfl | rfl
  · trivial
  · exact plain_text _
  · exact plain_text _

theorem plain_versionRegex : versionRegex.Plain := ⟨plain_text _, trivial, trivial, trivial⟩

theorem mem_methods (h : w ∈ methodRegex.lang) : w ∈ methods := by
  obtain ⟨r, hr, hw⟩ := mem_lang_any.mp h
  obtain ⟨t, ht, rfl⟩ := List.mem_map.mp hr
  exact mem_lang_text.mp hw ▸ ht

/-- A letter or digit, a slash or a hyphen. -/
def isPathByte (c : UInt8) : Bool := isalnum c || c == 0x2F || c == 0x2D

/-- A slash and any run of letters, digits, slashes and hyphens, and then at most one group: a punctuation character
    and one or more letters or digits. -/
def IsPath (path : Bytes) : Prop := ∃ run group, path = 0x2F :: run ++ group ∧ (∀ c ∈ run, isPathByte c = true) ∧
  (group = [] ∨ ∃ c u, group = c :: u ∧ ispunct c = true ∧ u ≠ [] ∧ ∀ d ∈ u, isalnum d = true)

theorem mem_lang_pathByte {u : Bytes} (h : u ∈ (any [.set isalnum, .text (str "/"), .text (str "-")]).lang) :
    ∀ c ∈ u, isPathByte c = true := by
  intro c hc
  obtain ⟨r, hr, hu⟩ := mem_lang_any.mp h
  simp only [List.mem_cons, List.not_mem_nil, or_false] at hr
  rcases hr with rfl | rfl | rfl
  · obtain ⟨d, hd, rfl⟩ := mem_lang_set.mp hu
    obtain rfl := List.mem_singleton.mp hc
    simp [isPathByte, hd]
  · obtain rfl := mem_lang_text.mp hu
    obtain rfl := List.mem_singleton.mp hc
    decide
  · obtain rfl := mem_lang_text.mp hu
    obtain rfl := List.mem_singleton.mp hc
    decide

theorem pathByte_mem_lang {c : UInt8} (h : isPathByte c = true) :
    [c] ∈ (any [.set isalnum, .text (str "/"), .text (str "-")]).lang := by
  simp only [isPathByte, Bool.or_eq_true, beq_iff_eq] at h
  rcases h with (h | rfl) | rfl
  · exact mem_lang_any.mpr ⟨.set isalnum, by simp, c, h, rfl⟩
  · exact mem_lang_any.mpr ⟨.text (str "/"), by simp, mem_lang_text.mpr rfl⟩
  · exact mem_lang_any.mpr ⟨.text (str "-"), by simp, mem_lang_text.mpr rfl⟩

/-- The slash and the hyphen are in the class of punctuation too, but there is nothing more to the pattern. -/
theorem mem_lang_pathRegex : w ∈ pathRegex.lang ↔ IsPath w := by
  simp only [pathRegex, mem_lang_cat, mem_lang_opt, mem_lang_text, mem_lang_set, mem_lang_plus_set]
  constructor
  · rintro ⟨_, rfl, _, ⟨run, hrun, group, hgroup, rfl⟩, rfl⟩
    refine ⟨run, group, rfl, forall_mem_of_mem_lang_star (fun _ => mem_lang_pathByte) hrun, ?_⟩
    rcases hgroup with ⟨_, ⟨c, hc, rfl⟩, u, ⟨hne, hu⟩, rfl⟩ | rfl
    · exact Or.inr ⟨c, u, rfl, hc, hne, hu⟩
    · exact Or.inl rfl
  · rintro ⟨run, group, rfl, hrun, hgroup⟩
    refine ⟨_, rfl, _, ⟨run, mem_lang_star_of_forall fun c hc => pathByte_mem_lang (hrun c hc), group, ?_, rfl⟩, rfl⟩
    rcases hgroup with rfl | ⟨c, u, rfl, hc, hne, hu⟩
    · exact Or.inr rfl
    · exact Or.inl ⟨_, ⟨c, hc, rfl⟩, u, ⟨hne, hu⟩, rfl⟩

theorem isgraph_of_isalnum {c : UInt8} (h : isalnum c = true) : isgraph c = true := by simp [isgraph, h]

theorem isgraph_of_isPathByte {c : UInt8} (h : isPathByte c = true) : isgraph c = true := by
  simp only [isPathByte, Bool.or_eq_true, beq_iff_eq] at h
  rcases h with (h | rfl) | rfl
  · exact isgraph_of_isalnum h
  · decide
  · decide

theorem isgraph_of_mem_method {c : UInt8} (h : c ∈ l.method) : isgraph c = true := by
  have hall : ∀ m ∈ methods, ∀ c ∈ m, isgraph c = true := by decide +kernel
  exact hall _ (mem_methods l.method_mem) c h

theorem isgraph_of_mem_path {c : UInt8} (h : c ∈ l.path) : isgraph c = true := by
  obtain ⟨a, ext, hp, ha, hext⟩ := mem_lang_pathRegex.mp l.path_mem
  rw [hp, List.cons_append, List.mem_cons, List.mem_append] at h
  rcases h with rfl | h | h
  · decide
  · exact isgraph_of_isPathByte (ha c h)
  · rcases hext with rfl | ⟨d, u, rfl, hd, -, hu⟩
    · simp at h
    · rcases List.mem_cons.mp h with rfl | h
      · simp [isgraph, hd]
      · exact isgraph_of_isalnum (hu c h)

theorem version_cases (l : RequestLine) : ∃ c p d, l.version = str "HTTP/" ++ [c, p, d] ∧ isdigit c = true ∧
    ispunct p = true ∧ isdigit d = true := by
  obtain ⟨_, hh, _, ⟨_, ⟨c, hc, rfl⟩, _, ⟨_, ⟨p, hp, rfl⟩, _, ⟨d, hd, rfl⟩, rfl⟩, rfl⟩, hv⟩ :=
    mem_lang_cat.mp l.version_mem
  obtain rfl := mem_lang_text.mp hh
  exact ⟨c, p, d, hv.symm, hc, hp, hd⟩

theorem isgraph_of_mem_version {c : UInt8} (h : c ∈ l.version) : isgraph c = true := by
  obtain ⟨d, p, e, hv, hd, hp, he⟩ := version_cases l
  rw [hv, List.mem_append] at h
  rcases h with h | h
  · have hall : ∀ c ∈ str "HTTP/", isgraph c = true := by decide +kernel
    exact hall c h
  · simp only [List.mem_cons, List.not_mem_nil, or_false] at h
    rcases h with rfl | rfl | rfl
    · exact isgraph_of_isalnum (isalnum_of_isdigit hd)
    · simp [isgraph, hp]
    · exact isgraph_of_isalnum (isalnum_of_isdigit he)

theorem RequestLine.method_ne_nil (l : RequestLine) : l.method ≠ [] := by
  have hall : ∀ m ∈ methods, m ≠ [] := by decide
  exact hall _ (mem_methods l.method_mem)

theorem RequestLine.path_ne_nil (l : RequestLine) : l.path ≠ [] := by
  obtain ⟨a, ext, hp, -⟩ := mem_lang_pathRegex.mp l.path_mem
  simp [hp]

theorem RequestLine.version_ne_nil (l : RequestLine) : l.version ≠ [] := by
  obtain ⟨d, p, e, hv, -⟩ := version_cases l
  simp [hv, str]

theorem not_delim_of_isgraph {d : UInt8} (hd : isgraph d = false) (hw : ∀ c ∈ w, isgraph c = true) :
    ∀ c ∈ w, (c == d) = false := fun c hc => by simpa using ne_of_class (hw c hc) hd

end Words

/-! ### The match -/

section Match
variable {s rest : Bytes} {e : Nat} {l : RequestLine}

theorem RequestLine.text_no_delim (l : RequestLine) {d : UInt8} (hgraph : isgraph d = false)
    (hblank : isblank d = false) :
    ∀ c ∈ l.text, (c == d) = false := by
  have blank {b : UInt8} (hb : isblank b = true) : (b == d) = false := by
    simpa using ne_of_class hb hblank
  have graph {w : Bytes} (hw : ∀ c ∈ w, isgraph c = true) := not_delim_of_isgraph hgraph hw
  intro c hc
  simp only [text, List.mem_append, List.mem_cons] at hc
  rcases hc with (hc | rfl | hc) | rfl | hc
  · exact graph (fun _ => isgraph_of_mem_method) c hc
  · exact blank l.blank₁_isblank
  · exact graph (fun _ => isgraph_of_mem_path) c hc
  · exact blank l.blank₂_isblank
  · exact graph (fun _ => isgraph_of_mem_version) c hc

theorem RequestLine.text_no_CR (l : RequestLine) : ∀ c ∈ l.text, (c == CR) = false :=
  l.text_no_delim (by decide) (by decide)

theorem matches_statusLineRegex {k : Cursor UInt8} : Matches newline statusLineRegex ⟨[], s⟩ k ↔
    ∃ l : RequestLine, Spans ⟨[], s⟩ (l.text ++ [CR]) k ∧ atLineEnd newline k = true := by
  constructor
  · simp only [statusLineRegex, matches_cat, matches_bol, matches_eol]
    rintro ⟨_, ⟨rfl, -⟩, _, hm, _, hb₁, _, hp, _, hb₂, _, hv, _, hcr, rfl, hend⟩
    obtain ⟨m, hm, hs₁⟩ := hm.lang plain_methodRegex
    obtain ⟨_, ⟨b₁, hb₁, rfl⟩, hs₂⟩ := hb₁.lang (r := .set isblank) trivial
    obtain ⟨p, hp, hs₃⟩ := hp.lang plain_pathRegex
    obtain ⟨_, ⟨b₂, hb₂, rfl⟩, hs₄⟩ := hb₂.lang (r := .set isblank) trivial
    obtain ⟨v, hv, hs₅⟩ := hv.lang plain_versionRegex
    obtain ⟨_, hcr, hs₆⟩ := hcr.lang (plain_text _)
    obtain rfl := mem_lang_text.mp hcr
    refine ⟨⟨m, b₁, p, b₂, v, hm, hb₁, hp, hb₂, hv⟩, ?_, hend⟩
    simpa [RequestLine.text] using ((((hs₁.trans hs₂).trans hs₃).trans hs₄).trans hs₅).trans hs₆
  · rintro ⟨l, hs, hend⟩
    have htext : l.text ++ [CR] = l.method ++ ([l.blank₁] ++
        (l.path ++ ([l.blank₂] ++ (l.version ++ ([CR] ++ []))))) := by
      simp [RequestLine.text]
    rw [htext] at hs
    refine .cat (.bol rfl) (matches_cat_of_lang plain_methodRegex l.method_mem hs fun _ hs => ?_)
    refine matches_cat_of_lang trivial ⟨_, l.blank₁_isblank, rfl⟩ hs fun _ hs => ?_
    refine matches_cat_of_lang plain_pathRegex l.path_mem hs fun _ hs => ?_
    refine matches_cat_of_lang trivial ⟨_, l.blank₂_isblank, rfl⟩ hs fun _ hs => ?_
    refine matches_cat_of_lang plain_versionRegex l.version_mem hs fun _ hs => ?_
    refine matches_cat_of_lang (plain_text _) (mem_lang_text.mpr rfl) hs fun _ hs => ?_
    obtain rfl := spans_nil.mp hs
    exact .eol hend

theorem RequestLine.text_inj {l' : RequestLine} {rest' : Bytes} (h : l.text ++ CR :: rest = l'.text ++ CR :: rest') :
    l.text = l'.text ∧ rest = rest' := by
  obtain ⟨h₁, -, h₂⟩ := append_cons_inj l.text_no_CR l'.text_no_CR (by simp) (by simp) h
  exact ⟨h₁, h₂⟩

/-- `regexec` finds a match at the start exactly of a text that begins with a request line, up to the CR. -/
theorem regexec_statusLine : regexec newline statusLineRegex s = some (0, e) ↔ ∃ l : RequestLine, ∃ rest,
    s = l.text ++ CR :: rest ∧ (∀ c ∈ rest.head?, c = LF) ∧ e = l.text.length + 1 := by
  constructor
  · intro h
    obtain ⟨⟨k, hk, rfl⟩, -⟩ := regexec_eq_some_zero.mp h
    obtain ⟨l, hs, hend⟩ := matches_statusLineRegex.mp hk
    refine ⟨l, k.after, by simpa using hs.1, fun c hc => ?_, by simpa using hs.length⟩
    simpa [atLineEnd, newline, Option.mem_def.mp hc] using hend
  · rintro ⟨l, rest, rfl, hend, rfl⟩
    refine regexec_eq_some_zero.mpr ⟨⟨⟨(l.text ++ [CR]).reverse, rest⟩, matches_statusLineRegex.mpr
      ⟨l, ⟨by simp, by simp⟩, ?_⟩, by simp⟩, fun k hk => ?_⟩
    · cases hr : rest.head? with
      | none => simp [atLineEnd, hr]
      | some c => simp [atLineEnd, hr, newline, hend c hr]
    · obtain ⟨l', hs, -⟩ := matches_statusLineRegex.mp hk
      have heq : l.text ++ CR :: rest = l'.text ++ CR :: k.after := by simpa using hs.1
      have := hs.length
      rw [(RequestLine.text_inj heq).1]
      simp only [List.length_append, List.length_singleton, List.length_nil] at this
      omega

end Match

/-! ### Cutting the line -/

section Cut
variable {lib : Libc} {p q : ParsedHeader} {s rest : Bytes}

theorem parseProtocol_ok (h : parseProtocol lib p s = .ok q) : q.method = p.method ∧ q.filename = p.filename ∧
    q.isCGI = p.isCGI ∧ ∃ t rest, strtok (· == CR) s = some (t, rest) ∧
      q.protocol = if lib.malloc .protocol then .text t else .null := by
  unfold parseProtocol at h
  cases ht : strtok (· == CR) s with
  | none => simp [ht] at h
  | some tr =>
    obtain ⟨t, rest⟩ := tr
    simp only [ht] at h
    refine (?_ : _ ∧ _ ∧ _ ∧ q.protocol = if lib.malloc .protocol then .text t else .null).imp_right
      (And.imp_right (And.imp_right fun hq => ⟨t, rest, rfl, hq⟩))
    cases hm : lib.malloc .protocol with
    | false =>
      simp only [hm, ↓reduceIte, Except.ok.injEq] at h
      subst h
      exact ⟨rfl, rfl, rfl, rfl⟩
    | true =>
      simp only [hm, Bool.true_eq_false, ↓reduceIte] at h ⊢
      split at h
      · cases h
        exact ⟨rfl, rfl, rfl, rfl⟩
      · split at h
        · cases h
          exact ⟨rfl, rfl, rfl, rfl⟩
        · split at h
          · cases h
            exact ⟨rfl, rfl, rfl, rfl⟩
          · obtain ⟨r, hr, hk⟩ := parseHeaderLines_ok lib (tokens (· == LF) rest)
              { p with protocol := .text t, httpState := .ok }
            obtain rfl : r = q := Except.ok.inj (hr.symm.trans h)
            exact ⟨hk.method, hk.filename, hk.isCGI, hk.protocol⟩

theorem parseProtocol_isOk (lib : Libc) (p : ParsedHeader) (rest : Bytes) {v : Bytes}
    (hv : ∀ c ∈ v, (c == CR) = false) (hne : v ≠ []) :
    ∃ q, parseProtocol lib p (v ++ CR :: rest) = .ok q := by
  unfold parseProtocol
  rw [strtok_append hv hne (by simp)]
  simp only
  split
  · exact ⟨_, rfl⟩
  · split
    · exact ⟨_, rfl⟩
    · split
      · exact ⟨_, rfl⟩
      · split
        · exact ⟨_, rfl⟩
        · obtain ⟨r, hr, -⟩ := parseHeaderLines_ok lib (tokens (· == LF) rest)
            { p with protocol := .text v, httpState := .ok }
          exact ⟨r, hr⟩

theorem parseFilename_ok (h : parseFilename lib p s = .ok q) : q.method = p.method ∧
    ∃ t rest, strtok (· == SP) s = some (t, rest) ∧
      if t.length = 1 then q.filename = .text DEFAULT_HTML_PAGE ∧
        parseProtocol lib { p with filename := .text DEFAULT_HTML_PAGE } rest = .ok q
      else if lib.malloc .filename = false then q = { p with filename := .null }
      else q.filename = .text t ∧ if lib.regcomp .cgi = false then q = { p with filename := .text t }
        else parseProtocol lib
          { p with filename := .text t, isCGI := (regexec noNewline cgiRegex t).isSome } rest = .ok q := by
  unfold parseFilename at h
  cases ht : strtok (· == SP) s with
  | none => simp [ht] at h
  | some tr =>
    obtain ⟨t, rest⟩ := tr
    simp only [ht] at h
    by_cases hlen : t.length = 1
    · rw [if_pos hlen] at h
      obtain ⟨hm, hf, -, -⟩ := parseProtocol_ok h
      exact ⟨hm, t, rest, rfl, by rw [if_pos hlen]; exact ⟨hf, h⟩⟩
    · rw [if_neg hlen] at h
      cases hmal : lib.malloc .filename with
      | false =>
        simp only [hmal, ↓reduceIte, Except.ok.injEq] at h
        exact ⟨by rw [← h], t, rest, rfl, by simp [hlen, h]⟩
      | true =>
        simp only [hmal, Bool.true_eq_false, ↓reduceIte] at h
        cases hreg : lib.regcomp .cgi with
        | false =>
          simp only [hreg, ↓reduceIte, Except.ok.injEq] at h
          exact ⟨by rw [← h], t, rest, rfl, by simp [hlen, ← h]⟩
        | true =>
          simp only [hreg, Bool.true_eq_false, ↓reduceIte] at h
          obtain ⟨hm, hf, -, -⟩ := parseProtocol_ok h
          exact ⟨hm, t, rest, rfl, by simp [hlen, hf, h]⟩

theorem parseMethod_ok (h : parseMethod lib s = .ok q) : ∃ t rest, strtok (· == SP) s = some (t, rest) ∧
    if lib.malloc .method = false then q = { method := .null }
    else q.method = .text t ∧ parseFilename lib { method := .text t } rest = .ok q := by
  unfold parseMethod at h
  cases ht : strtok (· == SP) s with
  | none => simp [ht] at h
  | some tr =>
    obtain ⟨t, rest⟩ := tr
    simp only [ht] at h
    cases hmal : lib.malloc .method with
    | false =>
      simp only [hmal, ↓reduceIte, Except.ok.injEq] at h
      exact ⟨t, rest, rfl, by simp [h]⟩
    | true =>
      simp only [hmal, Bool.true_eq_false, ↓reduceIte] at h
      exact ⟨t, rest, rfl, by simp [(parseFilename_ok h).1, h]⟩

/-! The parser faults only where a token is missing. -/

theorem parseProtocol_error {f : Fault} (h : parseProtocol lib p s = .error f) : f = .nullPointer := by
  unfold parseProtocol at h
  split at h
  · cases h
    rfl
  · next t rest _ =>
    simp only at h
    split at h
    · cases h
    · split at h
      · cases h
      · split at h
        · cases h
        · split at h
          · cases h
          · obtain ⟨q, hq, -⟩ := parseHeaderLines_ok lib (tokens (· == LF) rest)
              { p with protocol := .text t, httpState := .ok }
            cases hq.symm.trans h

theorem parseFilename_error {f : Fault} (h : parseFilename lib p s = .error f) : f = .nullPointer := by
  unfold parseFilename at h
  split at h
  · cases h
    rfl
  · split at h
    · exact parseProtocol_error h
    · split at h
      · cases h
      · simp only at h
        split at h
        · cases h
        · exact parseProtocol_error h

theorem parseHeader_error {f : Fault} (h : parseHeader lib s = .error f) : f = .nullPointer := by
  unfold parseHeader at h
  split at h
  · unfold parseMethod at h
    split at h
    · cases h
      rfl
    · split at h
      · cases h
      · exact parseFilename_error h
  · cases h

theorem parseHttpHeader_error {f : Fault} (h : parseHttpHeader lib s = .error f) : f = .nullPointer ∨ f = .overrun := by
  unfold parseHttpHeader at h
  split at h
  · cases h
  · split at h
    · next g hg =>
      cases h
      refine Or.inr ?_
      by_cases hn : NUL ∈ s
      · obtain ⟨t, ht⟩ := cstring_isOk hn
        cases ht.symm.trans hg
      · cases (cstring_eq_error hn).symm.trans hg
        rfl
    · exact Or.inl (parseHeader_error h)

end Cut

/-! ### What the cuts make of an accepted line -/

/-- The file that a path asks for. -/
def requestedFile (path : Bytes) : Bytes := if path = str "/" then DEFAULT_HTML_PAGE else path

/-- The parser returns the parts of the line. -/
def ParsesTo (lib : Libc) (buffer : Bytes) (l : RequestLine) : Prop := ∃ q, parseHttpHeader lib buffer = .ok q ∧
  q.method = .text l.method ∧ q.filename = .text (requestedFile l.path) ∧ q.protocol = .text l.version

/-- The calls of the C library succeed that the request line needs. -/
def Provides (lib : Libc) (l : RequestLine) : Prop := lib.malloc .method = true ∧ lib.malloc .protocol = true ∧
  (l.path ≠ str "/" → lib.malloc .filename = true ∧ lib.regcomp .cgi = true)

section Fields
variable {lib : Libc} {buffer s rest t : Bytes} {e : Nat} {l : RequestLine} {q : ParsedHeader}

theorem RequestLine.text_append (l : RequestLine) :
    l.text ++ rest = l.method ++ l.blank₁ :: (l.path ++ l.blank₂ :: (l.version ++ rest)) := by
  simp [text]

theorem RequestLine.method_no_SP (l : RequestLine) : ∀ c ∈ l.method, (c == SP) = false :=
  not_delim_of_isgraph (by decide) fun _ => isgraph_of_mem_method

theorem RequestLine.path_no_SP (l : RequestLine) : ∀ c ∈ l.path, (c == SP) = false :=
  not_delim_of_isgraph (by decide) fun _ => isgraph_of_mem_path

theorem RequestLine.version_no_CR (l : RequestLine) : ∀ c ∈ l.version, (c == CR) = false :=
  not_delim_of_isgraph (by decide) fun _ => isgraph_of_mem_version

theorem isblank_cases {b : UInt8} (h : isblank b = true) (hb : b ≠ SP) : b = HT := (isblank_iff.mp h).resolve_left hb

theorem RequestLine.path_length (l : RequestLine) : l.path.length = 1 ↔ l.path = str "/" := by
  obtain ⟨a, ext, hp, -⟩ := mem_lang_pathRegex.mp l.path_mem
  rw [hp]
  have hslash : str "/" = [0x2F] := rfl
  simp [hslash]

theorem HT_not_mem_requestedFile (l : RequestLine) : HT ∉ requestedFile l.path := by
  unfold requestedFile
  split
  · decide
  · exact fun h => absurd (isgraph_of_mem_path h) (by decide)

theorem parseHttpHeader_accepted (hc : cstring buffer = .ok s) (hr : lib.regcomp .statusLine = true)
    (hm : regexec newline statusLineRegex s = some (0, e)) : parseHttpHeader lib buffer = parseMethod lib s := by
  simp [parseHttpHeader, parseHeader, hr, hc, hm]

theorem strtok_method {u : Bytes} (h : strtok (· == SP) (l.text ++ rest) = some (t, u)) (ht : HT ∉ t) :
    l.blank₁ = SP ∧ t = l.method ∧ u = l.path ++ l.blank₂ :: (l.version ++ rest) := by
  rw [l.text_append] at h
  rcases strtok_cases l.method_no_SP l.method_ne_nil h with ⟨hb, rfl, rfl⟩ | ⟨hb, v, rfl⟩
  · exact ⟨by simpa using hb, rfl, rfl⟩
  · have hht := isblank_cases l.blank₁_isblank (by simpa using hb)
    exact absurd (by simp [hht]) ht

theorem strtok_path {u : Bytes} (h : strtok (· == SP) (l.path ++ l.blank₂ :: rest) = some (t, u)) :
    l.path <+: t ∧ (l.blank₂ = SP ∧ t = l.path ∧ u = rest ∨ l.blank₂ = HT ∧ HT ∈ t ∧ t.length ≠ 1) := by
  rcases strtok_cases l.path_no_SP l.path_ne_nil h with ⟨hb, rfl, rfl⟩ | ⟨hb, v, rfl⟩
  · exact ⟨List.prefix_refl _, Or.inl ⟨by simpa using hb, rfl, rfl⟩⟩
  · have hht := isblank_cases l.blank₂_isblank (by simpa using hb)
    have := List.length_pos_iff.mpr l.path_ne_nil
    refine ⟨List.prefix_append _ _, Or.inr ⟨hht, by simp [hht], ?_⟩⟩
    simp only [List.length_append, List.length_cons]
    omega

/-- Where both blanks are spaces and the library provides, the first two cuts leave the version to the third. -/
theorem parseMethod_spaces (rest : Bytes) (hb₁ : l.blank₁ = SP) (hb₂ : l.blank₂ = SP)
    (hmethod : lib.malloc .method = true)
    (hfile : l.path ≠ str "/" → lib.malloc .filename = true ∧ lib.regcomp .cgi = true) :
    ∃ isCGI, parseMethod lib (l.text ++ CR :: rest) = parseProtocol lib
      { method := .text l.method, filename := .text (requestedFile l.path), isCGI } (l.version ++ CR :: rest) := by
  rw [l.text_append, hb₁, hb₂]
  unfold parseMethod
  rw [strtok_append l.method_no_SP l.method_ne_nil (by simp)]
  simp only [hmethod, Bool.true_eq_false, ↓reduceIte]
  unfold parseFilename requestedFile
  rw [strtok_append l.path_no_SP l.path_ne_nil (by simp)]
  simp only [l.path_length]
  by_cases hpath : l.path = str "/"
  · exact ⟨false, by rw [if_pos hpath, if_pos hpath]⟩
  · refine ⟨(regexec noNewline cgiRegex l.path).isSome, ?_⟩
    simp only [hpath, (hfile hpath).1, (hfile hpath).2, Bool.true_eq_false, ↓reduceIte]

theorem parseMethod_unprovided (hb₁ : l.blank₁ = SP) (hb₂ : l.blank₂ = SP)
    (h : ¬(lib.malloc .method = true ∧ (l.path ≠ str "/" → lib.malloc .filename = true ∧ lib.regcomp .cgi = true))) :
    ∃ q, parseMethod lib (l.text ++ CR :: rest) = .ok q ∧ q.httpState = .internalServerError := by
  rw [l.text_append, hb₁, hb₂]
  unfold parseMethod
  rw [strtok_append l.method_no_SP l.method_ne_nil (by simp)]
  cases hmethod : lib.malloc .method with
  | false => exact ⟨_, rfl, rfl⟩
  | true =>
    simp only [hmethod, true_and, Classical.not_imp] at h
    obtain ⟨hpath, h⟩ := h
    simp only [Bool.true_eq_false, ↓reduceIte]
    unfold parseFilename
    rw [strtok_append l.path_no_SP l.path_ne_nil (by simp)]
    simp only [l.path_length, if_neg hpath]
    cases hfile : lib.malloc .filename with
    | false => exact ⟨_, rfl, rfl⟩
    | true =>
      have hcgi : lib.regcomp .cgi = false := by simpa [hfile] using h
      simp only [hcgi, Bool.true_eq_false, ↓reduceIte]
      exact ⟨_, rfl, rfl⟩

theorem parsesTo_of_spaces (hb₁ : l.blank₁ = SP) (hb₂ : l.blank₂ = SP) (hp : Provides lib l) :
    ∃ q, parseMethod lib (l.text ++ CR :: rest) = .ok q ∧
      q.method = .text l.method ∧ q.filename = .text (requestedFile l.path) ∧ q.protocol = .text l.version := by
  obtain ⟨hmethod, hprotocol, hfile⟩ := hp
  obtain ⟨isCGI, hparse⟩ := parseMethod_spaces rest hb₁ hb₂ hmethod hfile
  obtain ⟨q, hq⟩ := parseProtocol_isOk lib
    { method := .text l.method, filename := .text (requestedFile l.path), isCGI } rest l.version_no_CR l.version_ne_nil
  obtain ⟨hm, hf, -, t, u, ht, hprot⟩ := parseProtocol_ok hq
  rw [strtok_append l.version_no_CR l.version_ne_nil (by simp)] at ht
  simp only [Option.some.injEq, Prod.mk.injEq] at ht
  exact ⟨q, hparse.trans hq, hm, hf, by simpa [hprotocol, ht.1] using hprot⟩

theorem malloc_of_protocol {p : ParsedHeader} {v : Bytes} (h : parseProtocol lib p s = .ok q)
    (hp : q.protocol = .text v) :
    lib.malloc .protocol = true := by
  obtain ⟨-, -, -, _, _, -, hprot⟩ := parseProtocol_ok h
  cases hpr : lib.malloc .protocol with
  | false => simp [hprot, hpr] at hp
  | true => rfl

/-- The parts are the fields only if `strtok` cuts where the pattern did, and the library provides. -/
theorem spaces_of_parsesTo (h : parseMethod lib (l.text ++ CR :: rest) = .ok q) (hm : q.method = .text l.method)
    (hf : q.filename = .text (requestedFile l.path)) (hp : q.protocol = .text l.version) :
    l.blank₁ = SP ∧ l.blank₂ = SP ∧ Provides lib l := by
  obtain ⟨t, u, ht, hq⟩ := parseMethod_ok h
  cases hmethod : lib.malloc .method with
  | false =>
    rw [if_pos hmethod] at hq
    simp [hq] at hm
  | true =>
    rw [if_neg (by simp [hmethod])] at hq
    obtain ⟨ht', hq⟩ := hq
    obtain rfl : t = l.method := by simpa using ht'.symm.trans hm
    obtain ⟨hb₁, -, rfl⟩ := strtok_method ht fun h => absurd (isgraph_of_mem_method h) (by decide)
    refine ⟨hb₁, ?_⟩
    obtain ⟨-, t₂, u₂, ht₂, hq⟩ := parseFilename_ok hq
    rcases (strtok_path ht₂).2 with ⟨hb₂, rfl, rfl⟩ | ⟨-, hht, hlen⟩
    · refine ⟨hb₂, ?_⟩
      by_cases hpath : l.path = str "/"
      · rw [if_pos (l.path_length.mpr hpath)] at hq
        exact ⟨hmethod, malloc_of_protocol hq.2 hp, fun hne => absurd hpath hne⟩
      · rw [if_neg fun h => hpath (l.path_length.mp h)] at hq
        cases hfile : lib.malloc .filename with
        | false =>
          rw [if_pos hfile] at hq
          simp [hq] at hf
        | true =>
          rw [if_neg (by simp [hfile])] at hq
          cases hcgi : lib.regcomp .cgi with
          | false =>
            rw [if_pos hcgi] at hq
            simp [hq.2] at hp
          | true =>
            rw [if_neg (by simp [hcgi])] at hq
            exact ⟨hmethod, malloc_of_protocol hq.2 hp, fun _ => ⟨hfile, hcgi⟩⟩
    · rw [if_neg hlen] at hq
      cases hfile : lib.malloc .filename with
      | false =>
        rw [if_pos hfile] at hq
        simp [hq] at hf
      | true =>
        rw [if_neg (by simp [hfile])] at hq
        obtain rfl : t₂ = requestedFile l.path := by simpa using hq.1.symm.trans hf
        exact absurd hht (HT_not_mem_requestedFile l)

end Fields

/-! ### The parser and the pattern -/

/-- The fields of an accepted request are the parts of its first line exactly when both blanks are
    spaces and the library provides what the line needs. -/
theorem parsesTo_iff {lib : Libc} {buffer s : Bytes} {e : Nat} (hc : cstring buffer = .ok s)
    (hr : lib.regcomp .statusLine = true) (hm : regexec newline statusLineRegex s = some (0, e)) :
    ∃ l : RequestLine, ∃ rest, s = l.text ++ CR :: rest ∧ s.take e = l.text ++ [CR] ∧
      (ParsesTo lib buffer l ↔ l.blank₁ = SP ∧ l.blank₂ = SP ∧ Provides lib l) := by
  have hparse := parseHttpHeader_accepted hc hr hm
  obtain ⟨l, rest, rfl, -, rfl⟩ := regexec_statusLine.mp hm
  refine ⟨l, rest, rfl, by simp [List.take_append], ?_⟩
  unfold ParsesTo
  rw [hparse]
  constructor
  · rintro ⟨q, hq, h₁, h₂, h₃⟩
    exact spaces_of_parsesTo hq h₁ h₂ h₃
  · rintro ⟨hb₁, hb₂, hp⟩
    exact parsesTo_of_spaces hb₁ hb₂ hp

theorem parsesTo_iff_example : ∃ l : RequestLine, ∃ rest, str "GET /a.html HTTP/1.1\r\n" = l.text ++ CR :: rest ∧
    (str "GET /a.html HTTP/1.1\r\n").take 21 = l.text ++ [CR] ∧
      (ParsesTo .working (str "GET /a.html HTTP/1.1\r\n" ++ [NUL]) l ↔
        l.blank₁ = SP ∧ l.blank₂ = SP ∧ Provides .working l) :=
  parsesTo_iff (by decide +kernel) rfl (by decide +kernel)

/-- A tab after the method: the pattern takes the line, and the third `strtok` finds nothing. -/
theorem tab_after_method : cstring (str "GET\t/a.html HTTP/1.1\r\n" ++ [NUL]) = .ok (str "GET\t/a.html HTTP/1.1\r\n") ∧
    regexec newline statusLineRegex (str "GET\t/a.html HTTP/1.1\r\n") = some (0, 21) ∧
    ∀ l, ¬ParsesTo .working (str "GET\t/a.html HTTP/1.1\r\n" ++ [NUL]) l := by
  refine ⟨by decide +kernel, by decide +kernel, ?_⟩
  rintro l ⟨q, hq, -⟩
  have hfault : parseHttpHeader .working (str "GET\t/a.html HTTP/1.1\r\n" ++ [NUL]) = .error .nullPointer := by
    decide +kernel
  cases hfault.symm.trans hq

end Distsys.Tinyweb
