import Distsys.Tinyweb.RequestLine

/-! What is known of a request that the parser accepts: its first line, the fields cut out of it, and
    where the file name leads below the root directory. -/

namespace Distsys.Tinyweb
open Regex

/-- The header of an accepted request, with its first line and the file name cut out of it. -/
structure AcceptedAs (lib : Libc) (buffer : Bytes) (q : ParsedHeader) (l : RequestLine) (rest file : Bytes) : Prop where
  header : cstring buffer = .ok (l.text ++ CR :: rest)
  blank₁ : l.blank₁ = SP
  method : q.method = .text l.method
  get_or_head : l.method = str "GET" ∨ l.method = str "HEAD"
  filename : q.filename = .text file
  slash : file.head? = some 0x2F
  cut : l.blank₂ = SP ∧ file = requestedFile l.path ∨ l.blank₂ = HT ∧ HT ∈ file
  protocol : q.protocol = .text (str "HTTP/1.1")
  isCGI : q.isCGI = (regexec noNewline cgiRegex file).isSome
  accepted : Accepted q.httpState
  fields : RangeFields q

section Accepted
variable {lib : Libc} {buffer s rest file : Bytes} {p q : ParsedHeader} {l : RequestLine}

theorem AcceptedAs.method_isSet (h : AcceptedAs lib buffer q l rest file) : q.method.isSet = true := by
  rw [h.method]
  rfl

theorem AcceptedAs.protocol_isSet (h : AcceptedAs lib buffer q l rest file) : q.protocol.isSet = true := by
  rw [h.protocol]
  rfl

theorem not_accepted : ¬Accepted .internalServerError := by decide

theorem parseProtocol_accepted (h : parseProtocol lib p s = .ok q) (ha : Accepted q.httpState)
    (hp : p.httpState = .internalServerError) : lib.malloc .protocol = true ∧ lib.regcomp .range = true ∧
    (p.method = .text (str "GET") ∨ p.method = .text (str "HEAD")) ∧
    ∃ rest, strtok (· == CR) s = some (str "HTTP/1.1", rest) ∧ (tokens (· == LF) rest).foldlM (parseHeaderLine lib)
      { p with protocol := .text (str "HTTP/1.1"), httpState := .ok } = .ok q := by
  unfold parseProtocol at h
  cases ht : strtok (· == CR) s with
  | none => simp [ht] at h
  | some tr =>
    obtain ⟨t, rest⟩ := tr
    simp only [ht] at h
    cases hm : lib.malloc .protocol with
    | false =>
      simp only [hm, ↓reduceIte, Except.ok.injEq] at h
      subst h
      exact absurd (hp ▸ ha) not_accepted
    | true =>
      simp only [hm, Bool.true_eq_false, ↓reduceIte] at h
      split at h
      · cases h
        exact absurd ha (show ¬Accepted .badRequest by decide)
      · next hv =>
        obtain rfl := of_not_not hv
        split at h
        · cases h
          exact absurd ha (show ¬Accepted .notImplemented by decide)
        · next hmethod =>
          split at h
          · cases h
            exact absurd ha not_accepted
          · next hr => exact ⟨rfl, by simpa using hr, of_not_not hmethod, rest, rfl, h⟩

theorem acceptedFields (h : parseProtocol lib p s = .ok q) (ha : Accepted q.httpState)
    (hp : p.httpState = .internalServerError) (hstart : p.byteStart = -2) (hend : p.byteEnd = -2) :
    q.isCGI = p.isCGI ∧ q.protocol = .text (str "HTTP/1.1") ∧
      (p.method = .text (str "GET") ∨ p.method = .text (str "HEAD")) ∧
      RangeFields q := by
  obtain ⟨-, -, hmethod, rest, -, hfold⟩ := parseProtocol_accepted h ha hp
  obtain ⟨r, hr, hk⟩ := parseHeaderLines_ok lib (tokens (· == LF) rest)
    { p with protocol := .text (str "HTTP/1.1"), httpState := .ok }
  obtain rfl : r = q := Except.ok.inj (hr.symm.trans hfold)
  refine ⟨hk.isCGI, hk.protocol, hmethod, hk.fields ⟨Or.inl rfl, fun _ => ⟨hstart, hend⟩, fun h => ?_, ?_, ?_⟩⟩
  · simp at h
  · simp [hstart]
  · simp [hend]

theorem parseFilename_accepted {m : Pointer} (h : parseFilename lib { method := m } s = .ok q)
    (ha : Accepted q.httpState) :
    (m = .text (str "GET") ∨ m = .text (str "HEAD")) ∧ ∃ t u, strtok (· == SP) s = some (t, u) ∧
      q.filename = .text (if t.length = 1 then DEFAULT_HTML_PAGE else t) ∧
      q.isCGI = (regexec noNewline cgiRegex (if t.length = 1 then DEFAULT_HTML_PAGE else t)).isSome ∧
      q.protocol = .text (str "HTTP/1.1") ∧ RangeFields q := by
  obtain ⟨-, t, u, ht, hq⟩ := parseFilename_ok h
  split at hq
  · next hlen =>
    obtain ⟨hf, hq⟩ := hq
    obtain ⟨hcgi, hprot, hget, hfields⟩ := acceptedFields hq ha rfl rfl rfl
    have hdefault : (regexec noNewline cgiRegex DEFAULT_HTML_PAGE).isSome = false := by decide +kernel
    exact ⟨hget, t, u, ht, by rw [if_pos hlen, hf], by rw [if_pos hlen, hcgi, hdefault], hprot, hfields⟩
  · next hlen =>
    split at hq
    · subst hq
      exact absurd ha not_accepted
    · obtain ⟨hf, hq⟩ := hq
      split at hq
      · subst hq
        exact absurd ha not_accepted
      · obtain ⟨hcgi, hprot, hget, hfields⟩ := acceptedFields hq ha rfl rfl rfl
        exact ⟨hget, t, u, ht, by rw [if_neg hlen, hf], by rw [if_neg hlen, hcgi], hprot, hfields⟩

theorem head?_of_path_prefix {t : Bytes} (h : l.path <+: t) : t.head? = some 0x2F := by
  obtain ⟨a, ext, hp, -⟩ := mem_lang_pathRegex.mp l.path_mem
  obtain ⟨u, rfl⟩ := h
  rw [hp]
  rfl

/-- An accepted request begins with a line that the pattern takes, and `strtok` cut it from the start. -/
theorem parseHttpHeader_accepted_ok (h : parseHttpHeader lib buffer = .ok q) (ha : Accepted q.httpState) :
    lib.regcomp .statusLine = true ∧ lib.malloc .method = true ∧
    ∃ l rest t u, cstring buffer = .ok (RequestLine.text l ++ CR :: rest) ∧ (∀ c ∈ rest.head?, c = LF) ∧
      strtok (· == SP) (l.text ++ CR :: rest) = some (t, u) ∧ q.method = .text t ∧
      parseFilename lib { method := .text t } u = .ok q := by
  unfold parseHttpHeader at h
  split at h
  · cases h
    exact absurd ha not_accepted
  · next hr =>
    cases hc : cstring buffer with
    | error f => simp [hc] at h
    | ok header =>
      simp only [hc, parseHeader] at h
      split at h
      · next e hm =>
        obtain ⟨l, rest, rfl, hnl, rfl⟩ := regexec_statusLine.mp hm
        obtain ⟨t, u, ht, hq⟩ := parseMethod_ok h
        split at hq
        · subst hq
          exact absurd ha not_accepted
        · next hmalloc => exact ⟨by simpa using hr, by simpa using hmalloc, l, rest, t, u, rfl, hnl, ht, hq.1, hq.2⟩
      · cases h
        exact absurd ha (show ¬Accepted .badRequest by decide)

theorem acceptedAs (h : parseHttpHeader lib buffer = .ok q) (ha : Accepted q.httpState) :
    ∃ l rest file, AcceptedAs lib buffer q l rest file := by
  obtain ⟨-, -, l, rest, t, u, hc, -, ht, hmethod, hq⟩ := parseHttpHeader_accepted_ok h ha
  obtain ⟨hget, t₂, u₂, ht₂, hf, hcgi, hprot, hfields⟩ := parseFilename_accepted hq ha
  simp only [Pointer.text.injEq] at hget
  have hht : HT ∉ t := by
    rcases hget with rfl | rfl
    · decide
    · decide
  obtain ⟨hb₁, rfl, rfl⟩ := strtok_method ht hht
  obtain ⟨hpath, hcut⟩ := strtok_path ht₂
  refine ⟨l, rest, _, hc, hb₁, hmethod, hget, hf, ?_, ?_, hprot, hcgi, ha, hfields⟩
  · split
    · rfl
    · exact head?_of_path_prefix hpath
  · rcases hcut with ⟨hb₂, rfl, -⟩ | ⟨hb₂, hht, hlen⟩
    · exact Or.inl ⟨hb₂, by simp only [l.path_length, requestedFile]⟩
    · exact Or.inr ⟨hb₂, by rwa [if_neg hlen]⟩

end Accepted

end Distsys.Tinyweb
