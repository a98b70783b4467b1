import Distsys.Tinyweb.AcceptedRequest

/-! Range requests: GET requests whose header lines name one range, and what the parser makes of them. -/

namespace Distsys.Tinyweb
open Regex

/-- A range of bytes: from `a` to `b`, or the last `k`. -/
inductive ByteRange where
  | closed (a b : Nat)
  | suffix (k : Nat)

namespace ByteRange

/-- The first byte that is meant in a file of `n` bytes. -/
def first (n : Nat) : ByteRange → Nat
  | closed a _ => a
  | suffix k => n - k

/-- The last byte that is meant in a file of `n` bytes. -/
def last (n : Nat) : ByteRange → Nat
  | closed _ b => min b (n - 1)
  | suffix _ => n - 1

/-- The range has a byte in a file of `n` bytes, and its numbers fit in an `int`. -/
def Valid (n : Nat) : ByteRange → Prop
  | closed a b => a < b ∧ a < n ∧ b ≤ INT_MAX
  | suffix k => 0 < k ∧ k ≤ INT_MAX

/-- The line names the range. -/
def IsLine (line : Bytes) : ByteRange → Prop
  | closed a b => ∃ name first last rest, IsRange line name first last rest ∧ first ≠ [] ∧ last ≠ [] ∧ value first = a ∧
      value last = b
  | suffix k => ∃ name last rest, IsRange line name [] last rest ∧ value last = k

/-- The values that the parser sets for the range. -/
def byteStart : ByteRange → Int
  | closed a _ => a
  | suffix _ => -1

def byteEnd : ByteRange → Int
  | closed _ b => b
  | suffix k => k

end ByteRange

section Line
variable {lib : Libc} {p q : ParsedHeader} {line : Bytes} {pre post : List Bytes} {range : ByteRange} {n : Nat}

theorem parseHeaderLine_of_isLine (hv : range.Valid n) (h : range.IsLine line) :
    parseHeaderLine lib p line = .ok { p with
    modsince := dateOf lib line p.modsince
    httpState := .partialContent
    byteStart := range.byteStart
    byteEnd := range.byteEnd } := by
  cases range with
  | closed a b =>
    obtain ⟨name, first, last, rest, hline, hf, hl, rfl, rfl⟩ := h
    obtain ⟨hlt, -, hb⟩ := hv
    have hstate : rangeState (value first) (value last) = .partialContent := by
      unfold rangeState
      rw [if_neg (by omega), if_neg (by omega), if_pos (by omega)]
    rw [parseHeaderLine_of_isRange hline, rangeValue_of_ne_nil hf (by omega), rangeValue_of_ne_nil hl hb, hstate]
    rfl
  | suffix k =>
    obtain ⟨name, last, rest, hline, rfl⟩ := h
    obtain ⟨hpos, hk⟩ := hv
    have hl : last ≠ [] := hline.some_digit.resolve_left (by simp)
    have hstate : rangeState (-1) (value last) = .partialContent := by
      unfold rangeState
      rw [if_pos (by omega)]
    rw [parseHeaderLine_of_isRange hline, rangeValue_of_ne_nil hl hk, rangeValue, if_pos rfl, hstate]
    rfl

theorem parseHeaderLines_of_not_isRange : ∀ {ls : List Bytes} {p q : ParsedHeader},
    (∀ line ∈ ls, ∀ name first last rest, ¬IsRange line name first last rest) →
      ls.foldlM (parseHeaderLine lib) p = .ok q →
    q.httpState = p.httpState ∧ q.byteStart = p.byteStart ∧ q.byteEnd = p.byteEnd
  | [], p, q, _, h => by
    cases h
    exact ⟨rfl, rfl, rfl⟩
  | line :: ls, p, q, hls, h => by
    rw [List.foldlM_cons, parseHeaderLine_of_not_isRange (hls line List.mem_cons_self)] at h
    have hrest : ls.foldlM (parseHeaderLine lib) { p with modsince := dateOf lib line p.modsince } = .ok q := h
    -- A date line changes neither the state nor the range.
    have ih := parseHeaderLines_of_not_isRange (fun x hx => hls x (List.mem_cons_of_mem _ hx)) hrest
    exact ih

/-- The last range line decides. -/
theorem parseHeaderLines_of_isLine (lib : Libc) (pre : List Bytes) (p : ParsedHeader) (hv : range.Valid n)
    (h : range.IsLine line) (hpost : ∀ line ∈ post, ∀ name first last rest, ¬IsRange line name first last rest) :
    ∃ q, (pre ++ line :: post).foldlM (parseHeaderLine lib) p = .ok q ∧ KeepsRequest p q ∧
      q.httpState = .partialContent ∧ q.byteStart = range.byteStart ∧ q.byteEnd = range.byteEnd := by
  obtain ⟨q, hq, hk⟩ := parseHeaderLines_ok lib (pre ++ line :: post) p
  refine ⟨q, hq, hk, ?_⟩
  obtain ⟨r, hr, -⟩ := parseHeaderLines_ok lib pre p
  rw [List.foldlM_append, hr] at hq
  have hq : (line :: post).foldlM (parseHeaderLine lib) r = .ok q := hq
  rw [List.foldlM_cons, parseHeaderLine_of_isLine hv h] at hq
  exact parseHeaderLines_of_not_isRange hpost hq

end Line

/-! ### The request -/

/-- A GET request with a range: its parts are cut at spaces, and the last of its range lines names the range. -/
structure RangeRequest (buffer : Bytes) (l : RequestLine) (range : ByteRange) : Prop where
  get : l.method = str "GET"
  version : l.version = str "HTTP/1.1"
  blank₁ : l.blank₁ = SP
  blank₂ : l.blank₂ = SP
  header : ∃ text pre line post, cstring buffer = .ok (l.text ++ CR :: LF :: text) ∧
    tokens (· == LF) text = pre ++ line :: post ∧ range.IsLine line ∧
    ∀ line ∈ post, ∀ name first last rest, ¬IsRange line name first last rest

/-- The calls of the C library succeed that the parser needs for such a request. -/
def ParserProvided (lib : Libc) (l : RequestLine) : Prop :=
  lib.regcomp .statusLine = true ∧ Provides lib l ∧ lib.regcomp .range = true

section Parse
variable {lib : Libc} {buffer rest : Bytes} {l : RequestLine} {range : ByteRange} {n : Nat} {p : ParsedHeader}

theorem parseProtocol_get (hget : p.method = .text (str "GET")) (hm : lib.malloc .protocol = true)
    (hr : lib.regcomp .range = true) : parseProtocol lib p (str "HTTP/1.1" ++ CR :: rest) =
      (tokens (· == LF) rest).foldlM (parseHeaderLine lib)
      { p with protocol := .text (str "HTTP/1.1"), httpState := .ok } := by
  unfold parseProtocol
  rw [strtok_append (w := str "HTTP/1.1") (by decide +kernel) (by decide) (by simp)]
  simp [hget, hm, hr]

theorem parseProtocol_unprovided (hget : p.method = .text (str "GET")) (hp : p.httpState = .internalServerError)
    (h : ¬(lib.malloc .protocol = true ∧ lib.regcomp .range = true)) :
    ∃ q, parseProtocol lib p (str "HTTP/1.1" ++ CR :: rest) = .ok q ∧ q.httpState = .internalServerError := by
  unfold parseProtocol
  rw [strtok_append (w := str "HTTP/1.1") (by decide +kernel) (by decide) (by simp)]
  cases hm : lib.malloc .protocol with
  | false => exact ⟨_, rfl, hp⟩
  | true =>
    have hr : lib.regcomp .range = false := by simpa [hm] using h
    simp [hget, hr]

theorem parse_eq_parseMethod (hr : lib.regcomp .statusLine = true) {text : Bytes}
    (hc : cstring buffer = .ok (l.text ++ CR :: LF :: text)) :
    parseHttpHeader lib buffer = parseMethod lib (l.text ++ CR :: LF :: text) :=
  parseHttpHeader_accepted hc hr (regexec_statusLine.mpr ⟨l, LF :: text, rfl, by simp [eq_comm], rfl⟩)

theorem parse_rangeRequest (h : RangeRequest buffer l range) (hv : range.Valid n) (hp : ParserProvided lib l) :
    ∃ q, parseHttpHeader lib buffer = .ok q ∧ q.method = .text (str "GET") ∧ q.filename = .text (requestedFile l.path) ∧
      q.protocol = .text (str "HTTP/1.1") ∧ q.httpState = .partialContent ∧ q.byteStart = range.byteStart ∧
      q.byteEnd = range.byteEnd := by
  obtain ⟨text, pre, line, post, hc, htokens, hline, hpost⟩ := h.header
  obtain ⟨hr, ⟨hmethod, hprotocol, hfile⟩, hrange⟩ := hp
  obtain ⟨isCGI, hparse⟩ := parseMethod_spaces (LF :: text) h.blank₁ h.blank₂ hmethod hfile
  rw [parse_eq_parseMethod hr hc, hparse, h.version, parseProtocol_get (by rw [h.get]) hprotocol hrange,
    tokens_cons_delim (by decide), htokens]
  obtain ⟨q, hq, hk, hstate⟩ := parseHeaderLines_of_isLine lib pre {
    method := .text l.method
    filename := .text (requestedFile l.path)
    protocol := .text (str "HTTP/1.1")
    httpState := .ok
    isCGI } hv hline hpost
  exact ⟨q, hq, by rw [hk.method, h.get], hk.filename, hk.protocol, hstate⟩

theorem parse_unprovided (h : RangeRequest buffer l range) (hp : ¬ParserProvided lib l) :
    ∃ q, parseHttpHeader lib buffer = .ok q ∧ q.httpState = .internalServerError := by
  obtain ⟨text, pre, line, post, hc, -, -, -⟩ := h.header
  cases hr : lib.regcomp .statusLine with
  | false => exact ⟨{}, by simp [parseHttpHeader, hr], rfl⟩
  | true =>
    rw [parse_eq_parseMethod hr hc]
    by_cases hline : lib.malloc .method = true ∧ (l.path ≠ str "/" → lib.malloc .filename = true ∧
      lib.regcomp .cgi = true)
    · obtain ⟨isCGI, hparse⟩ := parseMethod_spaces (LF :: text) h.blank₁ h.blank₂ hline.1 hline.2
      rw [hparse, h.version]
      exact parseProtocol_unprovided (by rw [h.get]) rfl fun hprot => hp ⟨hr, ⟨hline.1, hprot.1, hline.2⟩, hprot.2⟩
    · exact parseMethod_unprovided h.blank₁ h.blank₂ hline

end Parse

end Distsys.Tinyweb
