import Distsys.Lib.Head
import Distsys.Tinyweb.RangeRequest

/-! The bytes behind the header section of a request: a body, or the next request. The loop of
    `parse_http_header` over the lines (`src/http_parser.c`) skips the empty line that ends the section and goes
    on to the end of the string. -/

namespace Distsys.Tinyweb
open Regex

section Append
variable {lib : Libc} {p q : ParsedHeader} {s payload t : Bytes} {m : Pointer}

/-- A text that ends in a newline has its own lines, and then those of what is appended. -/
theorem tokens_append_of_newline (hs : s.getLast? = some LF) :
    tokens (· == LF) (s ++ payload) = tokens (· == LF) s ++ tokens (· == LF) payload := by
  obtain ⟨r, rfl⟩ := List.getLast?_eq_some_iff.mp hs
  have hself : tokens (· == LF) (r ++ [LF]) = tokens (· == LF) r := by
    rw [tokens_append (by decide), tokens_nil, List.append_nil]
  rw [hself, List.append_assoc, List.cons_append, List.nil_append, tokens_append (by decide)]

theorem parseProtocol_append (h : parseProtocol lib p s = .ok q) (ha : Accepted q.httpState)
    (hp : p.httpState = .internalServerError) (hs : s.getLast? = some LF) :
    parseProtocol lib p (s ++ payload) = (tokens (· == LF) payload).foldlM (parseHeaderLine lib) q := by
  obtain ⟨hmalloc, hreg, hmethod, rest, ht, hfold⟩ := parseProtocol_accepted h ha hp
  -- The string ends in a newline, which is neither in the version nor its delimiter.
  have hne : rest ≠ [] := by
    rintro rfl
    obtain ⟨lead, -, ⟨-, rfl⟩ | ⟨d, hd, rfl⟩⟩ := strtok_end ht
    · have hlast : (lead ++ str "HTTP/1.1").getLast? = some 0x31 := by
        rw [List.getLast?_append]
        rfl
      cases hlast.symm.trans hs
    · have hlast : (lead ++ (str "HTTP/1.1" ++ [d])).getLast? = some d := by simp
      obtain rfl : d = CR := by simpa using hd
      cases hlast.symm.trans hs
  unfold parseProtocol
  rw [strtok_append_right payload ht hne]
  simp only [hmalloc, hreg, hmethod, Bool.true_eq_false, not_true_eq_false, ne_eq, ↓reduceIte]
  rw [tokens_append_of_newline ((getLast?_of_strtok ht hne).trans hs), List.foldlM_append, hfold]
  rfl

theorem parseProtocol_ne_nil (h : parseProtocol lib p s = .ok q) : s ≠ [] := by
  rintro rfl
  cases h

theorem parseFilename_append (h : parseFilename lib { method := m } s = .ok q) (ha : Accepted q.httpState)
    (hs : s.getLast? = some LF) :
    parseFilename lib { method := m } (s ++ payload) = (tokens (· == LF) payload).foldlM (parseHeaderLine lib) q := by
  obtain ⟨-, t, rest, ht, hq⟩ := parseFilename_ok h
  unfold parseFilename
  split at hq
  · next hlen =>
    have hne := parseProtocol_ne_nil hq.2
    rw [strtok_append_right payload ht hne]
    simp only [if_pos hlen]
    exact parseProtocol_append hq.2 ha rfl ((getLast?_of_strtok ht hne).trans hs)
  · next hlen =>
    split at hq
    · subst hq
      exact absurd ha not_accepted
    · next hmalloc =>
      obtain ⟨-, hq⟩ := hq
      split at hq
      · subst hq
        exact absurd ha not_accepted
      · next hreg =>
        have hne := parseProtocol_ne_nil hq
        rw [strtok_append_right payload ht hne]
        simp only [if_neg hlen, if_neg hmalloc, if_neg hreg]
        exact parseProtocol_append hq ha rfl ((getLast?_of_strtok ht hne).trans hs)

/-- Behind an accepted request that ends in a newline the parser takes every line for a header line. -/
theorem parseHttpHeader_append (hs : s.getLast? = some LF) (hn : NUL ∉ s) (hpayload : NUL ∉ payload)
    (h : parseHttpHeader lib (s ++ [NUL]) = .ok q) (ha : Accepted q.httpState) :
    parseHttpHeader lib (s ++ payload ++ NUL :: t) = (tokens (· == LF) payload).foldlM (parseHeaderLine lib) q := by
  obtain ⟨hr, hmalloc, l, rest, method, u, hc, hnl, ht, -, hfilename⟩ := parseHttpHeader_accepted_ok h ha
  obtain rfl : s = l.text ++ CR :: rest := Except.ok.inj ((cstring_append_nul hn).symm.trans hc)
  have hrest : rest ≠ [] := by
    rintro rfl
    rw [List.getLast?_append] at hs
    cases hs
  have hu : u ≠ [] := by
    rintro rfl
    cases hfilename
  have hstring : cstring (l.text ++ CR :: rest ++ payload ++ NUL :: t) = .ok (l.text ++ CR :: rest ++ payload) := by
    refine cstring_append_nul ?_
    rw [List.mem_append, not_or]
    exact ⟨hn, hpayload⟩
  have hline : regexec newline statusLineRegex (l.text ++ CR :: rest ++ payload) = some (0, l.text.length + 1) := by
    refine regexec_statusLine.mpr ⟨l, rest ++ payload, by simp, fun c hc => hnl c ?_, rfl⟩
    rwa [List.head?_append_of_ne_nil _ hrest] at hc
  rw [parseHttpHeader_accepted hstring hr hline]
  unfold parseMethod
  rw [strtok_append_right payload ht hu]
  simp only [hmalloc, Bool.true_eq_false, ↓reduceIte]
  exact parseFilename_append hfilename ha ((getLast?_of_strtok ht hu).trans hs)

theorem parseHttpHeader_append_plain (hs : s.getLast? = some LF) (hn : NUL ∉ s) (hpayload : NUL ∉ payload)
    (h : parseHttpHeader lib (s ++ [NUL]) = .ok q) (ha : Accepted q.httpState)
    (hplain : ∀ line ∈ tokens (· == LF) payload, regexec noNewline rangeRegex line = none ∧
      lib.ifModifiedSince line = none) :
    parseHttpHeader lib (s ++ payload ++ NUL :: t) = .ok q := by
  rw [parseHttpHeader_append hs hn hpayload h ha, parseHeaderLines_noRange fun line hline => (hplain line hline).1,
    foldl_dateOf fun line hline => (hplain line hline).2]

end Append

/-! ### Other bytes behind the same section -/

/-- The values that a header section is meant to decide. -/
def ParsedHeader.outcome (q : ParsedHeader) : HttpStatus × Int × Int × Time :=
  (q.httpState, q.byteStart, q.byteEnd, q.modsince)

/-- Any other bytes behind the same start lead to the same values. Some byte of them is the NUL. -/
def TailIndependent (lib : Libc) (head tail : Bytes) : Prop := ∀ tail', NUL ∈ tail' →
  (parseHttpHeader lib (head ++ tail')).map ParsedHeader.outcome =
  (parseHttpHeader lib (head ++ tail)).map ParsedHeader.outcome

/-- A start of a request that ends in an empty line. -/
structure IsSection (head : Bytes) : Prop where
  empty_line : CRLF ++ CRLF <:+ head
  no_NUL : NUL ∉ head

section Tail
variable {lib : Libc} {head tail line : Bytes} {q : ParsedHeader} {range : ByteRange} {n : Nat}

theorem IsSection.newline (h : IsSection head) : head.getLast? = some LF := by
  obtain ⟨r, hr⟩ := h.empty_line
  rw [← hr, List.getLast?_append]
  rfl

theorem TailIndependent.parse (hind : TailIndependent lib head tail) (hq : parseHttpHeader lib (head ++ tail) = .ok q)
    {tail' : Bytes} (hn : NUL ∈ tail') : ∃ r, parseHttpHeader lib (head ++ tail') = .ok r ∧ r.outcome = q.outcome := by
  have hmap := hind tail' hn
  rw [hq] at hmap
  cases hr : parseHttpHeader lib (head ++ tail') with
  | error f =>
    rw [hr] at hmap
    cases hmap
  | ok r =>
    rw [hr] at hmap
    exact ⟨r, rfl, Except.ok.inj hmap⟩

/-- Behind an independent start even a range line would name the range of the request. -/
theorem TailIndependent.byteEnd (hind : TailIndependent lib head tail) (hs : IsSection head)
    (hq : parseHttpHeader lib (head ++ tail) = .ok q) (ha : Accepted q.httpState) (hv : range.Valid n)
    (hline : range.IsLine line) (hlf : LF ∉ line) (hnul : NUL ∉ line)
    (hne : line ≠ []) : q.byteEnd = range.byteEnd := by
  obtain ⟨q₀, hq₀, hsame₀⟩ := hind.parse hq (List.mem_singleton_self NUL)
  have ha₀ : Accepted q₀.httpState := by
    rw [(Prod.mk.inj hsame₀).1]
    exact ha
  have htokens : tokens (· == LF) line = [line] := by
    rw [tokens_all fun c hc => ?_, if_neg hne]
    simpa using fun h : c = LF => hlf (h ▸ hc)
  obtain ⟨r, hr, hsame⟩ := hind.parse hq (List.mem_append_right line (List.mem_singleton_self NUL))
  rw [← List.append_assoc, parseHttpHeader_append hs.newline hs.no_NUL hnul hq₀ ha₀, htokens, List.foldlM_cons,
    parseHeaderLine_of_isLine hv hline] at hr
  cases hr
  exact (congrArg (·.2.2.1) hsame).symm

/-- The line of a range from byte 0 on. -/
def zeroRangeLine (digit : UInt8) : Bytes := str "Range: bytes=0-" ++ [digit]

theorem zeroRangeLine_isLine {digit : UInt8} (hd : isdigit digit = true) :
    (ByteRange.closed 0 (value [digit])).IsLine (zeroRangeLine digit) :=
  ⟨str "Range: bytes=", str "0", [digit], [], ⟨rfl, rangeName_mem,
    by decide +kernel, by simpa using hd, by simp, by simp⟩, by decide, by simp, by decide, rfl⟩

/-- Whatever the section of an accepted request holds, the bytes behind it can change the range. -/
theorem not_tailIndependent (hs : IsSection head) (hq : parseHttpHeader lib (head ++ tail) = .ok q)
    (ha : Accepted q.httpState) : ¬TailIndependent lib head tail := by
  intro hind
  have hone : (ByteRange.closed 0 (value [0x31])).Valid 1 := ⟨by decide, by decide, by decide⟩
  have htwo : (ByteRange.closed 0 (value [0x32])).Valid 1 := ⟨by decide, by decide, by decide⟩
  have h₁ : q.byteEnd = 1 := hind.byteEnd hs hq ha hone (zeroRangeLine_isLine rfl) (by decide +kernel)
    (by decide +kernel) (by decide +kernel)
  have h₂ : q.byteEnd = 2 := hind.byteEnd hs hq ha htwo (zeroRangeLine_isLine rfl) (by decide +kernel)
    (by decide +kernel) (by decide +kernel)
  cases h₁.symm.trans h₂

end Tail

/-- A request without a range. -/
def plainSection : Bytes := str "GET /a HTTP/1.1\r\nHost: localhost\r\n\r\n"

theorem plainSection_isSection : IsSection plainSection :=
  ⟨⟨str "GET /a HTTP/1.1\r\nHost: localhost", by decide +kernel⟩, by decide +kernel⟩

theorem not_tailIndependent_example : ¬TailIndependent .working plainSection [NUL] :=
  have hq : parseHttpHeader .working (plainSection ++ [NUL]) = .ok {
      method := .text (str "GET")
      filename := .text (str "/a")
      protocol := .text (str "HTTP/1.1")
      httpState := .ok } := by decide +kernel
  not_tailIndependent plainSection_isSection hq (by decide)

/-- The next request of a pipeline asks for a range, and the first one gets it. -/
theorem pipelined_range : parseHttpHeader .working (plainSection ++ [NUL]) = .ok {
      method := .text (str "GET")
      filename := .text (str "/a")
      protocol := .text (str "HTTP/1.1")
      httpState := .ok } ∧
    parseHttpHeader .working (plainSection ++ str "GET /b HTTP/1.1\r\nRange: bytes=0-4\r\n\r\n" ++ [NUL]) = .ok {
      method := .text (str "GET")
      filename := .text (str "/a")
      protocol := .text (str "HTTP/1.1")
      httpState := .partialContent
      byteStart := 0
      byteEnd := 4 } ∧
    ¬TailIndependent .working plainSection [NUL] := by
  refine ⟨by decide +kernel, by decide +kernel, fun hind => ?_⟩
  have hsame := hind (str "GET /b HTTP/1.1\r\nRange: bytes=0-4\r\n\r\n" ++ [NUL]) (by simp)
  have hne :
      (parseHttpHeader .working (plainSection ++ (str "GET /b HTTP/1.1\r\nRange: bytes=0-4\r\n\r\n" ++ [NUL]))).map
        ParsedHeader.outcome ≠ (parseHttpHeader .working (plainSection ++ [NUL])).map ParsedHeader.outcome := by
    decide +kernel
  exact hne hsame

end Distsys.Tinyweb
