import Distsys.Tinyweb.Framing
import Distsys.Tinyweb.HeaderLines
import Distsys.Tinyweb.RangeRequest

/-! Partial content: which range requests are answered by the bytes that they name, with their range and their
    length in the header. Reading the answer back shows what the cuts of the two fields leave of its head. -/

namespace Distsys.Tinyweb

/-- The message answers the range of a file: the status, the two fields, and the bytes from the first to the last. -/
def IsRangeAnswer (file : Inode) (range : ByteRange) (message : Bytes) : Prop := ∃ ls,
  readMessage message = some (ls, (file.data.drop (range.first file.size)).take
    (range.last file.size + 1 - range.first file.size)) ∧
  ls.head? = some (str "HTTP/1.1 206 Partial Content") ∧
  field (httpHeaderFieldList .contentRange) ls = some (str "bytes " ++ decimal (range.first file.size) ++ str "-" ++
    decimal (range.last file.size) ++ str "/" ++ decimal file.size) ∧
  field (httpHeaderFieldList .contentLength) ls = some (decimal (range.last file.size - range.first file.size + 1))

/-- The closed ranges that are answered: the range ends behind the file, or with its last byte unless the loop has
    just then stopped at the byte before it, and none of the two fields is cut. -/
def ByteRange.IsServed (n : Nat) : ByteRange → Prop
  | closed a b => (n ≤ b ∨ b = n - 1 ∧ ¬CHUNK_SIZE ∣ b - a) ∧ n - a < 10 ^ 4 ∧
      (decimal a).length + (decimal (n - 1)).length + (decimal n).length ≤ 12
  | suffix _ => False

/-! ### Reading a head back -/

section Read
variable {t body part : Bytes} {ls : List Bytes} {z start : Int} {m n : Nat}

theorem decimalInt_eq_decimal (h : decimalInt z = decimal m) : z = m := by
  unfold decimalInt at h
  split at h
  · have := isdigit_of_mem_decimal (h ▸ List.mem_cons_self : (0x2D : UInt8) ∈ decimal m)
    exact absurd this (by decide)
  · have := decimal_inj.mp h
    omega

theorem contentLength_read (h : readMessage (snprintf 23 (contentLengthLine z) ++ 0x43 :: t) = some (ls, body))
    (hf : field (httpHeaderFieldList .contentLength) ls = some (decimal m)) : z = m ∧ m < 10 ^ 4 := by
  let tail := CRLF.take (6 - (decimalInt z).length) ++ 0x43 :: t
  have htext : snprintf 23 (contentLengthLine z) ++ 0x43 :: t =
      httpHeaderFieldList .contentLength ++ (decimalInt z).take 6 ++ tail := by
    have h := snprintf_contentLengthLine (k := 6) (z := z)
    simp only [h, tail, List.append_assoc]
  rw [htext] at h
  obtain ⟨line, rest, hline, hcases⟩ := readMessage_eq_some h
  obtain ⟨u, rfl, hu⟩ := takeLine_prefix CR_not_mem_lengthField hline
  obtain ⟨-, ls', rfl, -⟩ := hcases.resolve_left fun h => by simp [httpHeaderFieldList, str] at h
  rw [List.append_assoc, field_cons_self, Option.some.injEq] at hf
  -- What is read is digits, so nothing of the cut line end and of the next line is among it.
  obtain rfl : u = [] := by
    cases u with
    | nil => rfl
    | cons c u =>
      have hdigit : isdigit c = true := isdigit_of_mem_decimal (hf ▸ List.mem_append_right _ List.mem_cons_self)
      have hhead : c ∈ tail.head? := by rw [hu]; rfl
      rw [isdigit_head_cutLine hhead] at hdigit
      cases hdigit
  have hlen : (decimalInt z).length ≤ 4 := by
    have := le_of_cutLine hu
    omega
  rw [List.append_nil, List.take_of_length_le (by omega)] at hf
  refine ⟨decimalInt_eq_decimal hf, ?_⟩
  rw [hf] at hlen
  exact (length_decimal_le (by omega)).mp hlen

theorem LF_not_mem_contentLength : LF ∉ httpHeaderFieldList .contentLength ++ decimalInt z := by
  rw [List.mem_append, not_or]
  exact ⟨by decide, LF_not_mem_decimalInt z⟩

/-- The text of the range, without its CR LF. -/
def contentRangeText (n : Nat) (start : Int) : Bytes :=
  str "bytes " ++ decimalInt start ++ str "-" ++ decimalInt (wrap32 (n - 1)) ++ str "/" ++ decimalInt (wrap32 n)

theorem length_contentRangeText : (contentRangeText n start).length = (decimalInt start).length +
    (decimalInt (wrap32 (n - 1))).length + (decimalInt (wrap32 n)).length + 8 := by
  have hlen : (str "bytes ").length = 6 ∧ (str "-").length = 1 ∧ (str "/").length = 1 := by decide
  simp only [contentRangeText, List.length_append, hlen.1, hlen.2.1, hlen.2.2]
  omega

theorem contentRangeLine_eq : contentRangeLine n start =
    httpHeaderFieldList .contentRange ++ contentRangeText n start ++ CRLF := by
  simp [contentRangeLine, contentRangeText]

theorem LF_not_mem_contentRange : LF ∉ httpHeaderFieldList .contentRange ++ contentRangeText n start := by
  have h : LF ∉ httpHeaderFieldList .contentRange ∧ LF ∉ str "bytes " ∧ LF ∉ str "-" ∧ LF ∉ str "/" := by decide
  simp only [contentRangeText, List.mem_append, not_or]
  exact ⟨h.1, ⟨⟨⟨⟨h.2.1, LF_not_mem_decimalInt _⟩, h.2.2.1⟩, LF_not_mem_decimalInt _⟩, h.2.2.2⟩,
    LF_not_mem_decimalInt _⟩

/-- Where the range or the end of its line is cut, the head of the message goes on in the body. -/
theorem contentRange_read (h : readMessage (snprintf 38 (contentRangeLine n start) ++ CRLF ++ part) = some (ls, body))
    (hle : part.length ≤ body.length) : (contentRangeLine n start).length ≤ 37 ∧ body = part := by
  have hne : httpHeaderFieldList .contentRange ++ contentRangeText n start ≠ [] := by simp [httpHeaderFieldList, str]
  by_cases hlen : (contentRangeLine n start).length ≤ 37
  · refine ⟨hlen, ?_⟩
    rw [snprintf_of_lt (by omega), contentRangeLine_eq, List.append_assoc _ CRLF,
      readMessage_line LF_not_mem_contentRange hne, readMessage_end] at h
    simp only [Option.map_some, Option.some.injEq, Prod.mk.injEq] at h
    exact h.2.symm
  · -- The end of the head is used up by the line.
    have hcut : LF ∉ snprintf 38 (contentRangeLine n start) := by
      have hlen' : (contentRangeLine n start).length = (httpHeaderFieldList .contentRange ++
          contentRangeText n start).length + 2 := by
        rw [contentRangeLine_eq]
        exact List.length_append
      rw [contentRangeLine_eq]
      exact LF_not_mem_snprintf LF_not_mem_contentRange (by omega)
    have hne' : snprintf 38 (contentRangeLine n start) ≠ [] := by
      rw [ne_eq, ← List.length_eq_zero_iff, length_snprintf]
      omega
    rw [readMessage_line hcut hne', Option.map_eq_some_iff] at h
    obtain ⟨⟨ls', body'⟩, h, heq⟩ := h
    simp only [Prod.mk.injEq] at heq
    have := readMessage_length h
    rw [heq.2] at this
    omega

end Read

/-! ### The header of a part -/

/-- The lines of the header of a part of a file, up to its range. -/
def partLines (env : Env) (status : HttpStatus) (filepath : Bytes) (st : Inode) (length : Int) : List Bytes :=
  fixedLines status env.now ++ [httpHeaderFieldList .contentLength ++ decimalInt length,
    httpHeaderFieldList .contentType ++ getHttpContentTypeStr (getHttpContentType filepath),
    httpHeaderFieldList .lastModified ++ (strftime st.mtime.civil ++ str " GMT")]

section Header
variable {env : Env} {q : ParsedHeader} {status : HttpStatus} {filepath part body : Bytes} {st : Inode}
  {ls : List Bytes} {length : Int} {m : Nat}

theorem partLines_are_lines : ∀ l ∈ partLines env status filepath st length, LF ∉ l ∧ l ≠ [] := by
  have h : LF ∉ httpHeaderFieldList .contentType ∧ LF ∉ httpHeaderFieldList .lastModified ∧ LF ∉ str " GMT" := by decide
  intro l hl
  simp only [partLines, List.mem_append, List.mem_cons, List.not_mem_nil, or_false] at hl
  rcases hl with hl | rfl | rfl | rfl
  · exact fixedLines_are_lines l hl
  · exact ⟨LF_not_mem_contentLength, by simp [httpHeaderFieldList, str]⟩
  · simp only [List.mem_append, not_or]
    exact ⟨⟨h.1, LF_not_mem_getHttpContentTypeStr _⟩, by simp [httpHeaderFieldList, str]⟩
  · simp only [List.mem_append, not_or]
    exact ⟨⟨h.2.1, LF_not_mem_strftime _, h.2.2⟩, by simp [httpHeaderFieldList, str]⟩

theorem fileText_of_isPartial (hp : IsPartial q.byteStart q.byteEnd) : fileText env q status filepath st =
    (fixedLines status env.now).flatMap (· ++ CRLF) ++ (snprintf 23
      (contentLengthLine (wrap32 (st.size - q.byteStart))) ++
      (contentTypeLine filepath ++ lastModifiedLine st.mtime.civil ++
        snprintf 38 (contentRangeLine st.size q.byteStart) ++ CRLF)) := by
  have hfields : (fileHeader status filepath st q.byteStart q.byteEnd).fields =
      snprintf 23 (contentLengthLine (wrap32 (st.size - q.byteStart))) ++ contentTypeLine filepath ++
        lastModifiedLine st.mtime.civil ++ snprintf 38 (contentRangeLine st.size q.byteStart) := by
    simp [HttpHeader.fields, fileHeader, hp]
  unfold fileText
  rw [text_eq_fixedLines, hfields]
  simp only [fileHeader, List.append_assoc]

/-- A length that is read in the header of a part is that of the rest of the file, in at most four digits. -/
theorem part_length (hp : IsPartial q.byteStart q.byteEnd)
    (h : readMessage (fileText env q status filepath st ++ part) = some (ls, body))
    (hf : field (httpHeaderFieldList .contentLength) ls = some (decimal m)) :
    wrap32 (st.size - q.byteStart) = m ∧ m < 10 ^ 4 := by
  obtain ⟨t, ht⟩ := contentTypeLine_eq filepath
  rw [fileText_of_isPartial hp, List.append_assoc, readMessage_lines fixedLines_are_lines, Option.map_eq_some_iff] at h
  obtain ⟨⟨ls', body'⟩, h, heq⟩ := h
  simp only [Prod.mk.injEq] at heq
  rw [← heq.1, field_fixedLines (by decide)] at hf
  simp only [ht, List.append_assoc, List.cons_append] at h
  exact contentLength_read h hf

theorem field_contentLength : field (httpHeaderFieldList .contentLength)
    (partLines env status filepath st length ++ ls) =
    some (decimalInt length) := by
  rw [partLines, List.append_assoc, field_fixedLines (by decide), List.cons_append, field_cons_self]

theorem field_contentRange {text : Bytes} : field (httpHeaderFieldList .contentRange)
    (partLines env status filepath st length ++ [httpHeaderFieldList .contentRange ++ text]) = some text := by
  have hlength : (httpHeaderFieldList .contentRange).isPrefixOf
      (httpHeaderFieldList .contentLength ++ decimalInt length) = false := rfl
  have htype : (httpHeaderFieldList .contentRange).isPrefixOf
      (httpHeaderFieldList .contentType ++ getHttpContentTypeStr (getHttpContentType filepath)) = false := rfl
  have hmodified : (httpHeaderFieldList .contentRange).isPrefixOf
      (httpHeaderFieldList .lastModified ++ (strftime st.mtime.civil ++ str " GMT")) = false := rfl
  rw [partLines, List.append_assoc, field_fixedLines (by decide)]
  simp only [List.cons_append, List.nil_append]
  rw [field_cons_of_ne hlength, field_cons_of_ne htype, field_cons_of_ne hmodified, field_cons_self]

theorem head?_partLines : (partLines env .partialContent filepath st length ++ ls).head? =
    some (str "HTTP/1.1 206 Partial Content") := by
  have hstatus : str "HTTP/1.1" ++ str " " ++ decimal (httpStatusList .partialContent).code ++ str " " ++
      (httpStatusList .partialContent).text = str "HTTP/1.1 206 Partial Content" := by decide +kernel
  simp only [partLines, fixedLines, List.cons_append, List.head?_cons, hstatus]

theorem readMessage_part (hp : IsPartial q.byteStart q.byteEnd)
    (hlen : (decimalInt (wrap32 (st.size - q.byteStart))).length ≤ 4) :
      readMessage (fileText env q status filepath st ++ part) =
      (readMessage (snprintf 38 (contentRangeLine st.size q.byteStart) ++ CRLF ++ part)).map fun p =>
        (partLines env status filepath st (wrap32 (st.size - q.byteStart)) ++ p.1, p.2) := by
  have hshort : (contentLengthLine (wrap32 (st.size - q.byteStart))).length < 23 := by
    have h : (httpHeaderFieldList .contentLength).length = 16 ∧ CRLF.length = 2 := by decide
    simp only [contentLengthLine, List.length_append, h.1, h.2]
    omega
  rw [← readMessage_lines partLines_are_lines, fileText_of_isPartial hp, snprintf_of_lt hshort]
  simp [partLines, contentLengthLine, contentTypeLine, lastModifiedLine]

end Header

/-! ### The answer to a range -/

section Answer
variable {env : Env} {q : ParsedHeader} {filepath : Bytes} {st : Inode} {range : ByteRange} {a b n : Nat}

theorem isPartial_byteStart (range : ByteRange) : IsPartial range.byteStart range.byteEnd := by
  cases range <;> simp only [IsPartial, ByteRange.byteStart, ByteRange.byteEnd] <;> omega

theorem contentRangeText_eq (h : 1 ≤ n ∧ n ≤ INT_MAX) : contentRangeText n a =
    str "bytes " ++ decimal a ++ str "-" ++ decimal (n - 1) ++ str "/" ++ decimal n := by
  have hlast : wrap32 ((n : Int) - 1) = (n - 1 : Nat) := wrap32_pred h.1 h.2
  rw [contentRangeText, hlast, wrap32_natCast h.2]
  simp only [decimalInt_natCast]

theorem length_contentRangeLine (h : 1 ≤ n ∧ n ≤ INT_MAX) : (contentRangeLine n a).length =
    (decimal a).length + (decimal (n - 1)).length + (decimal n).length + 25 := by
  have hlen : (httpHeaderFieldList .contentRange).length = 15 ∧ CRLF.length = 2 := by decide
  have hlast : wrap32 ((n : Int) - 1) = (n - 1 : Nat) := wrap32_pred h.1 h.2
  rw [contentRangeLine_eq, List.length_append, List.length_append, length_contentRangeText, hlast, wrap32_natCast h.2]
  simp only [decimalInt_natCast, hlen.1, hlen.2]
  omega

theorem sentPart_closed (hk : st.kind = .regular) (hr : st.readable = true) :
    sentPart st a b = (st.data.drop a).take (loopTotal st.size a b) := by
  have hp := isPartial_byteStart (.closed a b)
  simp only [ByteRange.byteStart, ByteRange.byteEnd] at hp
  unfold sentPart
  rw [if_neg (by simp [hr]), if_pos hp, if_neg (by simp [hk]), if_neg (by omega)]
  rfl

theorem length_sentPart_closed_le (hk : st.kind = .regular) : (sentPart st a b).length ≤ st.size - a := by
  cases hr : st.readable with
  | false => simp [sentPart, hr]
  | true =>
    rw [sentPart_closed hk hr, List.length_take, List.length_drop, ← st.size_eq hk]
    exact Nat.min_le_right _ _

/-- The length that is stated for a suffix is one more than that of the file. -/
theorem wrap32_suffix_ne {m : Nat} (hn : 1 ≤ n ∧ n ≤ INT_MAX) (hm : m ≤ n) : wrap32 ((n : Int) - -1) ≠ m := by
  unfold INT_MAX at hn
  by_cases hmax : n = 2 ^ 31 - 1
  · have hwrap : wrap32 (((2 ^ 31 - 1 : Nat) : Int) - -1) = -2 ^ 31 := by decide
    rw [hmax, hwrap]
    omega
  · rw [wrap32_of_mem (by omega) (by omega)]
    omega

/-- A closed range is answered only if it takes the rest of the file, the loop does as well, and nothing is cut. -/
theorem isServed_of_isRangeAnswer (hk : st.kind = .regular) (hn : 1 ≤ st.size ∧ st.size ≤ INT_MAX)
    (hv : range.Valid st.size) (hs : q.byteStart = range.byteStart) (he : q.byteEnd = range.byteEnd)
    (h : IsRangeAnswer st range (fileText env q .partialContent filepath st ++
      sentPart st range.byteStart range.byteEnd)) :
    st.readable = true ∧ range.IsServed st.size := by
  have hp : IsPartial q.byteStart q.byteEnd := hs ▸ he ▸ isPartial_byteStart range
  obtain ⟨ls, hread, -, -, hlength⟩ := h
  obtain ⟨hm, hlt⟩ := part_length hp hread hlength
  rw [hs] at hm
  cases range with
  | closed a b =>
    obtain ⟨hab, han, hb⟩ := hv
    simp only [ByteRange.byteStart, ByteRange.byteEnd, ByteRange.first, ByteRange.last] at hs he hm hlt hread ⊢
    have hsub : (st.size : Int) - a = (st.size - a : Nat) := by omega
    rw [hsub, wrap32_natCast (by omega)] at hm
    have hlast : min b (st.size - 1) = st.size - 1 := by omega
    have hbody : ((st.data.drop a).take (min b (st.size - 1) + 1 - a)).length = st.size - a := by
      rw [List.length_take, List.length_drop, ← st.size_eq hk]
      omega
    have hcut : (decimalInt (wrap32 (st.size - q.byteStart))).length ≤ 4 := by
      rw [hs, hsub, wrap32_natCast (by omega), length_decimalInt_natCast (by omega)]
      omega
    rw [readMessage_part hp hcut, Option.map_eq_some_iff] at hread
    obtain ⟨⟨ls', body⟩, hread, heq⟩ := hread
    obtain ⟨-, rfl⟩ := Prod.mk.inj heq
    obtain ⟨hrange, hpart⟩ := contentRange_read hread (by rw [hbody]; exact length_sentPart_closed_le hk)
    rw [hs, length_contentRangeLine hn] at hrange
    rw [hpart] at hbody
    have hr : st.readable = true := by
      by_contra hr
      rw [sentPart, if_pos (by simpa using hr), List.length_nil] at hbody
      omega
    rw [sentPart_closed hk hr, List.length_take, List.length_drop, ← st.size_eq hk,
      Nat.min_eq_left (loopTotal_le _ _ _)] at hbody
    exact ⟨hr, (loopTotal_eq_rest_iff han hab (by omega)).mp hbody, by omega, by omega⟩
  | suffix k =>
    simp only [ByteRange.byteStart, ByteRange.first, ByteRange.last] at hm
    have hsub : st.size - 1 - (st.size - k) + 1 ≤ st.size := by omega
    exact absurd hm (wrap32_suffix_ne hn hsub)

theorem isRangeAnswer_of_isServed (hk : st.kind = .regular) (hn : 1 ≤ st.size ∧ st.size ≤ INT_MAX)
    (hv : range.Valid st.size) (hs : q.byteStart = range.byteStart) (he : q.byteEnd = range.byteEnd)
    (hr : st.readable = true) (hserved : range.IsServed st.size) :
    IsRangeAnswer st range (fileText env q .partialContent filepath st ++
      sentPart st range.byteStart range.byteEnd) := by
  have hp : IsPartial q.byteStart q.byteEnd := hs ▸ he ▸ isPartial_byteStart range
  cases range with
  | suffix k => exact hserved.elim
  | closed a b =>
    obtain ⟨hab, han, hb⟩ := hv
    obtain ⟨hrest, hlength, hdigits⟩ := hserved
    simp only [ByteRange.byteStart, ByteRange.byteEnd] at hs he ⊢
    have hlast : min b (st.size - 1) = st.size - 1 := by omega
    have hz : wrap32 (st.size - q.byteStart) = (st.size - a : Nat) := by
      rw [hs, ← wrap32_natCast (n := st.size - a) (by omega)]
      congr 1
      omega
    have hcut : (decimalInt (wrap32 (st.size - q.byteStart))).length ≤ 4 := by
      rw [hz, length_decimalInt_natCast (by omega)]
      exact hlength
    have hrange : (contentRangeLine st.size q.byteStart).length < 38 := by
      rw [hs, length_contentRangeLine hn]
      omega
    have hne : httpHeaderFieldList .contentRange ++ contentRangeText st.size a ≠ [] := by
      simp [httpHeaderFieldList, str]
    refine ⟨partLines env .partialContent filepath st (wrap32 (st.size - q.byteStart)) ++
      [httpHeaderFieldList .contentRange ++ contentRangeText st.size a], ?_, ?_, ?_, ?_⟩
    · rw [readMessage_part hp hcut, snprintf_of_lt hrange, contentRangeLine_eq, hs, List.append_assoc _ CRLF,
        readMessage_line LF_not_mem_contentRange hne, readMessage_end, sentPart_closed hk hr,
        (loopTotal_eq_rest_iff han hab (by omega)).mpr hrest]
      simp only [Option.map_some, ByteRange.first, ByteRange.last, hlast]
      rw [Nat.sub_add_cancel hn.1]
    · exact head?_partLines
    · rw [field_contentRange, contentRangeText_eq hn]
      simp only [ByteRange.first, ByteRange.last, hlast]
    · rw [field_contentLength, hz, decimalInt_natCast]
      simp only [ByteRange.first, ByteRange.last, hlast]
      congr 2
      omega

end Answer

/-! ### The server -/

/-- Where everything is transferred in full, the connection gets the answer to the range. -/
def Serves (env : Env) (buffer : Buffer) (file : Inode) (range : ByteRange) : Prop :=
  ∃ message, Yields (serve env buffer) Run.wire message ∧ IsRangeAnswer file range message

section Serve
variable {env : Env} {buffer : Buffer} {q : ParsedHeader} {l : RequestLine} {st : Inode} {range : ByteRange}
  {status : HttpStatus} {sched : Schedule}

theorem not_serves (status : HttpStatus) (hstatus : status ≠ .partialContent)
    (h : ∀ sched, (serve env buffer sched).wire <+: HttpHeader.text { status } env.now) :
      ¬Serves env buffer st range := by
  rintro ⟨message, hyields, ls, hread, hhead, -⟩
  obtain ⟨sched, -, rfl⟩ := hyields.reached
  obtain ⟨l, ls', hl⟩ : ∃ l ls', fixedLines status env.now = l :: ls' := ⟨_, _, rfl⟩
  have htext : HttpHeader.text { status } env.now = l ++ CRLF ++
      (ls'.flatMap (· ++ CRLF) ++ (HttpHeader.fields { status } ++ CRLF)) := by
    rw [text_eq_fixedLines, hl, List.flatMap_cons, List.append_assoc (l ++ CRLF)]
  have hline := fixedLines_are_lines l (hl ▸ List.mem_cons_self)
  have hfirst := readMessage_head hread (htext ▸ h sched) hline.1 hline.2
  rw [hhead, Option.some.injEq] at hfirst
  obtain ⟨hl, -⟩ := List.cons.inj hl
  rw [← hfirst] at hl
  revert hl
  cases status <;> first | exact absurd rfl hstatus | decide +kernel

theorem wire_reply_status : (reply env q { status } none none sched).wire <+: HttpHeader.text { status } env.now := by
  rw [reply_status_eq]
  unfold logThen
  split
  · simpa [Run.wire, Run.after, writeResponseHeader, Event.wire?] using writeToSocket_prefix
  · simp [Run.wire, Event.wire?]

theorem dispatch_rangeRequest (env : Env) (hv : range.Valid st.size) (hfile : q.filename = .text (requestedFile l.path))
    (hstate : q.httpState = .partialContent) (hs : q.byteStart = range.byteStart)
    (hst : env.fs (env.rootDir ++ requestedFile l.path) = some st) :
    dispatch env q = if env.rootDir.length + (requestedFile l.path).length + 1 ≤ BUFSIZE then
      .file .partialContent (env.rootDir ++ requestedFile l.path) st else .fault .overflow := by
  have hlt : ¬q.byteStart ≥ st.size := by
    rw [hs]
    cases range with
    | closed a b =>
      obtain ⟨-, han, -⟩ := hv
      simp only [ByteRange.byteStart]
      omega
    | suffix k =>
      simp only [ByteRange.byteStart]
      omega
  have ha : Accepted q.httpState := hstate ▸ accepted_partialContent
  rw [dispatch_of_accepted ha, hfile, requestPath_text]
  by_cases hlen : env.rootDir.length + (requestedFile l.path).length + 1 ≤ BUFSIZE
  · simp only [if_pos hlen, hst, dispatchFile, hstate, if_neg hlt]
  · simp only [if_neg hlen]

theorem asks_range (hv : range.Valid st.size) : Asks st range.byteStart range.byteEnd := by
  refine Or.inl ⟨isPartial_byteStart range, ?_⟩
  cases range with
  | closed a b =>
    obtain ⟨hab, han, hb⟩ := hv
    simp only [ByteRange.byteStart, ByteRange.byteEnd, INT_MAX] at hb ⊢
    omega
  | suffix k =>
    obtain ⟨hpos, hmax⟩ := hv
    simp only [ByteRange.byteStart, ByteRange.byteEnd, INT_MAX] at hmax ⊢
    exact ⟨by omega, Or.inl trivial, by omega⟩

theorem byteStart_int (hn : st.size ≤ INT_MAX) (hv : range.Valid st.size) :
    -2 ^ 31 ≤ range.byteStart ∧ range.byteStart < 2 ^ 31 := by
  cases range with
  | closed a b =>
    obtain ⟨-, han, -⟩ := hv
    simp only [ByteRange.byteStart, INT_MAX] at hn ⊢
    omega
  | suffix k =>
    simp [ByteRange.byteStart]

/-- A range request for a regular file is answered as asked exactly when the library provides, the path fits, the
    file can be opened, and the range is a closed one that takes the rest of the file, in few digits. -/
theorem serves_iff (hreq : RangeRequest buffer.bytes l range) (hfs : env.fsBody = env.fs)
    (hst : env.fs (env.rootDir ++ requestedFile l.path) = some st) (hk : st.kind = .regular)
    (hn : 1 ≤ st.size ∧ st.size ≤ INT_MAX) (hv : range.Valid st.size) : Serves env buffer st range ↔
      ParserProvided env.libc l ∧ env.rootDir.length + (requestedFile l.path).length + 1 ≤ BUFSIZE ∧
      HeaderCreated env.libc st range.byteStart range.byteEnd ∧ st.readable = true ∧ range.IsServed st.size := by
  by_cases hprov : ParserProvided env.libc l
  · obtain ⟨q, hq, hget, hfile, hprot, hstate, hs, he⟩ := parse_rangeRequest hreq hv hprov
    have hdispatch := dispatch_rangeRequest env hv hfile hstate hs hst
    have hserve := serve_eq hq
    have hfault {f : Fault} (h : ∀ sched, serve env buffer sched = ⟨[], .fault f⟩) : ¬Serves env buffer st range :=
      not_serves .ok (by simp) fun sched => by
        rw [h]
        exact List.nil_prefix
    by_cases hlen : env.rootDir.length + (requestedFile l.path).length + 1 ≤ BUFSIZE
    · rw [hdispatch, if_pos hlen] at hserve
      by_cases halloc : HeaderCreated env.libc st range.byteStart range.byteEnd
      · have hyields := sendFile_yields_wire .partialContent st (hs ▸ he ▸ halloc)
          (show q.method.isSet = true by simp [hget, Pointer.isSet]) (by simp [hprot, Pointer.isSet])
          (hs ▸ byteStart_int hn.2 hv) (hfs ▸ hst) (hs ▸ he ▸ asks_range hv)
        have hyields : Yields (serve env buffer) Run.wire
            (fileText env q .partialContent (env.rootDir ++ requestedFile l.path) st ++
              sentPart st range.byteStart range.byteEnd) := by
          rw [hserve, ← hs, ← he]
          simpa only [perform] using hyields
        simp only [hprov, hlen, halloc, true_and]
        constructor
        · rintro ⟨message, hmessage, hanswer⟩
          rw [hmessage.unique hyields] at hanswer
          exact isServed_of_isRangeAnswer hk hn hv hs he hanswer
        · rintro ⟨hr, hserved⟩
          exact ⟨_, hyields, isRangeAnswer_of_isServed hk hn hv hs he hr hserved⟩
      · simp only [halloc, false_and, and_false, iff_false]
        refine hfault (f := .nullPointer) fun sched => ?_
        simp only [hserve, perform]
        rw [sendFile_eq, if_neg (hs ▸ he ▸ halloc)]
    · simp only [hlen, false_and, and_false, iff_false]
      refine hfault (f := .overflow) fun sched => ?_
      simp only [hserve, hdispatch, if_neg hlen, perform]
  · simp only [hprov, false_and, iff_false]
    obtain ⟨q, hq, hstate⟩ := parse_unprovided hreq hprov
    refine not_serves .internalServerError (by simp) fun sched => ?_
    have hna : ¬Accepted q.httpState := hstate ▸ not_accepted
    simp only [serve, hq, dispatch_of_not_accepted hna, hstate, perform]
    exact wire_reply_status

end Serve

/-- The array with a request for the bytes from 1 to the one that a digit names. -/
def rangeBuffer (digit : UInt8) : Buffer :=
  .store (.filled NUL) (str "GET / HTTP/1.1\r\nRange: bytes=1-" ++ digit :: str "\r\n\r\n")

theorem rangeBuffer_request {digit : UInt8} {b : Nat}
    (hc : cstring (rangeBuffer digit).bytes = .ok (str "GET / HTTP/1.1\r\nRange: bytes=1-" ++ digit :: str "\r\n\r\n"))
    (ht : tokens (· == LF) (str "Range: bytes=1-" ++ digit :: str "\r\n\r\n") =
      [str "Range: bytes=1-" ++ [digit, CR], [CR]])
    (hd : isdigit digit = true) (hb : digitValue digit = b) :
    RangeRequest (rangeBuffer digit).bytes (slashLine SP rfl) (.closed 1 b) where
  get := rfl
  version := rfl
  blank₁ := rfl
  blank₂ := rfl
  header := by
    have hempty : Regex.regexec noNewline rangeRegex [CR] = none := by decide +kernel
    refine ⟨_, [], _, _, hc, ht, ⟨str "Range: bytes=", str "1", [digit], [CR], ⟨rfl, rangeName_mem, by decide +kernel,
      by simpa using hd, by simp, by decide +kernel⟩, by decide, by simp, by decide, by rw [value_singleton, hb]⟩, ?_⟩
    rintro line hline name first last rest hrange
    obtain rfl := List.mem_singleton.mp hline
    cases hempty.symm.trans (regexec_range.mpr ⟨rfl, name, first, last, rest, hrange, rfl⟩)

theorem serves_iff_example : Serves smallEnv (rangeBuffer 0x34) smallFile (.closed 1 4) ↔
    ParserProvided .working (slashLine SP rfl) ∧ (str "/srv").length + (requestedFile (str "/")).length + 1 ≤ BUFSIZE ∧
    HeaderCreated .working smallFile 1 4 ∧ smallFile.readable = true ∧ (ByteRange.closed 1 4).IsServed 5 :=
  serves_iff (rangeBuffer_request (by decide +kernel) (by decide +kernel) (by decide) (by decide)) rfl rfl rfl
    (by decide) ⟨by decide, by decide, by decide⟩

/-- The outcomes of a header and one turn of the loop. -/
def oneTurn : Schedule := delivery 0 BUFSIZE ++ turns BUFSIZE 1

theorem oneTurn_full : ∀ c ∈ oneTurn, c.Full BUFSIZE := by
  intro c hc
  rcases List.mem_append.mp hc with hc | hc
  · exact delivery_full (by decide) c hc
  · exact turns_full (by decide) c hc

/-- The answer to a request for the bytes 1 and 2 of the small file. -/
def closedRun : Run := serve smallEnv (rangeBuffer 0x32) oneTurn

/-- The bytes 1 and 2 of a file of five are asked for, and the bytes 1 to 4 are announced and sent. -/
theorem closedRange_not_served : RangeRequest (rangeBuffer 0x32).bytes (slashLine SP rfl) (.closed 1 2) ∧
    (ByteRange.closed 1 2).Valid smallFile.size ∧ closedRun.body = str "ello" ∧
    ¬Serves smallEnv (rangeBuffer 0x32) smallFile (.closed 1 2) := by
  have hending : closedRun.ending = .returned 0 := by decide +kernel
  have hlength : (readMessage closedRun.wire).map (fun p => field (httpHeaderFieldList .contentLength) p.1) =
      some (some (str "4")) := by decide +kernel
  have hfull : InFull oneTurn closedRun := inFull_of_all oneTurn_full (by decide +kernel)
  refine ⟨rangeBuffer_request (by decide +kernel) (by decide +kernel) (by decide) (by decide),
    ⟨by decide, by decide, by decide⟩, by decide +kernel, ?_⟩
  rintro ⟨message, hyields, ls, hread, -, -, hfield⟩
  have hwire : closedRun.wire = message := hyields.returned _ _ hfull hending
  rw [hwire, hread, Option.map_some, Option.some.injEq, hfield, Option.some.injEq] at hlength
  revert hlength
  decide +kernel

end Distsys.Tinyweb
