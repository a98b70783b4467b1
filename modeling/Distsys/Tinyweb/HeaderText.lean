import Distsys.Tinyweb.HandleClient

/-! The header text of an answer: what is in it, and when it fits its array. -/

namespace Distsys.Tinyweb

/-- The optional fields, in the order in which they are appended. -/
def HttpHeader.fields (data : HttpHeader) : Bytes := (data.contentLength.toList ++ data.contentType.toList ++
  data.lastModified.toList ++ data.contentLocation.toList ++ data.contentRange.toList).flatten

/-- The text that `create_response_header_string` puts together. -/
def HttpHeader.text (data : HttpHeader) (now : ClockTime) : Bytes :=
  statusText data.status ++ serverLine ++ dateLine now ++ data.fields ++ CRLF

section Text
variable {data : HttpHeader} {now : ClockTime}

theorem length_statusText_lt (status : HttpStatus) : (statusText status).length < 50 := by
  cases status <;> decide +kernel

theorem length_dateLine (now : ClockTime) : (dateLine now).length = (strftime now.civil).length + 8 := by
  have h₁ : (httpHeaderFieldList .date).length = 6 ∧ CRLF.length = 2 := by decide
  simp only [dateLine, List.length_append, h₁.1, h₁.2]
  omega

/-- Nothing of the fixed lines is cut off, and the whole text fits exactly when its NUL does. -/
theorem createResponseHeaderString_eq : createResponseHeaderString data now =
    if (data.text now).length + 1 ≤ BUFSIZE then .ok (data.text now) else .error .overflow := by
  have hserver : serverLine.length < 30 := by decide
  have hdate : (dateLine now).length < 50 := by
    have := length_strftime_le now.toTime
    rw [length_dateLine]
    omega
  have htext : data.text now = statusText data.status ++ (data.parts now).flatten := by
    simp [HttpHeader.text, HttpHeader.fields, HttpHeader.parts, snprintf_of_lt hserver, snprintf_of_lt hdate]
  unfold createResponseHeaderString
  rw [snprintf_of_lt (length_statusText_lt _), foldlM_strcat _ _ _ (by simp [HttpHeader.parts]), ← List.length_append,
    ← htext]

theorem createResponseHeaderString_status (status : HttpStatus) (now : ClockTime) :
    createResponseHeaderString { status } now = .ok (HttpHeader.text { status } now) := by
  rw [createResponseHeaderString_eq, if_pos]
  have h₁ := length_statusText_lt status
  have h₂ := length_strftime_le now.toTime
  have h₃ : serverLine.length = 21 ∧ CRLF.length = 2 := by decide
  simp only [HttpHeader.text, HttpHeader.fields, List.length_append, length_dateLine, h₃.1, h₃.2, Option.toList_none,
    List.append_nil, List.flatten_nil, BUFSIZE]
  omega

end Text

/-! ### The lines of the text -/

/-- The first lines of every header, without their CR LF. -/
def fixedLines (status : HttpStatus) (now : ClockTime) : List Bytes :=
  [str "HTTP/1.1" ++ str " " ++ decimal (httpStatusList status).code ++ str " " ++ (httpStatusList status).text,
    httpHeaderFieldList .server ++ str "Tinyweb 1.1", httpHeaderFieldList .date ++ strftime now.civil]

section Lines
variable {data : HttpHeader} {now : ClockTime} {status : HttpStatus} {ls : List Bytes}

theorem text_eq_fixedLines : data.text now = (fixedLines data.status now).flatMap (· ++ CRLF) ++
    (data.fields ++ CRLF) := by
  simp [HttpHeader.text, fixedLines, statusText, serverLine, dateLine]

theorem fixedLines_are_lines : ∀ l ∈ fixedLines status now, LF ∉ l ∧ l ≠ [] := by
  intro l hl
  have hdate : LF ∉ httpHeaderFieldList .date := by decide
  simp only [fixedLines, List.mem_cons, List.not_mem_nil, or_false] at hl
  rcases hl with rfl | rfl | rfl
  · cases status <;> decide +kernel
  · decide
  · simp only [List.mem_append, not_or]
    exact ⟨⟨hdate, LF_not_mem_strftime _⟩, by simp [httpHeaderFieldList, str]⟩

theorem field_fixedLines {f : HeaderField} (hf : f ≠ .server ∧ f ≠ .date) :
    field (httpHeaderFieldList f) (fixedLines status now ++ ls) = field (httpHeaderFieldList f) ls := by
  have hstatus : (httpHeaderFieldList f).isPrefixOf (str "HTTP/1.1" ++ str " " ++
    decimal (httpStatusList status).code ++
      str " " ++ (httpStatusList status).text) = false := by
    cases f <;> rfl
  have hserver : (httpHeaderFieldList f).isPrefixOf (httpHeaderFieldList .server ++ str "Tinyweb 1.1") = false := by
    cases f with
    | server => exact absurd rfl hf.1
    | date | lastModified | contentLength | contentType | location | contentRange => rfl
  have hdate : (httpHeaderFieldList f).isPrefixOf (httpHeaderFieldList .date ++ strftime now.civil) = false := by
    cases f with
    | date => exact absurd rfl hf.2
    | server | lastModified | contentLength | contentType | location | contentRange => rfl
  simp only [fixedLines, List.cons_append, List.nil_append]
  rw [field_cons_of_ne hstatus, field_cons_of_ne hserver, field_cons_of_ne hdate]

end Lines

/-! ### The header of a file -/

/-- What `create_response_header` needs: its allocations succeed, and the time of the file has a year that
    `localtime` can break it down to. -/
def HeaderCreated (lib : Libc) (st : Inode) (start end_ : Int) : Prop := st.mtime.YearFits ∧
  lib.malloc .contentType = true ∧ lib.malloc .lastModified = true ∧ lib.malloc .contentLength = true ∧
  (IsPartial start end_ → lib.malloc .contentRange = true)

instance (lib : Libc) (st : Inode) (start end_ : Int) : Decidable (HeaderCreated lib st start end_) :=
  inferInstanceAs (Decidable (_ ∧ _))

/-- The header of a file; only the length and the range can be cut. -/
def fileHeader (status : HttpStatus) (filepath : Bytes) (st : Inode) (start end_ : Int) : HttpHeader where
  status := status
  contentType := some (contentTypeLine filepath)
  lastModified := some (lastModifiedLine st.mtime.civil)
  contentLength := some (if IsPartial start end_ then snprintf 23 (contentLengthLine (wrap32 (st.size - start)))
    else snprintf 27 (contentLengthLine st.size))
  contentRange := if IsPartial start end_ then some (snprintf 38 (contentRangeLine st.size start)) else none

section FileHeader
variable {lib : Libc} {filepath : Bytes} {status : HttpStatus} {st : Inode} {start end_ : Int} {now : ClockTime}

theorem snprintf_contentTypeLine : snprintf ((httpHeaderFieldList .contentType).length + (getHttpContentTypeStr
    (getHttpContentType filepath)).length + CRLF.length + 1) (contentTypeLine filepath) = contentTypeLine filepath :=
  snprintf_of_lt (by simp only [contentTypeLine, List.length_append]; omega)

theorem createResponseHeader_eq : createResponseHeader lib filepath { status } st start end_ =
    if HeaderCreated lib st start end_ then .ok (fileHeader status filepath st start end_)
      else .error .nullPointer := by
  have hmodified : snprintf ((httpHeaderFieldList .lastModified).length +
    (strftime st.mtime.civil ++ str " GMT").length +
      CRLF.length + 1) (lastModifiedLine st.mtime.civil) = lastModifiedLine st.mtime.civil :=
    snprintf_of_lt (by simp only [lastModifiedLine, List.length_append]; omega)
  have hsizes : (httpHeaderFieldList .contentRange).length + 4 * 3 + (str "bytes -/\r\n").length + 1 = 38 ∧
      (httpHeaderFieldList .contentLength).length + 4 + CRLF.length + 1 = 23 ∧
      (httpHeaderFieldList .contentLength).length + 8 + CRLF.length + 1 = 27 := by decide
  unfold createResponseHeader HeaderCreated allocate
  rw [snprintf_contentTypeLine, hsizes.1, hsizes.2.1, hsizes.2.2]
  by_cases hyear : st.mtime.YearFits
  · have htime : localtime st.mtime = some st.mtime.civil := if_pos hyear
    simp only [htime, hmodified]
    by_cases h₁ : lib.malloc .contentType = true
    · by_cases h₂ : lib.malloc .lastModified = true
      · by_cases hp : IsPartial start end_
        · by_cases h₃ : lib.malloc .contentRange = true
          · by_cases h₄ : lib.malloc .contentLength = true
            · simp [hyear, h₁, h₂, h₃, h₄, hp, fileHeader, bind, Except.bind, pure, Except.pure]
            · simp [h₁, h₂, h₃, h₄, hp, bind, Except.bind]
          · simp [h₁, h₂, h₃, hp, bind, Except.bind]
        · by_cases h₄ : lib.malloc .contentLength = true
          · simp [hyear, h₁, h₂, h₄, hp, fileHeader, bind, Except.bind, pure, Except.pure]
          · simp [h₁, h₂, h₄, hp, bind, Except.bind]
      · simp [h₁, h₂, bind, Except.bind]
    · simp [h₁, bind, Except.bind]
  · have htime : localtime st.mtime = none := if_neg hyear
    simp only [htime, hyear, false_and, if_false]
    by_cases h₁ : lib.malloc .contentType = true
    · simp [h₁, bind, Except.bind, throw, throwThe, MonadExceptOf.throw]
    · simp [h₁, bind, Except.bind]

theorem length_fileHeader : ((fileHeader status filepath st start end_).text now).length + 1 ≤ BUFSIZE := by
  have h₁ := length_statusText_lt status
  have h₂ := length_strftime_le now.toTime
  have h₃ : serverLine.length = 21 ∧ CRLF.length = 2 := by decide
  have h₄ : (contentTypeLine filepath).length ≤ 33 := by
    have := length_getHttpContentTypeStr_le (getHttpContentType filepath)
    have h : (httpHeaderFieldList .contentType).length = 14 := by decide
    simp only [contentTypeLine, List.length_append, h, h₃.2]
    omega
  have h₅ : (lastModifiedLine st.mtime.civil).length ≤ 55 := by
    have := length_strftime_le st.mtime
    have h : (httpHeaderFieldList .lastModified).length = 15 ∧ (str " GMT").length = 4 := by decide
    simp only [lastModifiedLine, List.length_append, h.1, h.2, h₃.2]
    omega
  by_cases hp : IsPartial start end_
  · have h₆ := length_snprintf 23 (contentLengthLine (wrap32 (st.size - start)))
    have h₇ := length_snprintf 38 (contentRangeLine st.size start)
    simp only [HttpHeader.text, HttpHeader.fields, fileHeader, if_pos hp, List.length_append, length_dateLine, h₃.1,
      h₃.2, Option.toList_some, Option.toList_none, List.flatten_append, List.flatten_singleton, List.flatten_nil,
      List.length_nil, BUFSIZE]
    omega
  · have h₆ := length_snprintf 27 (contentLengthLine st.size)
    simp only [HttpHeader.text, HttpHeader.fields, fileHeader, if_neg hp, List.length_append, length_dateLine, h₃.1,
      h₃.2, Option.toList_some, Option.toList_none, List.flatten_append, List.flatten_singleton, List.flatten_nil,
      List.length_nil, BUFSIZE]
    omega

theorem createResponseHeaderString_fileHeader :
    createResponseHeaderString (fileHeader status filepath st start end_) now =
      .ok ((fileHeader status filepath st start end_).text now) := by
  rw [createResponseHeaderString_eq, if_pos length_fileHeader]

end FileHeader

/-! ### The header of a redirection -/

def locationLine (filepath : Bytes) : Bytes := httpHeaderFieldList .location ++ filepath ++ str "/" ++ CRLF

/-- The header of a redirection fits exactly when the path leaves room for the other lines. -/
theorem createResponseHeaderString_redirect {filepath : Bytes} {now : ClockTime} :
    createResponseHeaderString {
      status := .movedPermanently, contentLocation := some (snprintf BUFSIZE (locationLine filepath)) } now =
        .error .overflow ↔ BUFSIZE < filepath.length + (strftime now.civil).length + 77 := by
  have h₁ : (statusText .movedPermanently).length = 32 := by decide +kernel
  have h₂ : serverLine.length = 21 ∧ CRLF.length = 2 := by decide
  have h₃ : (locationLine filepath).length = filepath.length + 13 := by
    have h : (httpHeaderFieldList .location).length = 10 ∧ (str "/").length = 1 := by decide
    simp only [locationLine, List.length_append, h.1, h.2, h₂.2]
    omega
  have h₄ : (HttpHeader.text {
      status := .movedPermanently, contentLocation := some (snprintf BUFSIZE (locationLine filepath)) } now).length =
      (strftime now.civil).length + min (BUFSIZE - 1) (filepath.length + 13) + 63 := by
    simp only [HttpHeader.text, HttpHeader.fields, List.length_append, length_dateLine, length_snprintf, h₁, h₂.1,
      h₂.2, h₃, Option.toList_some, Option.toList_none, List.flatten_append, List.flatten_singleton, List.flatten_nil,
      List.length_nil]
    omega
  rw [createResponseHeaderString_eq, h₄]
  unfold BUFSIZE
  split
  · simp only [reduceCtorEq, false_iff]
    omega
  · simp only [true_iff]
    omega

end Distsys.Tinyweb
