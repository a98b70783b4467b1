import Distsys.Lib.Strptime
import Distsys.Lib.System
import Distsys.Tinyweb.ClientRequest
import Distsys.Tinyweb.Framing
import Distsys.Tinyweb.Modsince

/-! The date that the server sends with a file (`create_response_header` in `src/tinyweb.c`) and the one that it reads
    in a request (`parse_http_header` in `src/http_parser.c`): a client that sends the first back as the second keeps
    a copy of the file that is never out of date. -/

namespace Distsys.Tinyweb
open Regex

/-! ### The date of a request -/

/-- `If-Modified-Since: %a, %d %b %Y %H:%M:%S` -/
def ifModifiedSinceFormat : List Directive := (str "If-Modified-Since:").map .byte ++ .space :: timeFormat

/-- `strptime` and then `mktime`, in the time zone GMT that `main` sets. The format sets no `tm_isdst`, and the
    `struct tm` is not initialised: `isdst` says whether the value that stands there is positive. -/
def ifModifiedSince (isdst : Bool) (pointer : Bytes) : Option Time :=
  (strptime ifModifiedSinceFormat ⟨0, 0, 0, 0, 0, 0, 0⟩ pointer).map fun p => mktime isdst p.1

/-- A year that `%Y` reads, from 0 to 9999. -/
def YearIsRead (t : Time) : Prop := 0 ≤ t.civil.year ∧ t.civil.year ≤ 9999

instance (t : Time) : Decidable (YearIsRead t) := inferInstanceAs (Decidable (_ ∧ _))

section Date
variable {ds : List Directive} {dst : Tm} {s w : Bytes}

theorem strptime_bytes : ∀ {w : Bytes}, strptime (w.map .byte ++ ds) dst (w ++ s) = strptime ds dst s
  | [] => rfl
  | c :: w => by
    rw [List.map_cons, List.cons_append, List.cons_append, strptime]
    simp only [Directive.read, ↓reduceIte, Option.bind_some]
    exact strptime_bytes

/-- The printed time is read again, as far as its year is, but for the hour that is not asked for. -/
theorem ifModifiedSince_strftime (isdst : Bool) (t : Time) (rest : Bytes) :
    (ifModifiedSince isdst (str "If-Modified-Since: " ++ strftime t.civil ++ rest)).map Time.secs =
      if YearIsRead t then some (t.secs - dstHour isdst) else none := by
  have hname : str "If-Modified-Since: " = str "If-Modified-Since:" ++ [SP] := by decide +kernel
  have hskip : (SP :: (strftime t.civil ++ rest)).dropWhile isspace = strftime t.civil ++ rest := by
    have hhead : (strftime t.civil ++ rest).dropWhile isspace = strftime t.civil ++ rest := by
      refine dropWhile_of_head ?_
      rw [strftime_eq, timeFormat, printTime, List.flatMap_cons, List.append_assoc]
      exact head_append (head_dayName _ (inRange_civil t).wday)
    rw [List.dropWhile_cons_of_pos (by decide), hhead]
  unfold ifModifiedSince ifModifiedSinceFormat
  rw [hname, List.append_assoc, List.append_assoc, List.singleton_append, strptime_bytes, strptime]
  simp only [Directive.read, hskip, Option.bind_some, strptime_strftime]
  by_cases h : YearIsRead t
  · have hyear : 0 ≤ t.civil.year ∧ t.civil.year ≤ 9999 := h
    rw [if_pos hyear, if_pos h, Option.map_some, Option.map_some, mktime_civil isdst h.1]
  · have hyear : ¬(0 ≤ t.civil.year ∧ t.civil.year ≤ 9999) := h
    rw [if_neg hyear, if_neg h, Option.map_none, Option.map_none]

end Date

/-! ### The date of an answer -/

section Header
variable {env : Env} {buffer : Buffer} {q : ParsedHeader} {status : HttpStatus} {filepath text sent body : Bytes}
  {st : Inode} {start end_ : Int} {sched : Schedule}

/-- The value that is sent for the time of a file. -/
def lastModified (st : Inode) : Bytes := strftime st.mtime.civil ++ str " GMT"

theorem LF_not_mem_contentType : LF ∉ httpHeaderFieldList .contentType ++
    getHttpContentTypeStr (getHttpContentType filepath) := by
  have h : LF ∉ httpHeaderFieldList .contentType := by decide
  simp only [List.mem_append, not_or]
  exact ⟨h, LF_not_mem_getHttpContentTypeStr _⟩

theorem LF_not_mem_lastModified : LF ∉ httpHeaderFieldList .lastModified ++ lastModified st := by
  have h : LF ∉ httpHeaderFieldList .lastModified ∧ LF ∉ str " GMT" := by decide
  simp only [lastModified, List.mem_append, not_or]
  exact ⟨h.1, LF_not_mem_strftime _, h.2⟩

/-- A length that is cut runs into the type, and the date stands in a line of its own all the same. -/
theorem dated_lines (k : Nat) (z : Int) (filepath : Bytes) (st : Inode) : ∃ ls,
    snprintf (17 + k) (contentLengthLine z) ++ (contentTypeLine filepath ++ lastModifiedLine st.mtime.civil) =
      ls.flatMap (· ++ CRLF) ∧
    (∀ l ∈ ls, LF ∉ l ∧ l ≠ []) ∧
    ∀ more, field (httpHeaderFieldList .lastModified) (ls ++ more) = some (lastModified st) := by
  let length := httpHeaderFieldList .contentLength ++ decimalInt z
  let type := httpHeaderFieldList .contentType ++ getHttpContentTypeStr (getHttpContentType filepath)
  let date := httpHeaderFieldList .lastModified ++ lastModified st
  have hlength : LF ∉ length := by
    have h : LF ∉ httpHeaderFieldList .contentLength := by decide
    simp only [length, List.mem_append, not_or]
    exact ⟨h, LF_not_mem_decimalInt z⟩
  have htype : LF ∉ type := LF_not_mem_contentType
  have hdate : LF ∉ date := LF_not_mem_lastModified
  have hother : (httpHeaderFieldList .lastModified).isPrefixOf type = false := rfl
  have hfield (more : List Bytes) : field (httpHeaderFieldList .lastModified) (date :: more) = some (lastModified st) :=
    field_cons_self _
  by_cases hcut : CRLF <:+ snprintf (17 + k) (length ++ CRLF)
  · have htext : snprintf (17 + k) (contentLengthLine z) = length ++ CRLF := snprintf_of_suffix hlength hcut
    refine ⟨[length, type, date], ?_, ?_, fun more => ?_⟩
    · rw [htext]
      simp [length, type, date, contentTypeLine, lastModifiedLine, lastModified]
    · intro l hl
      simp only [List.mem_cons, List.not_mem_nil, or_false] at hl
      rcases hl with rfl | rfl | rfl
      · exact ⟨hlength, by simp [length, httpHeaderFieldList, str]⟩
      · exact ⟨htype, by simp [type, httpHeaderFieldList, str]⟩
      · exact ⟨hdate, by simp [date, httpHeaderFieldList, str]⟩
    · have hfirst : (httpHeaderFieldList .lastModified).isPrefixOf length = false := rfl
      rw [List.cons_append, List.cons_append, List.cons_append, field_cons_of_ne hfirst, field_cons_of_ne hother,
        hfield]
  · have hno : LF ∉ snprintf (17 + k) (contentLengthLine z) :=
      LF_not_mem_snprintf hlength (Nat.not_lt.mp fun h => hcut ((suffix_snprintf_iff hlength).mpr h))
    refine ⟨[snprintf (17 + k) (contentLengthLine z) ++ type, date], ?_, ?_, fun more => ?_⟩
    · simp [type, date, contentTypeLine, lastModifiedLine, lastModified]
    · intro l hl
      simp only [List.mem_cons, List.not_mem_nil, or_false] at hl
      rcases hl with rfl | rfl
      · exact ⟨by simp only [List.mem_append, not_or]; exact ⟨hno, by simpa [type] using htype⟩,
          by simp [type, httpHeaderFieldList, str]⟩
      · exact ⟨hdate, by simp [date, httpHeaderFieldList, str]⟩
    · have hfirst : (httpHeaderFieldList .lastModified).isPrefixOf (snprintf (17 + k) (contentLengthLine z) ++ type) =
          false := by
        rw [snprintf_contentLengthLine]
        rfl
      rw [List.cons_append, List.cons_append, field_cons_of_ne hfirst, hfield]

/-- The lines of the header of a file up to its date, and the line of the range that is left over. -/
theorem fields_dated (status : HttpStatus) (filepath : Bytes) (st : Inode) (start end_ : Int) : ∃ ls,
    (fileHeader status filepath st start end_).fields =
      ls.flatMap (· ++ CRLF) ++ (fileHeader status filepath st start end_).contentRange.toList.flatten ∧
    (∀ l ∈ ls, LF ∉ l ∧ l ≠ []) ∧
    ∀ more, field (httpHeaderFieldList .lastModified) (ls ++ more) = some (lastModified st) := by
  by_cases hp : IsPartial start end_
  · obtain ⟨ls, hls, hlines, hfield⟩ := dated_lines 6 (wrap32 (st.size - start)) filepath st
    refine ⟨ls, ?_, hlines, hfield⟩
    rw [← hls]
    simp [HttpHeader.fields, fileHeader, hp]
  · obtain ⟨ls, hls, hlines, hfield⟩ := dated_lines 10 st.size filepath st
    refine ⟨ls, ?_, hlines, hfield⟩
    rw [← hls]
    simp [HttpHeader.fields, fileHeader, hp]

end Header

end Distsys.Tinyweb
