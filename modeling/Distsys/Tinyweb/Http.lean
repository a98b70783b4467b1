import Distsys.Lib.Bytes

/-! The tables of the server: status codes and field names (`src/http.h`, `src/http.c`) and content
    types (`src/content.c`). -/

namespace Distsys.Tinyweb

/-- `http_status_t` -/
inductive HttpStatus where
  | ok
  | partialContent
  | movedPermanently
  | notModified
  | badRequest
  | forbidden
  | notFound
  | rangeNotSatisfiable
  | internalServerError
  | notImplemented
  deriving DecidableEq, Repr

structure HttpStatusEntry where
  code : Nat
  text : Bytes

def httpStatusList : HttpStatus → HttpStatusEntry
  | .ok => ⟨200, str "OK"⟩
  | .partialContent => ⟨206, str "Partial Content"⟩
  | .movedPermanently => ⟨301, str "Moved Permanently"⟩
  | .notModified => ⟨304, str "Not Modified"⟩
  | .badRequest => ⟨400, str "Bad Request"⟩
  | .forbidden => ⟨403, str "Forbidden"⟩
  | .notFound => ⟨404, str "Not Found"⟩
  | .rangeNotSatisfiable => ⟨416, str "Requested Range Not Satisfiable"⟩
  | .internalServerError => ⟨500, str "Internal Server Error"⟩
  | .notImplemented => ⟨501, str "Not Implemented"⟩

/-- The entries of `http_header_field_list` that responses use. -/
inductive HeaderField where
  | date
  | server
  | lastModified
  | contentLength
  | contentType
  | location
  | contentRange
  deriving DecidableEq, Repr

def httpHeaderFieldList : HeaderField → Bytes
  | .date => str "Date: "
  | .server => str "Server: "
  | .lastModified => str "Last-Modified: "
  | .contentLength => str "Content-Length: "
  | .contentType => str "Content-Type: "
  | .location => str "Location: "
  | .contentRange => str "Content-Range: "

/-! ### Content types -/

/-- Whether the second string occurs in the first. -/
def strstr : Bytes → Bytes → Bool
  | [], t => t.isPrefixOf []
  | c :: s, t => t.isPrefixOf (c :: s) || strstr s t

def httpContentTypeList : List (Bytes × Bytes) :=
  [(str ".html", str "text/html"), (str ".css", str "text/css"), (str ".gif", str "image/gif"),
    (str ".jpg", str "image/jpeg"), (str ".pdf", str "application/pdf"), (str ".tar", str "application/x-tar"),
    (str ".xml", str "application/xml")]

/-- The index of the first extension that occurs in the name, or that of the entry after the last. -/
def getHttpContentType (filename : Bytes) : Nat := httpContentTypeList.findIdx fun e => strstr filename e.1

/-- `get_http_content_type_str`. What is not in the list is plain text. -/
def getHttpContentTypeStr (type : Nat) : Bytes := (httpContentTypeList[type]?.map (·.2)).getD (str "text/plain")

theorem getHttpContentTypeStr_cases (P : Bytes → Prop) (h : ∀ e ∈ httpContentTypeList, P e.2)
    (hd : P (str "text/plain")) (type : Nat) : P (getHttpContentTypeStr type) := by
  unfold getHttpContentTypeStr
  cases he : httpContentTypeList[type]? with
  | none => exact hd
  | some e => exact h e (List.mem_of_getElem? he)

theorem length_getHttpContentTypeStr_le (type : Nat) : (getHttpContentTypeStr type).length ≤ 17 :=
  getHttpContentTypeStr_cases (·.length ≤ 17) (by decide) (by decide) type

theorem LF_not_mem_getHttpContentTypeStr (type : Nat) : LF ∉ getHttpContentTypeStr type :=
  getHttpContentTypeStr_cases (LF ∉ ·) (by decide) (by decide) type

end Distsys.Tinyweb
