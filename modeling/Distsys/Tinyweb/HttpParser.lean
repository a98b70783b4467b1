import Distsys.Lib.Calendar
import Distsys.Lib.Regex
import Distsys.Lib.Strtok
import Distsys.Tinyweb.Http

/-! The request parser (`src/http_parser.c`). Regular expressions check the request line, the path of a
    CGI script and a range line; the fields are then cut out by `strtok`. -/

namespace Distsys.Tinyweb

/-- A `char *` variable: never set, the null pointer that a failed `malloc` left, or a string. -/
inductive Pointer where
  | unset
  | null
  | text (s : Bytes)
  deriving DecidableEq

/-- It has been set, if only to NULL. -/
def Pointer.isSet : Pointer → Bool
  | .unset => false
  | .null | .text _ => true

/-- `parsed_http_header_t`, with the values that `parse_http_header` starts from. -/
structure ParsedHeader where
  method : Pointer := .unset
  filename : Pointer := .unset
  protocol : Pointer := .unset
  httpState : HttpStatus := .internalServerError
  modsince : Time := .epoch
  byteStart : Int := -2
  byteEnd : Int := -2
  isCGI : Bool := false
  deriving DecidableEq

/-- The file behind the path `/`. -/
def DEFAULT_HTML_PAGE : Bytes := str "/default.html"

/-! ### The C library -/

/-- The patterns that the parser compiles. -/
inductive Pattern where
  | statusLine
  | cgi
  | range
  deriving DecidableEq

/-- The calls of `malloc` behind a request. -/
inductive Allocation where
  | method
  | filename
  | protocol
  | contentType
  | lastModified
  | contentRange
  | contentLength
  | contentLocation
  | execPath
  deriving DecidableEq

/-- What the server asks of the C library: which calls of `regcomp` and `malloc` succeed, and the time
    that `strptime` with the format `If-Modified-Since: %a, %d %b %Y %H:%M:%S` and then `mktime` read
    from the start of a line. -/
structure Libc where
  regcomp : Pattern → Bool
  malloc : Allocation → Bool
  ifModifiedSince : Bytes → Option Time

/-- A C library whose calls succeed, and which reads no date. -/
def Libc.working : Libc := ⟨fun _ => true, fun _ => true, fun _ => none⟩

/-! ### Patterns -/

/-- `REG_NEWLINE`: a line feed ends a line. -/
def newline (c : UInt8) : Bool := c == LF

/-- Without `REG_NEWLINE` only the subject begins and ends. -/
def noNewline (_ : UInt8) : Bool := false

/-- A literal under `REG_ICASE`. -/
def textIcase : Bytes → Regex UInt8
  | [] => .eps
  | c :: w => .cat (.set fun d => tolower d == tolower c) (textIcase w)

def methods : List Bytes :=
  [str "GET", str "HEAD", str "POST", str "PUT", str "DELETE", str "TRACE", str "CONNECT", str "OPTIONS", str "DUMMY"]

/-- `\(GET\|HEAD\|POST\|PUT\|DELETE\|TRACE\|CONNECT\|OPTIONS\|DUMMY\)` -/
def methodRegex : Regex UInt8 := .any (methods.map .text)

/-- `/\([[:alnum:]]\|/\|-\)\{0,\}\([[:punct:]][[:alnum:]]\{1,\}\)\{0,1\}` -/
def pathRegex : Regex UInt8 :=
  .cat (.text (str "/")) (.cat (.star (.any [.set isalnum, .text (str "/"), .text (str "-")]))
    (.opt (.cat (.set ispunct) (.plus (.set isalnum)))))

/-- `HTTP/[[:digit:]][[:punct:]][[:digit:]]` -/
def versionRegex : Regex UInt8 := .cat (.text (str "HTTP/")) (.cat (.set isdigit) (.cat (.set ispunct) (.set isdigit)))

/-- The request line, from `^` to `\r$`. -/
def statusLineRegex : Regex UInt8 :=
  .cat .bol (.cat methodRegex (.cat (.set isblank) (.cat pathRegex (.cat (.set isblank) (.cat versionRegex
    (.cat (.text [CR]) .eol))))))

/-- `^/cgi-bin` -/
def cgiRegex : Regex UInt8 := .cat .bol (textIcase (str "/cgi-bin"))

/-- `Range[[:blank:]]\{0,\}:[[:blank:]]\{0,\}bytes=` -/
def rangeNameRegex : Regex UInt8 :=
  .cat (textIcase (str "Range")) (.cat (.star (.set isblank)) (.cat (.text (str ":")) (.cat (.star (.set isblank))
    (textIcase (str "bytes=")))))

/-- `\(\([[:digit:]]\{1,\}-[[:digit:]]\{0,\}\)\|\(-[[:digit:]]\{1,\}\)\)` -/
def rangeSpecRegex : Regex UInt8 :=
  .alt (.cat (.plus (.set isdigit)) (.cat (.text (str "-")) (.star (.set isdigit))))
    (.cat (.text (str "-")) (.plus (.set isdigit)))

def rangeRegex : Regex UInt8 := .cat .bol (.cat rangeNameRegex rangeSpecRegex)

/-! ### The range line -/

/-- One of the two loops of the range scan. The argument is the line before the scan, last byte first;
    the byte that stops the loop is kept. -/
def scanDigits : Bytes → Int → Int → Except Fault (Int × Bytes)
  | [], _, _ => .error .overrun
  | c :: rest, v, pos =>
    if isdigit c then scanDigits rest (wrap32 (v + wrap32 (digitValue c * pos))) (wrap32 (pos * 10))
    else .ok (v, c :: rest)

/-- A number of the range, -1 when there is no digit. -/
def scanNumber : Bytes → Except Fault (Int × Bytes)
  | [] => .error .overrun
  | c :: rest => scanDigits (c :: rest) (if isdigit c then 0 else -1) 1

/-- The start and end values of a range, scanned backwards from the end of the match. -/
def scanRange (line : Bytes) (matchEnd : Nat) : Except Fault (Int × Int) :=
  match scanNumber (line.take matchEnd).reverse with
  | .error f => .error f
  | .ok (endValue, rest) => match scanNumber rest.tail with
    | .error f => .error f
    | .ok (startValue, _) => .ok (startValue, endValue)

/-- The state after a range line. -/
def rangeState (startValue endValue : Int) : HttpStatus :=
  if startValue = -1 ∧ endValue > 0 then .partialContent
  else if startValue ≥ 0 ∧ endValue = -1 then .partialContent
  else if startValue ≥ 0 ∧ endValue > 0 ∧ startValue < endValue then .partialContent
  else .rangeNotSatisfiable

/-! ### The parser -/

/-- One turn of the loop over the header lines. -/
def parseHeaderLine (lib : Libc) (parsed : ParsedHeader) (pointer : Bytes) : Except Fault ParsedHeader :=
  let parsed := match lib.ifModifiedSince pointer with
    | some t => { parsed with modsince := t }
    | none => parsed
  match Regex.regexec noNewline rangeRegex pointer with
  | none => .ok parsed
  | some (_, matchEnd) => match scanRange pointer matchEnd with
    | .error f => .error f
    | .ok (startValue, endValue) =>
      .ok { parsed with httpState := rangeState startValue endValue, byteStart := startValue, byteEnd := endValue }

/-- From the third `strtok` on: the protocol, the two checks and the header lines. -/
def parseProtocol (lib : Libc) (parsed : ParsedHeader) (rest : Bytes) : Except Fault ParsedHeader :=
  match strtok (· == CR) rest with
  | none => .error .nullPointer
  | some (pointer, rest) =>
    if lib.malloc .protocol = false then .ok { parsed with protocol := .null }
    else
      let parsed := { parsed with protocol := .text pointer }
      if pointer ≠ str "HTTP/1.1" then .ok { parsed with httpState := .badRequest }
      else if ¬(parsed.method = .text (str "GET") ∨ parsed.method = .text (str "HEAD")) then
        .ok { parsed with httpState := .notImplemented }
      else if lib.regcomp .range = false then .ok { parsed with httpState := .internalServerError }
      else (tokens (· == LF) rest).foldlM (parseHeaderLine lib) { parsed with httpState := .ok }

/-- From the second `strtok` on: the path. -/
def parseFilename (lib : Libc) (parsed : ParsedHeader) (rest : Bytes) : Except Fault ParsedHeader :=
  match strtok (· == SP) rest with
  | none => .error .nullPointer
  | some (pointer, rest) =>
    if pointer.length = 1 then parseProtocol lib { parsed with filename := .text DEFAULT_HTML_PAGE } rest
    else if lib.malloc .filename = false then .ok { parsed with filename := .null }
    else
      let parsed := { parsed with filename := .text pointer }
      if lib.regcomp .cgi = false then .ok parsed
      else parseProtocol lib { parsed with isCGI := (Regex.regexec noNewline cgiRegex pointer).isSome } rest

/-- From the first `strtok` on: the method. -/
def parseMethod (lib : Libc) (header : Bytes) : Except Fault ParsedHeader :=
  match strtok (· == SP) header with
  | none => .error .nullPointer
  | some (pointer, rest) =>
    if lib.malloc .method = false then .ok { method := .null }
    else parseFilename lib { method := .text pointer } rest

/-- `parse_http_header` on a string. -/
def parseHeader (lib : Libc) (header : Bytes) : Except Fault ParsedHeader :=
  match Regex.regexec newline statusLineRegex header with
  | some (0, _) => parseMethod lib header
  | _ => .ok { httpState := .badRequest }

/-- `parse_http_header` on the array that `header` points to. -/
def parseHttpHeader (lib : Libc) (buffer : Bytes) : Except Fault ParsedHeader :=
  if lib.regcomp .statusLine = false then .ok {}
  else match cstring buffer with
    | .error f => .error f
    | .ok header => parseHeader lib header

end Distsys.Tinyweb
