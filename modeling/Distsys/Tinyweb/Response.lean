import Distsys.Lib.Head
import Distsys.Libsockets.SocketIo
import Distsys.Tinyweb.HttpParser

/-! Building and sending a response (`src/tinyweb.c`): the header fields, the header text, and the loop
    that copies the requested file to the socket. -/

namespace Distsys.Tinyweb

/-- `BUFSIZE` of `handle_client`, the size of its three arrays. -/
def BUFSIZE : Nat := 1000

/-! ### Files -/

/-- What `stat` says that a path leads to. -/
inductive FileKind where
  | regular
  | directory
  | other
  deriving DecidableEq, Repr

/-- What `stat` and `open` find under a path. The size of a regular file counts its bytes; a device or a
    pipe has size 0. -/
structure Inode where
  kind : FileKind
  mode : Nat
  mtime : Time
  /-- `open` for reading succeeds. -/
  readable : Bool
  data : Bytes
  size : Nat
  size_lt : size < 2 ^ 63
  size_eq : kind = .regular → size = data.length
  other_size : kind = .other → size = 0

/-- A path that `stat` fails on leads to nothing. -/
abbrev FileSystem := Bytes → Option Inode

/-- The mode bit for the owner to execute the file. -/
def S_IEXEC : Nat := 0o100

/-- `check_root_dir`: `S_IROTH || S_IXOTH` is a truth value, so only the bit 1 is tested. -/
def checkRootDir (fs : FileSystem) (rootDir : Bytes) : Bool :=
  match fs rootDir with
  | none => false
  | some st => st.kind == .directory && (1 &&& st.mode) != 0

/-! ### Header fields -/

/-- The fields of `http_header_t` that are ever set. -/
structure HttpHeader where
  status : HttpStatus := .internalServerError
  lastModified : Option Bytes := none
  contentLength : Option Bytes := none
  contentType : Option Bytes := none
  contentLocation : Option Bytes := none
  contentRange : Option Bytes := none

/-- `malloc` without a check, then `snprintf` into what it returned. -/
def allocate (lib : Libc) (a : Allocation) (size : Nat) (text : Bytes) : Except Fault Bytes :=
  if lib.malloc a then .ok (snprintf size text) else .error .nullPointer

/-- Both range values are set: neither is the -2 that the parser starts from. -/
def IsPartial (start end_ : Int) : Prop := start ≠ -2 ∧ end_ ≠ -2

instance (start end_ : Int) : Decidable (IsPartial start end_) := inferInstanceAs (Decidable (_ ∧ _))

def contentTypeLine (filepath : Bytes) : Bytes :=
  httpHeaderFieldList .contentType ++ getHttpContentTypeStr (getHttpContentType filepath) ++ CRLF

def lastModifiedLine (timeinfo : Tm) : Bytes :=
  httpHeaderFieldList .lastModified ++ (strftime timeinfo ++ str " GMT") ++ CRLF

/-- The ends of the range and the size are narrowed to `int`. -/
def contentRangeLine (size : Nat) (start : Int) : Bytes :=
  httpHeaderFieldList .contentRange ++ str "bytes " ++ decimalInt start ++ str "-" ++ decimalInt (wrap32 (size - 1)) ++
    str "/" ++ decimalInt (wrap32 size) ++ CRLF

/-- The line of the length, before it is cut to its array. -/
def contentLengthLine (length : Int) : Bytes := httpHeaderFieldList .contentLength ++ decimalInt length ++ CRLF

/-- `create_response_header`. What `localtime` returns is not checked, and `strftime` reads through NULL. The sizes of
    the last two fields count the bytes of an integer, not its digits. -/
def createResponseHeader (lib : Libc) (filepath : Bytes) (data : HttpHeader) (st : Inode) (start end_ : Int) :
    Except Fault HttpHeader := do
  let contentType ← allocate lib .contentType ((httpHeaderFieldList .contentType).length +
    (getHttpContentTypeStr (getHttpContentType filepath)).length + CRLF.length + 1) (contentTypeLine filepath)
  let some timeinfo := localtime st.mtime | throw .nullPointer
  let lastModified ← allocate lib .lastModified ((httpHeaderFieldList .lastModified).length +
    (strftime timeinfo ++ str " GMT").length + CRLF.length + 1) (lastModifiedLine timeinfo)
  if IsPartial start end_ then
    let contentRange ← allocate lib .contentRange ((httpHeaderFieldList .contentRange).length + 4 * 3 +
      (str "bytes -/\r\n").length + 1) (contentRangeLine st.size start)
    let contentLength ← allocate lib .contentLength ((httpHeaderFieldList .contentLength).length + 4 +
      CRLF.length + 1) (contentLengthLine (wrap32 (st.size - start)))
    return { data with contentType, lastModified, contentRange, contentLength }
  else
    let contentLength ← allocate lib .contentLength ((httpHeaderFieldList .contentLength).length + 8 +
      CRLF.length + 1) (contentLengthLine st.size)
    return { data with contentType, lastModified, contentLength }

/-! ### The header text -/

def statusText (status : HttpStatus) : Bytes :=
  str "HTTP/1.1" ++ str " " ++ decimal (httpStatusList status).code ++ str " " ++ (httpStatusList status).text ++ CRLF

def serverLine : Bytes := httpHeaderFieldList .server ++ str "Tinyweb 1.1" ++ CRLF

/-- The line of the date, which names no time zone. -/
def dateLine (now : ClockTime) : Bytes := httpHeaderFieldList .date ++ strftime now.civil ++ CRLF

/-- The strings that `create_response_header_string` appends to the status line. -/
def HttpHeader.parts (data : HttpHeader) (now : ClockTime) : List Bytes :=
  [snprintf 30 serverLine, snprintf 50 (dateLine now)] ++ data.contentLength.toList ++ data.contentType.toList ++
    data.lastModified.toList ++ data.contentLocation.toList ++ data.contentRange.toList ++ [CRLF]

/-- `create_response_header_string`, on an array of `BUFSIZE` bytes. -/
def createResponseHeaderString (data : HttpHeader) (now : ClockTime) : Except Fault Bytes :=
  (data.parts now).foldlM (strcat BUFSIZE) (snprintf 50 (statusText data.status))

/-! ### The body -/

/-- How much of a file is read at a time. -/
def CHUNK_SIZE : Nat := 256

/-- The count that a failed `read` leaves. -/
def SIZE_MAX : Nat := 2 ^ 64 - 1

/-- An integer converted to `size_t`. -/
def toSizeT (z : Int) : Nat := (z % 2 ^ 64).toNat

/-- What `write_response_body` gets to: its result, when it returns, and for every `write` the count that
    it was given and the bytes that the socket accepted. -/
structure BodyRun where
  res : Option Int
  writes : List (Nat × Bytes)

/-- One `read` into the chunk: the count it returns as a `size_t`, the new file offset, and the memory
    from the chunk on. A failed read returns -1 and leaves the memory as it is; every read of a
    directory fails. -/
def readChunk (file : Inode) (offset : Nat) (mem : Bytes) : Result → Nat × Nat × Bytes
  | .ret n =>
    if file.kind = .directory then (SIZE_MAX, offset, mem)
    else
      let got := (file.data.drop offset).take (min n CHUNK_SIZE)
      (got.length, offset + got.length, got ++ mem.drop got.length)
  | .eintr | .error => (SIZE_MAX, offset, mem)

/-- The loop of `write_response_body`. The test `readThisTime < 0` is on an unsigned value and never holds. -/
def bodyLoop (file : Inode) (bytesToWrite : Nat) (retcode : Int) (bytesWritten offset : Nat) (mem : Bytes) :
    Schedule → BodyRun
  | .read r :: .write w :: sched =>
    if bytesWritten < bytesToWrite then
      let c := readChunk file offset mem r
      match w with
      | .ret n =>
        let accepted := c.2.2.take (min n c.1)
        let run := bodyLoop file bytesToWrite retcode ((bytesWritten + accepted.length) % 2 ^ 64) c.2.1 c.2.2 sched
        { run with writes := (c.1, accepted) :: run.writes }
      | .eintr | .error => ⟨some (-1), [(c.1, [])]⟩
    else ⟨some retcode, []⟩
  | _ => if bytesWritten < bytesToWrite then ⟨none, []⟩ else ⟨some retcode, []⟩

/-- `write_response_body`, with `mem` the memory from its chunk on. `lseek` fails on an offset that is
    negative as an `off_t`; once `open` has succeeded, so does the `stat` that follows. -/
def writeResponseBody (fs : FileSystem) (filepath : Bytes) (mem : Bytes) (start end_ : Int) (sched : Schedule) :
    BodyRun :=
  match fs filepath with
  | none => ⟨some (-1), []⟩
  | some file =>
    if file.readable = false then ⟨some (-1), []⟩
    else if IsPartial start end_ then
      if toSizeT start < 2 ^ 63 then
        bodyLoop file (if end_ = -1 then file.size else toSizeT end_) 0 (toSizeT start) (toSizeT start) mem sched
      else ⟨some (-1), []⟩
    else bodyLoop file file.size 0 0 0 mem sched

end Distsys.Tinyweb
