import Distsys.Tinyweb.LogEntry
import Distsys.Tinyweb.Response

/-! Answering one request: `handle_client` in `src/tinyweb.c`. None of its branches looks at the outcome
    of a `write`, so the decision between them, `dispatch`, stands apart from what each of them then
    does, `perform`. -/

namespace Distsys.Tinyweb

/-- How `fork` ends for the server, and whether the child that it made exits by itself. -/
inductive Fork where
  | failed
  | child (exited : Bool)
  deriving DecidableEq, Repr

/-- What the process meets while it answers one request. -/
structure Env where
  libc : Libc
  rootDir : Bytes
  timeout : Nat
  /-- Where the log goes. -/
  logFilename : Option Bytes
  writer : LogWriter
  /-- What `stat` finds in `handle_client`. -/
  fs : FileSystem
  /-- What `open` and `stat` find later, in `write_response_body`. -/
  fsBody : FileSystem
  now : ClockTime
  fork : Fork
  /-- The memory from the chunk of `write_response_body` on, before its first `read`. -/
  memory : Bytes
  chunk_le : CHUNK_SIZE ≤ memory.length
  memory_lt : memory.length < SIZE_MAX
  /-- Whether the bytes that an unset pointer or an unset array leads to can be read as a string. -/
  unsetReadable : Bool

/-- An undisturbed process, at the start of 1970. -/
def Env.undisturbed (rootDir : Bytes) (fs : FileSystem) : Env where
  libc := .working
  rootDir := rootDir
  timeout := 0
  logFilename := none
  writer := localWriter
  fs := fs
  fsBody := fs
  now := .epoch
  fork := .failed
  memory := List.replicate CHUNK_SIZE NUL
  chunk_le := Nat.le_of_eq List.length_replicate.symm
  memory_lt := Nat.lt_of_le_of_lt (Nat.le_of_eq List.length_replicate) (Nat.le_of_ble_eq_true rfl)
  unsetReadable := false

/-! ### The decision -/

/-- The answers of `handle_client`, with the path and the file status as far as they are set. -/
inductive Answer where
  | reply (status : HttpStatus) (filepath : Option Bytes) (fstat : Option Inode)
  | redirect (filepath : Bytes) (fstat : Inode)
  | head (filepath : Bytes) (fstat : Inode)
  | file (status : HttpStatus) (filepath : Bytes) (fstat : Inode)
  | cgi (filepath : Bytes)
  | fault (f : Fault)

/-- `strcpy` of the root directory and `strcat` of the file name, into an array of `BUFSIZE` bytes. -/
def requestPath (rootDir : Bytes) (filename : Pointer) : Except Fault Bytes := do
  let filepath ← strcat BUFSIZE [] rootDir
  match filename with
  | .unset => .error .unassigned
  | .null => .error .nullPointer
  | .text s => strcat BUFSIZE filepath s

/-- A `double` of a whole number, converted to `int`. Out of range this is undefined in C; on x86 it is `INT_MIN`. -/
def toInt (z : Int) : Int := if -2 ^ 31 ≤ z ∧ z < 2 ^ 31 then z else -2 ^ 31

/-- The condition of the 304 branch. -/
def notModified (modsince mtime : Time) : Bool := modsince.secs ≠ 0 && 0 ≤ toInt (modsince.secs - mtime.secs)

/-- The branches behind a successful `stat`. -/
def dispatchFile (parsed : ParsedHeader) (filepath : Bytes) (fstat : Inode) : Answer :=
  match parsed.httpState with
  | .rangeNotSatisfiable => .reply .rangeNotSatisfiable (some filepath) (some fstat)
  | .partialContent =>
    if parsed.byteStart ≥ fstat.size then .reply .rangeNotSatisfiable (some filepath) (some fstat)
    else .file .partialContent filepath fstat
  | _ =>
    if fstat.kind = .other then .reply .notFound (some filepath) (some fstat)
    else if fstat.kind = .directory then .redirect filepath fstat
    else if notModified parsed.modsince fstat.mtime then .reply .notModified (some filepath) (some fstat)
    else if parsed.isCGI then
      if fstat.mode &&& S_IEXEC ≠ 0 then .cgi filepath else .reply .forbidden (some filepath) (some fstat)
    else if parsed.method = .text (str "GET") then .file .ok filepath fstat
    else .head filepath fstat

/-- The branch that a request takes. -/
def dispatch (env : Env) (parsed : ParsedHeader) : Answer :=
  match parsed.httpState with
  | .internalServerError => .reply .internalServerError none none
  | .badRequest => .reply .badRequest none none
  | .notImplemented => .reply .notImplemented none none
  | _ => match requestPath env.rootDir parsed.filename with
    | .error f => .fault f
    | .ok filepath => match env.fs filepath with
      | none => .reply .notFound (some filepath) none
      | some fstat => dispatchFile parsed filepath fstat

/-! ### Runs -/

/-- The values in a line of the access log, as far as they are set. -/
structure LogLine where
  status : HttpStatus
  method : Pointer
  filepath : Option Bytes
  protocol : Pointer
  size : Option Int

/-- What `handle_client` does that can be seen from outside. -/
inductive Event where
  | log (line : LogLine)
  /-- `write_response_header` with this text, and the part of it that the socket accepted. -/
  | header (status : HttpStatus) (text sent : Bytes)
  /-- `open` in `write_response_body`. -/
  | openFile (path : Bytes)
  /-- A `write` in `write_response_body`: the count given to it and the bytes that the socket accepted. -/
  | body (count : Nat) (accepted : Bytes)
  /-- What the child of a CGI request prints first and what it runs. -/
  | cgi (header command : Bytes)

/-- How far a run gets. -/
inductive Ending where
  | returned (retcode : Int)
  | exited
  /-- A call has not returned yet. -/
  | blocked
  | fault (f : Fault)
  deriving DecidableEq, Repr

/-- What happens in a run, in its order, and how far it gets. -/
structure Run where
  events : List Event
  ending : Ending

/-- The run behind an event. -/
def Run.after (run : Run) (e : Event) : Run := { run with events := e :: run.events }

/-- The bytes of a body that the socket accepted. -/
def Event.body? : Event → Bytes
  | .body _ accepted => accepted
  | _ => []

/-- The bytes that the server puts on the connection. -/
def Event.wire? : Event → Bytes
  | .header _ _ sent => sent
  | .body _ accepted => accepted
  | _ => []

/-- The bytes of the body that the client receives. -/
def Run.body (run : Run) : Bytes := run.events.flatMap Event.body?

/-- All the bytes that the client receives from the server. -/
def Run.wire (run : Run) : Bytes := run.events.flatMap Event.wire?

/-! ### The actions -/

/-- The values that `write_log` prints. The size of the file counts as far as it is set, as an `int`. -/
def writeLog (status : HttpStatus) (parsed : ParsedHeader) (filepath : Option Bytes) (fstat : Option Inode)
    (header : Bytes) : LogLine where
  status := status
  method := parsed.method
  filepath := filepath
  protocol := parsed.protocol
  size := fstat.map fun st => wrap32 (wrap32 header.length +
    if IsPartial parsed.byteStart parsed.byteEnd then st.size - parsed.byteStart else (st.size : Int))

/-- The arguments of the call that prints the line, where its strings are set. -/
def LogWriter.entry (w : LogWriter) (line : LogLine) : Option LogEntry :=
  match line.method, line.filepath, line.protocol with
  | .text method, some filepath, .text protocol => some {
      pid := w.pid
      address := inetNtop w.client.sinAddr
      portNumber := w.client.sinPort.toNat
      date := logDate w.now
      method
      filepath
      protocol
      code := (httpStatusList line.status).code
      size := line.size.getD w.unsetSize }
  | _, _, _ => none

/-- What gets to the log of a line whose strings are set. -/
def Env.logged (env : Env) (line : LogLine) : Option Bytes := (env.writer.entry line).map (·.written env.logFilename)

/-- The strings of the line are set. -/
def LogLine.isReadable (line : LogLine) : Bool := line.method.isSet && line.filepath.isSome && line.protocol.isSet

/-- The line is logged before the rest of the run. -/
def logThen (env : Env) (line : LogLine) (next : Run) : Run :=
  if line.isReadable || env.unsetReadable then next.after (.log line) else ⟨[.log line], .fault .unassigned⟩

/-- `write_response_header`. -/
def writeResponseHeader (env : Env) (status : HttpStatus) (text : Bytes) (sched : Schedule) : Run :=
  let run := writeToSocket env.timeout text sched
  ⟨[.header status text run.sent], match run.res with
    | none => .blocked
    | some r => .returned (if r < 0 then -1 else 0)⟩

/-- Header, log line, and the header to the socket: the end of most branches. -/
def reply (env : Env) (parsed : ParsedHeader) (data : HttpHeader) (filepath : Option Bytes) (fstat : Option Inode)
    (sched : Schedule) : Run :=
  match createResponseHeaderString data env.now with
  | .error f => ⟨[], .fault f⟩
  | .ok text =>
    logThen env (writeLog data.status parsed filepath fstat text) (writeResponseHeader env data.status text sched)

/-- `return write_response_body`. -/
def sendBody (env : Env) (parsed : ParsedHeader) (filepath : Bytes) (sched : Schedule) : Run :=
  let run := writeResponseBody env.fsBody filepath env.memory parsed.byteStart parsed.byteEnd sched
  ⟨.openFile filepath :: run.writes.map fun w => .body w.1 w.2, match run.res with
    | none => .blocked
    | some r => .returned r⟩

/-- The two branches that send a file. The result of `write_response_header` is not used. -/
def sendFile (env : Env) (parsed : ParsedHeader) (status : HttpStatus) (filepath : Bytes) (fstat : Inode)
    (sched : Schedule) : Run :=
  match createResponseHeader env.libc filepath { status } fstat parsed.byteStart parsed.byteEnd with
  | .error f => ⟨[], .fault f⟩
  | .ok data => match createResponseHeaderString data env.now with
    | .error f => ⟨[], .fault f⟩
    | .ok text =>
      let run := writeToSocket env.timeout text sched
      let next : Run := match run.res with
        | none => ⟨[], .blocked⟩
        | some _ => logThen env (writeLog status parsed (some filepath) (some fstat) text)
            (sendBody env parsed filepath run.rest)
      next.after (.header status text run.sent)

/-- The location is the path of the file and a slash. -/
def redirect (env : Env) (parsed : ParsedHeader) (filepath : Bytes) (fstat : Inode) (sched : Schedule) : Run :=
  match allocate env.libc .contentLocation BUFSIZE
    (httpHeaderFieldList .location ++ filepath ++ str "/" ++ CRLF) with
  | .error f => ⟨[], .fault f⟩
  | .ok contentLocation =>
    reply env parsed { status := .movedPermanently, contentLocation } (some filepath) (some fstat) sched

/-- The branch for HEAD. -/
def replyHead (env : Env) (parsed : ParsedHeader) (filepath : Bytes) (fstat : Inode) (sched : Schedule) : Run :=
  match createResponseHeader env.libc filepath { status := .ok } fstat parsed.byteStart parsed.byteEnd with
  | .error f => ⟨[], .fault f⟩
  | .ok data => reply env parsed data (some filepath) (some fstat) sched

/-- The child prints the header without its empty line and becomes a shell that runs the command. -/
def runCgi (env : Env) (filepath : Bytes) : Run :=
  if env.libc.malloc .execPath = false then ⟨[], .fault .nullPointer⟩
  else match env.fork with
    | .failed => ⟨[], .returned 1⟩
    | .child exited => match createResponseHeaderString { status := .ok } env.now with
      | .error f => ⟨[], .fault f⟩
      | .ok text =>
        ⟨[.cgi (text.take (text.length - 2)) (str "./" ++ filepath)], if exited then .exited else .returned (-1)⟩

/-- What `handle_client` does in a branch. -/
def perform (env : Env) (parsed : ParsedHeader) (sched : Schedule) : Answer → Run
  | .reply status filepath fstat => reply env parsed { status } filepath fstat sched
  | .redirect filepath fstat => redirect env parsed filepath fstat sched
  | .head filepath fstat => replyHead env parsed filepath fstat sched
  | .file status filepath fstat => sendFile env parsed status filepath fstat sched
  | .cgi filepath => runCgi env filepath
  | .fault f => ⟨[], .fault f⟩

/-! ### One request -/

/-- `client_header`, an array that is not initialised. -/
structure Buffer where
  bytes : Bytes
  size_eq : bytes.length = BUFSIZE

/-- An array full of one byte. -/
def Buffer.filled (c : UInt8) : Buffer := ⟨List.replicate BUFSIZE c, List.length_replicate⟩

/-- The array after data was read into it. -/
def Buffer.store (buffer : Buffer) (data : Bytes) : Buffer where
  bytes := data.take BUFSIZE ++ buffer.bytes.drop data.length
  size_eq := by
    have := buffer.size_eq
    simp only [List.length_append, List.length_take, List.length_drop]
    omega

/-- From `parse_http_header` on. -/
def serve (env : Env) (buffer : Buffer) (sched : Schedule) : Run :=
  match parseHttpHeader env.libc buffer.bytes with
  | .error f => ⟨[], .fault f⟩
  | .ok parsed => perform env parsed sched (dispatch env parsed)

/-- `handle_client`. The result of `read_from_socket` is not used. -/
def handleClient (env : Env) (buffer : Buffer) (sched : Schedule) : Run :=
  let run := readFromSocket BUFSIZE env.timeout sched
  match run.res with
  | none => ⟨[], .blocked⟩
  | some _ => serve env (buffer.store run.stored) run.rest

end Distsys.Tinyweb
