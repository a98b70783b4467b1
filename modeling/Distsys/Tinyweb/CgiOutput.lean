import Distsys.Lib.Stdio
import Distsys.Tinyweb.Scripts

/-! What the client of a script receives (`handle_client` in `src/tinyweb.c`). The child prints the header
    through `stdout`, whose buffer and mode it has from the server, and becomes a shell. -/

namespace Distsys.Tinyweb

/-! ### The child -/

/-- The header that the child prints. -/
def cgiHeader (now : ClockTime) : Bytes := (fixedLines .ok now).flatMap (· ++ CRLF)

section Child
variable {env : Env} {buffer : Buffer} {q : ParsedHeader} {filepath header command : Bytes} {sched : Schedule}

theorem cgiHeader_eq (now : ClockTime) : cgiHeader now =
    (HttpHeader.text { status := .ok } now).take ((HttpHeader.text { status := .ok } now).length - 2) := by
  have hcrlf : CRLF.length = 2 := rfl
  have htext : HttpHeader.text { status := .ok } now = cgiHeader now ++ CRLF := text_eq_fixedLines
  rw [htext, List.length_append, hcrlf, Nat.add_sub_cancel, List.take_left]

theorem not_cgi_perform {answer : Answer} (hcgi : ∀ filepath, answer ≠ .cgi filepath) :
    .cgi header command ∉ (perform env q sched answer).events := by
  intro h
  cases answer with
  | cgi filepath => exact hcgi filepath rfl
  | reply s fp fstat => rcases mem_reply h with ⟨_, h⟩ | ⟨_, h⟩ <;> cases h
  | redirect filepath st => rcases mem_redirect h with ⟨_, h⟩ | ⟨_, _, h⟩ <;> cases h
  | head filepath st => rcases mem_replyHead h with ⟨_, h⟩ | ⟨_, h⟩ <;> cases h
  | file s filepath st => obtain ⟨-, ⟨_, h⟩ | ⟨_, h⟩ | h | ⟨_, _, h⟩⟩ := mem_sendFile h <;> cases h
  | fault f => cases h

theorem runCgi_eq : runCgi env filepath =
    if env.libc.malloc .execPath = false then ⟨[], .fault .nullPointer⟩
    else match env.fork with
      | .failed => ⟨[], .returned 1⟩
      | .child exited =>
        ⟨[.cgi (cgiHeader env.now) (str "./" ++ filepath)], if exited then .exited else .returned (-1)⟩ := by
  unfold runCgi
  cases env.fork with
  | failed => rfl
  | child exited => simp only [createResponseHeaderString_status, cgiHeader_eq]

theorem cgi_runCgi (h : .cgi header command ∈ (runCgi env filepath).events) :
    header = cgiHeader env.now ∧ command = str "./" ++ filepath := by
  rw [runCgi_eq] at h
  split at h
  · cases h
  · split at h
    · cases h
    · simpa using h

theorem cgi_serve (h : .cgi header command ∈ (serve env buffer sched).events) : ∃ q filepath,
    parseHttpHeader env.libc buffer.bytes = .ok q ∧ dispatch env q = .cgi filepath ∧
      header = cgiHeader env.now ∧ command = str "./" ++ filepath := by
  unfold serve at h
  split at h
  · cases h
  · next q hq =>
    by_cases hcgi : ∃ filepath, dispatch env q = .cgi filepath
    · obtain ⟨filepath, hd⟩ := hcgi
      simp only [hd, perform] at h
      obtain ⟨hheader, hcommand⟩ := cgi_runCgi h
      exact ⟨q, filepath, hq, hd, hheader, hcommand⟩
    · exact absurd h (not_cgi_perform fun filepath hd => hcgi ⟨filepath, hd⟩)

end Child

/-! ### The connection -/

/-- What comes through the connection: `stdout` is the connection now, and what it still keeps when the child
    becomes a shell is lost. -/
def cgiReceived (stdout : Stream) (header output : Bytes) : Bytes := (stdout.fprintf header).1 ++ output

section Received
variable {now : ClockTime} {stdout : Stream} {header output : Bytes}

theorem cgiHeader_append (now : ClockTime) : cgiHeader now = statusText .ok ++ serverLine ++ dateLine now := by
  simp [cgiHeader, fixedLines, statusText, serverLine, dateLine]

theorem cgiHeader_line (now : ClockTime) : ∃ text, cgiHeader now = text ++ [LF] := by
  have hcrlf : CRLF = [CR] ++ [LF] := rfl
  refine ⟨statusText .ok ++ serverLine ++ (httpHeaderFieldList .date ++ strftime now.civil ++ [CR]), ?_⟩
  rw [cgiHeader_append, dateLine, hcrlf]
  simp only [List.append_assoc]

theorem length_cgiHeader_lt (now : ClockTime) : (cgiHeader now).length < BUFSIZ_MIN := by
  have hstatus := length_statusText_lt .ok
  have hserver : serverLine.length = 21 := by decide
  have hdate := length_strftime_le now.toTime
  simp only [cgiHeader_append, List.length_append, hserver, length_dateLine, BUFSIZ_MIN]
  omega

/-- The client receives the header and the output exactly when `stdout` passes lines on and kept nothing before. -/
theorem cgiReceived_eq_iff : cgiReceived stdout (cgiHeader now) output = cgiHeader now ++ output ↔
    stdout.mode = .line ∧ stdout.pending = [] := by
  obtain ⟨text, htext⟩ := cgiHeader_line now
  have hlength := length_cgiHeader_lt now
  rw [cgiReceived, List.append_left_inj]
  cases hmode : stdout.mode with
  | line =>
    rw [htext, Stream.fprintf_line hmode, List.append_left_eq_self]
    simp
  | full =>
    simp only [reduceCtorEq, false_and, iff_false]
    intro heq
    rcases Stream.fprintf_full (cgiHeader now) hmode with hnil | hfull
    · rw [hnil, htext] at heq
      simp at heq
    · have hcap := stdout.capacity_ge
      rw [heq] at hfull
      omega

end Received

/-- For any script that is run, whatever it prints: the client receives the header and then the output exactly
    when `stdout` is line buffered and nothing was pending in it at the fork. -/
theorem cgiReceived_iff {env : Env} {buffer : Buffer} {sched : Schedule} {header command : Bytes}
    (h : .cgi header command ∈ (serve env buffer sched).events) (stdout : Stream) (output : Bytes) :
    cgiReceived stdout header output = header ++ output ↔ stdout.mode = .line ∧ stdout.pending = [] := by
  obtain ⟨q, filepath, -, -, rfl, -⟩ := cgi_serve h
  exact cgiReceived_eq_iff

/-- A server below whose root directory every file is an executable script. -/
def cgiEnv : Env := { Env.undisturbed (str "web") fun _ => some script with fork := .child true }

def cgiRequest (path : Bytes) : Buffer := Buffer.store (.filled NUL) (str "GET " ++ path ++ str " HTTP/1.1\r\n\r\n")

/-- What the parser makes of it below `/cgi-bin`. -/
def cgiParsed (path : Bytes) : ParsedHeader where
  method := .text (str "GET")
  filename := .text path
  protocol := .text (str "HTTP/1.1")
  httpState := .ok
  isCGI := true

theorem cgiRequest_runs {env : Env} {path filepath : Bytes} {exited : Bool} (hmalloc : env.libc.malloc .execPath = true)
    (hfork : env.fork = .child exited) (hq : parseHttpHeader env.libc (cgiRequest path).bytes = .ok (cgiParsed path))
    (hd : dispatch env (cgiParsed path) = .cgi filepath) :
    .cgi (cgiHeader env.now) (str "./" ++ filepath) ∈ (serve env (cgiRequest path) []).events := by
  rw [serve_eq hq]
  simp only [hd, perform, runCgi_eq, hmalloc, hfork, Bool.true_eq_false, ↓reduceIte, List.mem_singleton]

theorem cgiEnv_runs : .cgi (cgiHeader .epoch) (str "./web/cgi-bin/x") ∈
    (serve cgiEnv (cgiRequest (str "/cgi-bin/x")) []).events :=
  have hd : dispatch cgiEnv (cgiParsed (str "/cgi-bin/x")) = .cgi (str "web/cgi-bin/x") := rfl
  cgiRequest_runs rfl rfl (by decide +kernel) hd

/-- A `stdout` that is a terminal, and one that is a pipe and has the note of `open_logfile` in its buffer. -/
def terminal : Stream := ⟨.line, 1024, [], Nat.le_of_ble_eq_true rfl, Nat.le_of_ble_eq_true rfl⟩

/-- A `stdout` that is a pipe, so that nothing goes on before the buffer is full. -/
def pipe : Stream :=
  ⟨.full, 4096, str "Note: logging is redirected to stdout.\n", Nat.le_of_ble_eq_true rfl, Nat.le_of_ble_eq_true rfl⟩

theorem cgiReceived_iff_example : cgiReceived terminal (cgiHeader .epoch)
    (str "ok\n") = cgiHeader .epoch ++ str "ok\n" ↔
    terminal.mode = .line ∧ terminal.pending = [] :=
  cgiReceived_iff cgiEnv_runs terminal (str "ok\n")

/-- Through the pipe the client receives the output without a header. -/
theorem pipe_loses_header : .cgi (cgiHeader .epoch) (str "./web/cgi-bin/x") ∈
    (serve cgiEnv (cgiRequest (str "/cgi-bin/x")) []).events ∧
    cgiReceived pipe (cgiHeader .epoch) (str "ok\n") = str "ok\n" ∧
    cgiReceived pipe (cgiHeader .epoch) (str "ok\n") ≠ cgiHeader .epoch ++ str "ok\n" := by
  refine ⟨cgiEnv_runs, by decide +kernel, by decide +kernel⟩

end Distsys.Tinyweb
