import Distsys.Tinyweb.CgiOutput
import Distsys.Tinyweb.Moved

/-! How many responses a request gets (`handle_client` in `src/tinyweb.c`), on a connection whose writes
    succeed, from the server and from the child of a CGI request, whose `stdout` is taken as unbuffered. -/

namespace Distsys.Tinyweb

/-- The event puts the header of a response on the connection. -/
def Event.isHeader : Event → Bool
  | .header _ _ _ | .cgi _ _ => true
  | .log _ | .openFile _ | .body _ _ => false

/-- The header is sent whole. -/
def Event.isWhole : Event → Bool
  | .header _ text sent => sent == text
  | .cgi _ _ | .log _ | .openFile _ | .body _ _ => true

def Run.headers (run : Run) : List Event := run.events.filter Event.isHeader

/-- One response, and that with its whole header. -/
def OneResponse (run : Run) : Prop := ∃ e, run.headers = [e] ∧ e.isWhole = true

/-- Every run that comes to its end has sent one response. -/
def AlwaysOne (serve : Schedule → Run) : Prop :=
  ∀ sched, (∀ c ∈ sched, c.Succeeds) → (serve sched).ending ≠ .blocked → OneResponse (serve sched)

/-- The strings of a log line are set, or what stands in their place can be read. -/
def canLog (env : Env) (q : ParsedHeader) (filepath : Option Bytes) : Bool :=
  q.method.isSet && filepath.isSome && q.protocol.isSet || env.unsetReadable

/-- What an answer needs for its header to get out. -/
def Responds (env : Env) (q : ParsedHeader) : Answer → Prop
  | .reply _ filepath _ => canLog env q filepath = true
  | .redirect filepath _ =>
    env.libc.malloc .contentLocation = true ∧ LocationFits env filepath ∧ canLog env q (some filepath) = true
  | .head filepath st => HeaderCreated env.libc st q.byteStart q.byteEnd ∧ canLog env q (some filepath) = true
  | .file _ _ st => HeaderCreated env.libc st q.byteStart q.byteEnd
  | .cgi _ => env.libc.malloc .execPath = true ∧ env.fork ≠ .failed
  | .fault _ => False

section Responses
variable {env : Env} {buffer : Buffer} {q : ParsedHeader} {filepath : Option Bytes} {path : Bytes}
  {fstat : Option Inode} {st : Inode} {status : HttpStatus} {text : Bytes} {run : Run} {next : Schedule → Run}

theorem logThen_writeLog : logThen env (writeLog status q filepath fstat text) run =
    if canLog env q filepath = true then run.after (.log (writeLog status q filepath fstat text))
    else ⟨[.log (writeLog status q filepath fstat text)], .fault .unassigned⟩ := rfl

theorem headers_after {e : Event} : (run.after e).headers = if e.isHeader then e :: run.headers else run.headers :=
  List.filter_cons

theorem not_alwaysOne (hnone : run.headers = []) (hend : run.ending ≠ .blocked) : ¬AlwaysOne fun _ => run := by
  intro h
  obtain ⟨e, he, -⟩ := h [] (by simp) hend
  cases hnone.symm.trans he

theorem not_alwaysOne_fault (f : Fault) : ¬AlwaysOne fun _ => ⟨[], .fault f⟩ :=
  not_alwaysOne rfl (by simp)

theorem alwaysOne_congr {other : Schedule → Run} (h : ∀ sched, next sched = other sched) :
    AlwaysOne next ↔ AlwaysOne other := by
  rw [funext h]

theorem alwaysOne_ite {c : Prop} [Decidable c] {f : Fault} :
    AlwaysOne (fun sched => if c then next sched else ⟨[], .fault f⟩) ↔ c ∧ AlwaysOne next := by
  by_cases hc : c
  · simp [hc]
  · simp only [hc, ↓reduceIte, false_and, iff_false]
    exact not_alwaysOne_fault f

theorem alwaysOne_header (env : Env) (status : HttpStatus) (text : Bytes) :
    AlwaysOne (writeResponseHeader env status text) := by
  intro sched hall hend
  refine ⟨_, rfl, ?_⟩
  unfold writeResponseHeader at hend
  dsimp only at hend
  split at hend
  · exact absurd rfl hend
  · next r hres => exact beq_iff_eq.mpr (writeToSocket_succeeds hall hres)

/-- The header of a logged answer gets out exactly if the line can be logged. -/
theorem alwaysOne_logThen : AlwaysOne (fun sched => logThen env (writeLog status q filepath fstat text)
    (writeResponseHeader env status text sched)) ↔ canLog env q filepath = true := by
  simp only [logThen_writeLog]
  cases hlog : canLog env q filepath with
  | true => exact iff_of_true (alwaysOne_header env status text) rfl
  | false => exact iff_of_false (not_alwaysOne_fault _) nofun

theorem alwaysOne_reply : AlwaysOne (reply env q { status } filepath fstat) ↔ canLog env q filepath = true := by
  rw [alwaysOne_congr fun _ => reply_status_eq status, alwaysOne_logThen]

theorem alwaysOne_redirect : AlwaysOne (redirect env q path st) ↔
    env.libc.malloc .contentLocation = true ∧ LocationFits env path ∧ canLog env q (some path) = true := by
  rw [alwaysOne_congr fun _ => redirect_eq_logThen, alwaysOne_ite, alwaysOne_ite, alwaysOne_logThen]

theorem alwaysOne_replyHead : AlwaysOne (replyHead env q path st) ↔
    HeaderCreated env.libc st q.byteStart q.byteEnd ∧ canLog env q (some path) = true := by
  rw [alwaysOne_congr fun _ => replyHead_eq, alwaysOne_ite, alwaysOne_logThen]

/-- Behind the header of a file comes no other, whatever becomes of the log line and the body. -/
theorem headers_afterHeader {written : WriteRun} : (afterHeader env q status path st written).headers = [] := by
  have hbody : ∀ sched, (sendBody env q path sched).headers = [] := by
    intro sched
    refine List.filter_eq_nil_iff.mpr fun e he => ?_
    rcases mem_sendBody he with rfl | ⟨_, _, rfl⟩ <;> exact nofun
  unfold afterHeader
  split
  · rfl
  · unfold logThen
    split
    · exact headers_after.trans (hbody _)
    · rfl

theorem alwaysOne_sendFile : AlwaysOne (sendFile env q status path st) ↔
    HeaderCreated env.libc st q.byteStart q.byteEnd := by
  rw [alwaysOne_congr fun _ => sendFile_eq, alwaysOne_ite, and_iff_left_iff_imp]
  intro _ sched hall hend
  refine ⟨.header status (fileText env q status path st)
    (writeToSocket env.timeout (fileText env q status path st) sched).sent, ?_, ?_⟩
  · rw [headers_after, headers_afterHeader]
    rfl
  · cases hres : (writeToSocket env.timeout (fileText env q status path st) sched).res with
    | none =>
      have hblocked : (afterHeader env q status path st
          (writeToSocket env.timeout (fileText env q status path st) sched)).ending = .blocked := by
        unfold afterHeader
        rw [hres]
      exact absurd hblocked hend
    | some r => exact beq_iff_eq.mpr (writeToSocket_succeeds hall hres)

theorem alwaysOne_runCgi : AlwaysOne (fun _ => runCgi env path) ↔ env.libc.malloc .execPath = true ∧
    env.fork ≠ .failed := by
  rw [runCgi_eq]
  by_cases hmalloc : env.libc.malloc .execPath = false
  · rw [if_pos hmalloc, hmalloc]
    simp only [Bool.false_eq_true, false_and, iff_false]
    exact not_alwaysOne_fault _
  · rw [if_neg hmalloc]
    cases env.fork with
    | failed => exact iff_of_false (not_alwaysOne rfl nofun) fun h => h.2 rfl
    | child exited =>
      refine iff_of_true (fun sched _ _ => ⟨_, rfl, rfl⟩) ⟨by simpa using hmalloc, nofun⟩

theorem alwaysOne_perform (answer : Answer) : AlwaysOne (fun sched => perform env q sched answer) ↔
    Responds env q answer := by
  cases answer with
  | reply status filepath fstat =>
    simp only [perform, Responds]
    exact alwaysOne_reply
  | redirect filepath st =>
    simp only [perform, Responds]
    exact alwaysOne_redirect
  | head filepath st =>
    simp only [perform, Responds]
    exact alwaysOne_replyHead
  | file status filepath st =>
    simp only [perform, Responds]
    exact alwaysOne_sendFile
  | cgi filepath =>
    simp only [perform, Responds]
    exact alwaysOne_runCgi
  | fault f =>
    simp only [perform, Responds, iff_false]
    exact not_alwaysOne_fault f

end Responses

/-- A request gets exactly one response, in every run that comes to its end, exactly if the parser returns and
    the branch that it leads to has what it needs. -/
theorem oneResponse_iff {env : Env} {buffer : Buffer} : AlwaysOne (serve env buffer) ↔
    ∃ q, parseHttpHeader env.libc buffer.bytes = .ok q ∧ Responds env q (dispatch env q) := by
  cases hq : parseHttpHeader env.libc buffer.bytes with
  | error f =>
    have hserve : ∀ sched, serve env buffer sched = ⟨[], .fault f⟩ := fun sched => by simp only [serve, hq]
    rw [alwaysOne_congr hserve]
    refine iff_of_false (not_alwaysOne_fault f) ?_
    rintro ⟨_, h, -⟩
    cases h
  | ok q =>
    rw [serve_eq hq, alwaysOne_perform]
    refine ⟨fun h => ⟨q, rfl, h⟩, ?_⟩
    rintro ⟨p, hp, h⟩
    cases hp
    exact h

/-- No process can be made for the script. -/
def noProcess : Env := { cgiEnv with fork := .failed }

/-- The client of a script for which no process can be made gets nothing at all. -/
theorem failedFork_silent : (serve noProcess (cgiRequest (str "/cgi-bin/x")) []).events.isEmpty = true ∧
    (serve noProcess (cgiRequest (str "/cgi-bin/x")) []).ending = .returned 1 ∧
    ¬∀ env buffer, AlwaysOne (serve env buffer) := by
  have hsilent : (serve noProcess (cgiRequest (str "/cgi-bin/x")) []).events.isEmpty = true := by decide +kernel
  have hend : (serve noProcess (cgiRequest (str "/cgi-bin/x")) []).ending = .returned 1 := by decide +kernel
  refine ⟨hsilent, hend, fun h => ?_⟩
  obtain ⟨e, he, -⟩ := h noProcess (cgiRequest (str "/cgi-bin/x")) [] (by simp) (by rw [hend]; exact nofun)
  unfold Run.headers at he
  rw [List.isEmpty_iff.mp hsilent] at he
  cases he

end Distsys.Tinyweb
