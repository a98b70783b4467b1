import Distsys.Tinyweb.Framing

/-! Requests for directories (`handle_client` in `src/tinyweb.c`): when they are answered with 301, and where
    a client gets that follows the location. -/

namespace Distsys.Tinyweb

/-- The answer is 301 and nothing else, and no file is opened for a body. -/
structure AnsweredMoved (run : Run) : Prop where
  moved : ∃ text sent, .header .movedPermanently text sent ∈ run.events
  only : ∀ status text sent, .header status text sent ∈ run.events → status = .movedPermanently
  closed : ∀ path, .openFile path ∉ run.events

/-- The header of a redirection to this path fits its array. -/
def LocationFits (env : Env) (filepath : Bytes) : Prop :=
  filepath.length + (strftime env.now.civil).length + 77 ≤ BUFSIZE

instance (env : Env) (filepath : Bytes) : Decidable (LocationFits env filepath) := inferInstanceAs (Decidable (_ ≤ _))

/-- The header of a redirection to the path. -/
def redirectHeader (filepath : Bytes) : HttpHeader where
  status := .movedPermanently
  contentLocation := some (snprintf BUFSIZE (locationLine filepath))

section Redirect
variable {env : Env} {buffer : Buffer} {q : ParsedHeader} {filepath file : Bytes} {st : Inode} {sched : Schedule}
  {status : HttpStatus} {text sent : Bytes}

theorem redirectHeader_fits : ((redirectHeader filepath).text env.now).length + 1 ≤ BUFSIZE ↔
    LocationFits env filepath := by
  have h : createResponseHeaderString (redirectHeader filepath) env.now = .error .overflow ↔
      BUFSIZE < filepath.length + (strftime env.now.civil).length + 77 := createResponseHeaderString_redirect
  rw [createResponseHeaderString_eq] at h
  unfold LocationFits
  have hle : filepath.length + (strftime env.now.civil).length + 77 ≤ BUFSIZE ↔
      ¬BUFSIZE < filepath.length + (strftime env.now.civil).length + 77 := Nat.not_lt.symm
  rw [hle, ← h]
  split
  · next hlen => exact iff_of_true hlen nofun
  · next hlen => exact iff_of_false hlen (not_not_intro rfl)

theorem redirect_eq_logThen : redirect env q filepath st sched =
    if env.libc.malloc .contentLocation = true then
      if LocationFits env filepath then
        logThen env (writeLog .movedPermanently q (some filepath) (some st) ((redirectHeader filepath).text env.now))
          (writeResponseHeader env .movedPermanently ((redirectHeader filepath).text env.now) sched)
      else ⟨[], .fault .overflow⟩
    else ⟨[], .fault .nullPointer⟩ := by
  rw [redirect_eq, reply_eq]
  simp only [← redirectHeader_fits]
  rfl

theorem header_redirect (h : .header status text sent ∈ (redirect env q filepath st sched).events) :
    status = .movedPermanently ∧ env.libc.malloc .contentLocation = true ∧ LocationFits env filepath ∧
      text = (redirectHeader filepath).text env.now := by
  rw [redirect_eq_logThen] at h
  split at h
  · next hmalloc =>
    split at h
    · next hfits =>
      rcases mem_logThen h with h | h
      · cases h
      · obtain ⟨_, h⟩ := mem_writeResponseHeader h
        cases h
        exact ⟨rfl, hmalloc, hfits, rfl⟩
    · cases h
  · cases h

theorem answeredMoved_redirect (hm : q.method.isSet = true) (hp : q.protocol.isSet = true)
    (hmalloc : env.libc.malloc .contentLocation = true) (hfits : LocationFits env filepath) :
    AnsweredMoved (redirect env q filepath st sched) := by
  have hread : (writeLog .movedPermanently q (some filepath) (some st)
      ((redirectHeader filepath).text env.now)).isReadable = true :=
    isReadable_writeLog hm hp rfl _ _ _
  refine ⟨?_, fun status text sent h => (header_redirect h).1, fun path h => ?_⟩
  · rw [redirect_eq_logThen, if_pos hmalloc, if_pos hfits, logThen, hread]
    exact ⟨_, _, List.mem_cons_of_mem _ (List.mem_singleton_self _)⟩
  · rcases mem_redirect h with ⟨_, h⟩ | ⟨_, _, h⟩ <;> cases h

/-- A range is answered before the kind of the file is looked at. -/
theorem dispatchFile_range (filepath : Bytes) (st : Inode) (hf : RangeFields q) (hrange : q.httpState ≠ .ok) :
    dispatchFile q filepath st = .reply .rangeNotSatisfiable (some filepath) (some st) ∨
      dispatchFile q filepath st = .file .partialContent filepath st := by
  unfold dispatchFile
  rcases hf.state with hs | hs | hs
  · exact absurd hs hrange
  · simp only [hs]
    split
    · exact Or.inl rfl
    · exact Or.inr rfl
  · simp only [hs, true_or]

theorem dispatch_directory (hq : parseHttpHeader env.libc buffer.bytes = .ok q) (ha : Accepted q.httpState)
    (hfile : q.filename = .text file) (hst : env.fs (env.rootDir ++ file) = some st) (hdir : st.kind = .directory)
    (hok : q.httpState = .ok) (hlen : env.rootDir.length + file.length + 1 ≤ BUFSIZE) :
    dispatch env q = .redirect (env.rootDir ++ file) st := by
  obtain ⟨l, rest, f, hacc⟩ := acceptedAs hq ha
  rcases dispatch_cases env ha hfile with ⟨hlt, -⟩ | ⟨-, ⟨hnone, -⟩ | ⟨st', hst', hd⟩⟩
  · omega
  · cases hnone.symm.trans hst
  · obtain rfl := Option.some.inj (hst'.symm.trans hst)
    rw [hd]
    exact (dispatchFile_redirect hacc.fields).mpr ⟨hok, hdir⟩

/-- Without a range, the only header that a request for a directory ever gets is 301. -/
theorem header_directory (hq : parseHttpHeader env.libc buffer.bytes = .ok q) (hok : q.httpState = .ok)
    (hfile : q.filename = .text file) (hst : env.fs (env.rootDir ++ file) = some st) (hdir : st.kind = .directory)
    (h : .header status text sent ∈ (serve env buffer sched).events) :
    status = .movedPermanently ∧ text = (redirectHeader (env.rootDir ++ file)).text env.now := by
  have ha : Accepted q.httpState := hok ▸ accepted_ok
  rw [serve_eq hq] at h
  by_cases hlen : env.rootDir.length + file.length + 1 ≤ BUFSIZE
  · simp only [dispatch_directory hq ha hfile hst hdir hok hlen, perform] at h
    obtain ⟨hstatus, -, -, htext⟩ := header_redirect h
    exact ⟨hstatus, htext⟩
  · rcases dispatch_cases env ha hfile with ⟨-, hd⟩ | ⟨hle, -⟩
    · simp only [hd, perform] at h
      cases h
    · exact absurd hle hlen

end Redirect

/-- A request for a directory is answered with 301, whatever the socket does, exactly when it has no range and
    the location is allocated and fits. -/
theorem answeredMoved_iff {env : Env} {buffer : Buffer} {q : ParsedHeader} {file : Bytes} {st : Inode}
    (hq : parseHttpHeader env.libc buffer.bytes = .ok q) (ha : Accepted q.httpState) (hfile : q.filename = .text file)
    (hst : env.fs (env.rootDir ++ file) = some st) (hdir : st.kind = .directory) :
    (∀ sched, AnsweredMoved (serve env buffer sched)) ↔
      q.httpState = .ok ∧ env.libc.malloc .contentLocation = true ∧ LocationFits env (env.rootDir ++ file) := by
  obtain ⟨l, rest, f, hacc⟩ := acceptedAs hq ha
  constructor
  · intro h
    obtain ⟨text, sent, hmoved⟩ := (h []).moved
    rw [serve_eq hq] at hmoved
    rcases dispatch_cases env ha hfile with ⟨-, hd⟩ | ⟨-, ⟨hnone, -⟩ | ⟨st', hst', hd⟩⟩
    · simp only [hd, perform] at hmoved
      cases hmoved
    · cases hnone.symm.trans hst
    · obtain rfl := Option.some.inj (hst'.symm.trans hst)
      rw [hd] at hmoved
      by_cases hok : q.httpState = .ok
      · simp only [(dispatchFile_redirect hacc.fields).mpr ⟨hok, hdir⟩, perform] at hmoved
        obtain ⟨-, hmalloc, hfits, -⟩ := header_redirect hmoved
        exact ⟨hok, hmalloc, hfits⟩
      · rcases dispatchFile_range (env.rootDir ++ file) st' hacc.fields hok with hrange | hrange
        · cases hrange ▸ header_perform hmoved
        · cases hrange ▸ header_perform hmoved
  · rintro ⟨hok, hmalloc, hfits⟩ sched
    have hlen : env.rootDir.length + file.length + 1 ≤ BUFSIZE := by
      unfold LocationFits at hfits
      rw [List.length_append] at hfits
      omega
    rw [serve_eq hq]
    simp only [dispatch_directory hq ha hfile hst hdir hok hlen, perform]
    exact answeredMoved_redirect hacc.method_isSet hacc.protocol_isSet hmalloc hfits

/-- A server below whose root directory there are only directories. -/
def directoryEnv (rootDir : Bytes) : Env := .undisturbed rootDir fun _ => some plainDirectory

def directoryRequest (path fields : Bytes) : Buffer :=
  Buffer.store (.filled NUL) (str "GET " ++ path ++ str " HTTP/1.1\r\n" ++ fields ++ CRLF)

/-- What the parser makes of it without fields. -/
def directoryParsed (path : Bytes) : ParsedHeader where
  method := .text (str "GET")
  filename := .text path
  protocol := .text (str "HTTP/1.1")
  httpState := .ok

theorem answeredMoved_iff_example :
    (∀ sched, AnsweredMoved (serve (directoryEnv (str "web")) (directoryRequest (str "/css") []) sched)) ↔
      (directoryParsed (str "/css")).httpState = .ok ∧
        (directoryEnv (str "web")).libc.malloc .contentLocation = true ∧
        LocationFits (directoryEnv (str "web")) (str "web" ++ str "/css") :=
  have hq : parseHttpHeader .working (directoryRequest (str "/css") []).bytes = .ok (directoryParsed (str "/css")) := by
    decide +kernel
  answeredMoved_iff hq (by decide) rfl rfl rfl

def Event.opens (path : Bytes) : Event → Bool
  | .openFile p => p == path
  | _ => false

/-- With a range line the directory is opened, to send it. -/
theorem rangedDirectory_opened : ¬AnsweredMoved (serve (directoryEnv (str "web"))
    (directoryRequest (str "/css") (str "Range: bytes=0-\r\n")) (delivery 0 BUFSIZE)) := by
  have hopen : (serve (directoryEnv (str "web")) (directoryRequest (str "/css") (str "Range: bytes=0-\r\n"))
      (delivery 0 BUFSIZE)).events.any (Event.opens (str "web/css")) = true := by decide +kernel
  intro h
  obtain ⟨e, he, hpath⟩ := List.any_eq_true.mp hopen
  cases e with
  | openFile path => exact h.closed path he
  | log | header | body | cgi => cases hpath

/-! ### Following the location -/

/-- The location that a header names. -/
def locationOf (text : Bytes) : Option Bytes := field (httpHeaderFieldList .location) (lines text)

/-- A request for the path, of which the parser takes the path and no range. -/
def Requests (lib : Libc) (buffer : Buffer) (path : Bytes) : Prop := ∃ q, parseHttpHeader lib buffer.bytes = .ok q ∧
  q.httpState = .ok ∧ q.filename = .text (requestedFile path)

/-- A client that asks for the file under the URL is sent to a location, by its own rules a path that leads to
    the same directory, and gets another answer than 301 there. -/
def Settles (env : Env) (resolve : Bytes → Bytes → Bytes) (url file : Bytes) (buffer : Buffer) : Prop :=
  ∃ sched text sent location, .header .movedPermanently text sent ∈ (serve env buffer sched).events ∧
    locationOf text = some location ∧ ∃ next, Requests env.libc next (resolve url location) ∧
      env.fs (env.rootDir ++ requestedFile (resolve url location)) = env.fs (env.rootDir ++ file) ∧
      ∃ sched status text sent, .header status text sent ∈ (serve env next sched).events ∧ status ≠ .movedPermanently

section Follow
variable {env : Env} {buffer : Buffer} {resolve : Bytes → Bytes → Bytes} {url file path : Bytes} {st : Inode}

/-- Whatever path leads to the directory, asking for it is answered with 301 again. -/
theorem moved_again (h : Requests env.libc buffer path) (hst : env.fs (env.rootDir ++ requestedFile path) = some st)
    (hdir : st.kind = .directory) {sched : Schedule} {status : HttpStatus} {text sent : Bytes}
    (hheader : .header status text sent ∈ (serve env buffer sched).events) : status = .movedPermanently := by
  obtain ⟨q, hq, hok, hfile⟩ := h
  exact (header_directory hq hok hfile hst hdir hheader).1

/-- No client ever settles, by whatever rules it resolves the location. -/
theorem not_settles (hst : env.fs (env.rootDir ++ file) = some st) (hdir : st.kind = .directory) :
    ¬Settles env resolve url file buffer := by
  rintro ⟨_, _, _, location, -, -, next, hnext, hsame, _, status, _, _, hheader, hne⟩
  exact hne (moved_again hnext (hsame.trans hst) hdir hheader)

end Follow

/-- A relative location, seen from a URL directly below the root. -/
def besideRoot (_ location : Bytes) : Bytes := str "/" ++ location

theorem not_settles_example :
    ¬Settles (directoryEnv (str "web")) besideRoot (str "/css") (str "/css") (directoryRequest (str "/css") []) :=
  not_settles rfl rfl

/-- A redirection to this location. -/
def Event.movesTo (location : Bytes) : Event → Bool
  | .header s text _ => s == .movedPermanently && locationOf text == some location
  | _ => false

/-- The location of `/css` names the root directory. If that is `.`, it leads to the same directory, and from
    there on to the same directory again. -/
theorem css_never_settles :
    (serve (directoryEnv (str "web")) (directoryRequest (str "/css") []) []).events.any
      (Event.movesTo (str "web/css/")) = true ∧
    (serve (directoryEnv (str ".")) (directoryRequest (str "/css") []) []).events.any
      (Event.movesTo (str "./css/")) = true ∧
    (serve (directoryEnv (str ".")) (directoryRequest (str "/css/") []) []).events.any
      (Event.movesTo (str "./css//")) = true ∧
    ∀ resolve, ¬Settles (directoryEnv (str ".")) resolve (str "/css") (str "/css")
      (directoryRequest (str "/css") []) := by
  refine ⟨by decide +kernel, by decide +kernel, by decide +kernel, fun resolve h => ?_⟩
  obtain ⟨_, _, _, location, -, -, next, hnext, -, _, status, _, _, hheader, hne⟩ := h
  exact hne (moved_again hnext rfl rfl hheader)

end Distsys.Tinyweb
