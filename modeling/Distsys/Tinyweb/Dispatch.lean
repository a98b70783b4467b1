import Distsys.Tinyweb.AcceptedRequest
import Distsys.Tinyweb.HeaderText

/-! The decision of `handle_client`, and what the actions behind it log and where they fault: which
    values are set when a line is logged, and which strings fit their arrays. -/

namespace Distsys.Tinyweb

section Decision
variable {env : Env} {buffer : Buffer} {q : ParsedHeader} {filepath file : Bytes} {st : Inode} {status : HttpStatus}
  {fp : Option Bytes} {fstat : Option Inode}

theorem serve_eq (hq : parseHttpHeader env.libc buffer.bytes = .ok q) :
    serve env buffer = fun sched => perform env q sched (dispatch env q) := by
  funext sched
  simp only [serve, hq]

theorem dispatch_of_not_accepted (h : ¬Accepted q.httpState) : dispatch env q = .reply q.httpState none none := by
  unfold dispatch
  cases hs : q.httpState <;> first | rfl | exact absurd (by rw [hs]; decide) h

theorem accepted_of_dispatch {answer : Answer} (h : dispatch env q = answer)
    (hne : ∀ state filepath st, answer ≠ .reply state filepath st) : Accepted q.httpState := by
  by_contra hna
  exact hne _ _ _ (h.symm.trans (dispatch_of_not_accepted hna))

theorem dispatch_of_accepted (h : Accepted q.httpState) : dispatch env q =
    match requestPath env.rootDir q.filename with
    | .error f => .fault f
    | .ok filepath => match env.fs filepath with
      | none => .reply .notFound (some filepath) none
      | some fstat => dispatchFile q filepath fstat := by
  unfold dispatch
  cases hs : q.httpState <;> first | rfl | exact absurd (hs ▸ h) (by decide)

theorem requestPath_text {rootDir : Bytes} : requestPath rootDir (.text file) =
    if rootDir.length + file.length + 1 ≤ BUFSIZE then .ok (rootDir ++ file) else .error .overflow := by
  have h := foldlM_strcat BUFSIZE [rootDir, file] [] (by simp)
  simp only [List.length_nil, Nat.zero_add, List.flatten_cons, List.flatten_nil, List.append_nil, List.length_append,
    List.nil_append] at h
  rw [← h]
  unfold requestPath
  simp only [List.foldlM_cons, List.foldlM_nil, bind_pure]

theorem dispatch_cases (env : Env) (ha : Accepted q.httpState) (hfile : q.filename = .text file) :
    BUFSIZE < env.rootDir.length + file.length + 1 ∧ dispatch env q = .fault .overflow ∨
    env.rootDir.length + file.length + 1 ≤ BUFSIZE ∧
      (env.fs (env.rootDir ++ file) = none ∧ dispatch env q = .reply .notFound (some (env.rootDir ++ file)) none ∨
        ∃ st, env.fs (env.rootDir ++ file) = some st ∧ dispatch env q = dispatchFile q (env.rootDir ++ file) st) := by
  rw [dispatch_of_accepted ha, hfile, requestPath_text]
  by_cases hlen : env.rootDir.length + file.length + 1 ≤ BUFSIZE
  · rw [if_pos hlen]
    refine Or.inr ⟨hlen, ?_⟩
    cases hst : env.fs (env.rootDir ++ file) with
    | none => exact Or.inl ⟨rfl, by simp only [hst]⟩
    | some st => exact Or.inr ⟨st, rfl, by simp only [hst]⟩
  · rw [if_neg hlen]
    exact Or.inl ⟨Nat.not_le.mp hlen, rfl⟩

theorem dispatchFile_file {st' : Inode} {filepath' : Bytes} (hf : RangeFields q) :
    dispatchFile q filepath st = .file status filepath' st' ↔ filepath' = filepath ∧ st' = st ∧
      (q.httpState = .partialContent ∧ status = .partialContent ∧ q.byteStart < st.size ∨
        q.httpState = .ok ∧ status = .ok ∧ st.kind = .regular ∧ notModified q.modsince st.mtime = false ∧
          q.isCGI = false ∧ q.method = .text (str "GET")) := by
  unfold dispatchFile
  rcases hf.state with hs | hs | hs
  · simp only [hs]
    cases hk : st.kind with
    | other => simp
    | directory => simp
    | regular =>
      cases hm : notModified q.modsince st.mtime with
      | true => simp
      | false =>
        cases hc : q.isCGI with
        | true => by_cases hx : st.mode &&& S_IEXEC ≠ 0 <;> simp [hx]
        | false =>
          by_cases hget : q.method = .text (str "GET")
          · simp only [hget, reduceCtorEq, Bool.false_eq_true, ↓reduceIte, Answer.file.injEq, false_and, true_and,
              and_true, false_or]
            exact ⟨fun ⟨h₁, h₂, h₃⟩ => ⟨h₂.symm, h₃.symm, h₁.symm⟩, fun ⟨h₁, h₂, h₃⟩ => ⟨h₃.symm, h₁.symm, h₂.symm⟩⟩
          · simp [hget]
  · simp only [hs]
    by_cases hlt : q.byteStart < st.size
    · simp only [ge_iff_le, Int.not_le.mpr hlt, ↓reduceIte, Answer.file.injEq, hlt, true_and, and_true, reduceCtorEq,
        false_and, or_false]
      exact ⟨fun ⟨h₁, h₂, h₃⟩ => ⟨h₂.symm, h₃.symm, h₁.symm⟩, fun ⟨h₁, h₂, h₃⟩ => ⟨h₃.symm, h₁.symm, h₂.symm⟩⟩
    · simp [hlt, Int.not_lt.mp hlt]
  · simp [hs]

/-- Behind a successful `stat` every answer has the path and the file status. One without a file has another
    status than 200 and 206, and a GET request is not answered by a header alone. -/
theorem dispatchFile_cases (q : ParsedHeader) (filepath : Bytes) (st : Inode) :
    (∃ status, dispatchFile q filepath st = .reply status (some filepath) (some st) ∧
      status ≠ .ok ∧ status ≠ .partialContent) ∨
    (∃ status, dispatchFile q filepath st = .file status filepath st) ∨
      dispatchFile q filepath st = .redirect filepath st ∨
    (dispatchFile q filepath st = .head filepath st ∧ q.method ≠ .text (str "GET")) ∨
    dispatchFile q filepath st = .cgi filepath := by
  unfold dispatchFile
  split
  · exact Or.inl ⟨_, rfl, by simp⟩
  · split
    · exact Or.inl ⟨_, rfl, by simp⟩
    · exact Or.inr (Or.inl ⟨_, rfl⟩)
  · split
    · exact Or.inl ⟨_, rfl, by simp⟩
    · split
      · exact Or.inr (Or.inr (Or.inl rfl))
      · split
        · exact Or.inl ⟨_, rfl, by simp⟩
        · split
          · split
            · exact Or.inr (Or.inr (Or.inr (Or.inr rfl)))
            · exact Or.inl ⟨_, rfl, by simp⟩
          · split
            · exact Or.inr (Or.inl ⟨_, rfl⟩)
            · next hget => exact Or.inr (Or.inr (Or.inr (Or.inl ⟨rfl, hget⟩)))

theorem dispatchFile_redirect (hf : RangeFields q) : dispatchFile q filepath st = .redirect filepath st ↔
    q.httpState = .ok ∧ st.kind = .directory := by
  unfold dispatchFile
  rcases hf.state with hs | hs | hs
  · simp only [hs, true_and]
    cases hk : st.kind with
    | other => simp
    | directory => simp
    | regular =>
      simp only [reduceCtorEq, ↓reduceIte, iff_false]
      split
      · simp
      · split
        · split <;> simp
        · split <;> simp
  · simp only [hs, reduceCtorEq, false_and, iff_false]
    split <;> simp
  · simp [hs]

theorem dispatchFile_cgi {filepath' : Bytes} (hf : RangeFields q) : dispatchFile q filepath st = .cgi filepath' ↔
    filepath' = filepath ∧ q.httpState = .ok ∧ st.kind = .regular ∧ notModified q.modsince st.mtime = false ∧
      q.isCGI = true ∧ st.mode &&& S_IEXEC ≠ 0 := by
  unfold dispatchFile
  rcases hf.state with hs | hs | hs
  · simp only [hs, true_and]
    cases hk : st.kind with
    | other => simp
    | directory => simp
    | regular =>
      cases hm : notModified q.modsince st.mtime with
      | true => simp
      | false =>
        cases hc : q.isCGI with
        | true => by_cases hx : st.mode &&& S_IEXEC = 0 <;> simp [hx, eq_comm]
        | false => by_cases hget : q.method = .text (str "GET") <;> simp [hget]
  · simp only [hs, reduceCtorEq, false_and, and_false, iff_false]
    split <;> simp
  · simp [hs]

end Decision

/-! ### The actions in closed form -/

section Actions
variable {env : Env} {q : ParsedHeader} {data : HttpHeader} {filepath : Option Bytes} {path : Bytes}
  {fstat : Option Inode} {st : Inode} {sched : Schedule} {status : HttpStatus} {e : Event} {line : LogLine}
  {next : Run}

theorem reply_eq : reply env q data filepath fstat sched =
    if (data.text env.now).length + 1 ≤ BUFSIZE then
      logThen env (writeLog data.status q filepath fstat (data.text env.now))
        (writeResponseHeader env data.status (data.text env.now) sched)
    else ⟨[], .fault .overflow⟩ := by
  unfold reply
  rw [createResponseHeaderString_eq]
  by_cases h : (data.text env.now).length + 1 ≤ BUFSIZE
  · simp [h]
  · simp [h]

theorem reply_status_eq (status : HttpStatus) : reply env q { status } filepath fstat sched =
    logThen env (writeLog status q filepath fstat (HttpHeader.text { status } env.now))
      (writeResponseHeader env status (HttpHeader.text { status } env.now) sched) := by
  unfold reply
  rw [createResponseHeaderString_status]

/-- The header text of an answer that sends a file. -/
def fileText (env : Env) (q : ParsedHeader) (status : HttpStatus) (filepath : Bytes) (st : Inode) : Bytes :=
  (fileHeader status filepath st q.byteStart q.byteEnd).text env.now

theorem length_fileText_le : (fileText env q status path st).length ≤ BUFSIZE := by
  unfold fileText
  exact Nat.le_of_succ_le length_fileHeader

/-- What follows the header of a file, once `write_to_socket` has returned. -/
def afterHeader (env : Env) (q : ParsedHeader) (status : HttpStatus) (filepath : Bytes) (st : Inode)
    (run : WriteRun) : Run :=
  match run.res with
  | none => ⟨[], .blocked⟩
  | some _ => logThen env (writeLog status q (some filepath) (some st) (fileText env q status filepath st))
      (sendBody env q filepath run.rest)

theorem sendFile_eq : sendFile env q status path st sched =
    if HeaderCreated env.libc st q.byteStart q.byteEnd then
      (afterHeader env q status path st (writeToSocket env.timeout (fileText env q status path st) sched)).after
        (.header status (fileText env q status path st)
          (writeToSocket env.timeout (fileText env q status path st) sched).sent)
    else ⟨[], .fault .nullPointer⟩ := by
  unfold sendFile
  rw [createResponseHeader_eq]
  by_cases h : HeaderCreated env.libc st q.byteStart q.byteEnd
  · simp only [if_pos h, createResponseHeaderString_fileHeader]
    rfl
  · simp only [if_neg h]

theorem replyHead_eq : replyHead env q path st sched =
    if HeaderCreated env.libc st q.byteStart q.byteEnd then
      logThen env (writeLog .ok q (some path) (some st) (fileText env q .ok path st))
        (writeResponseHeader env .ok (fileText env q .ok path st) sched)
    else ⟨[], .fault .nullPointer⟩ := by
  unfold replyHead
  rw [createResponseHeader_eq]
  by_cases h : HeaderCreated env.libc st q.byteStart q.byteEnd
  · simp only [if_pos h, reply, createResponseHeaderString_fileHeader]
    rfl
  · simp only [if_neg h]

/-- A line about an accepted request with its path has every string that it needs. -/
theorem isReadable_writeLog {fp : Option Bytes} (hm : q.method.isSet = true) (hp : q.protocol.isSet = true)
    (hfp : fp.isSome = true) (status : HttpStatus) (fstat : Option Inode) (text : Bytes) :
    (writeLog status q fp fstat text).isReadable = true := by
  simp [LogLine.isReadable, writeLog, hm, hp, hfp]

theorem redirect_eq : redirect env q path st sched =
    if env.libc.malloc .contentLocation = true then
      reply env q { status := .movedPermanently, contentLocation := some (snprintf BUFSIZE (locationLine path)) }
        (some path) (some st) sched
    else ⟨[], .fault .nullPointer⟩ := by
  unfold redirect allocate
  by_cases h : env.libc.malloc .contentLocation = true
  · simp only [if_pos h]
    rfl
  · simp only [if_neg h]

/-! What the runs of an action can contain. -/

theorem mem_logThen (h : e ∈ (logThen env line next).events) : e = .log line ∨ e ∈ next.events := by
  unfold logThen at h
  split at h
  · exact List.mem_cons.mp h
  · exact Or.inl (List.mem_singleton.mp h)

theorem mem_writeResponseHeader {text : Bytes} (h : e ∈ (writeResponseHeader env status text sched).events) :
    ∃ sent, e = .header status text sent := ⟨_, List.mem_singleton.mp h⟩

theorem mem_reply (h : e ∈ (reply env q data filepath fstat sched).events) :
    (∃ line, e = .log line) ∨ ∃ sent, e = .header data.status (data.text env.now) sent := by
  rw [reply_eq] at h
  split at h
  · rcases mem_logThen h with rfl | h
    · exact Or.inl ⟨_, rfl⟩
    · exact Or.inr (mem_writeResponseHeader h)
  · cases h

theorem mem_redirect (h : e ∈ (redirect env q path st sched).events) :
    (∃ line, e = .log line) ∨ ∃ text sent, e = .header .movedPermanently text sent := by
  rw [redirect_eq] at h
  split at h
  · rcases mem_reply h with hlog | ⟨sent, hheader⟩
    · exact Or.inl hlog
    · exact Or.inr ⟨_, sent, hheader⟩
  · cases h

theorem mem_replyHead (h : e ∈ (replyHead env q path st sched).events) :
    (∃ line, e = .log line) ∨ ∃ sent, e = .header .ok (fileText env q .ok path st) sent := by
  rw [replyHead_eq] at h
  split at h
  · rcases mem_logThen h with rfl | h
    · exact Or.inl ⟨_, rfl⟩
    · exact Or.inr (mem_writeResponseHeader h)
  · cases h

theorem mem_sendBody (h : e ∈ (sendBody env q path sched).events) :
    e = .openFile path ∨ ∃ count accepted, e = .body count accepted := by
  rcases List.mem_cons.mp h with rfl | h
  · exact Or.inl rfl
  · obtain ⟨w, -, rfl⟩ := List.mem_map.mp h
    exact Or.inr ⟨w.1, w.2, rfl⟩

theorem mem_sendFile (h : e ∈ (sendFile env q status path st sched).events) :
    HeaderCreated env.libc st q.byteStart q.byteEnd ∧
      ((∃ sent, e = .header status (fileText env q status path st) sent) ∨
      (∃ line, e = .log line) ∨ e = .openFile path ∨ ∃ count accepted, e = .body count accepted) := by
  rw [sendFile_eq] at h
  split at h
  · next halloc =>
    refine ⟨halloc, ?_⟩
    rcases List.mem_cons.mp h with rfl | h
    · exact Or.inl ⟨_, rfl⟩
    · unfold afterHeader at h
      split at h
      · cases h
      · rcases mem_logThen h with rfl | h
        · exact Or.inr (Or.inl ⟨_, rfl⟩)
        · exact Or.inr (Or.inr (mem_sendBody h))
  · cases h

theorem mem_runCgi (h : e ∈ (runCgi env path).events) : ∃ header command, e = .cgi header command := by
  unfold runCgi at h
  split at h
  · cases h
  · split at h
    · cases h
    · split at h
      · cases h
      · exact ⟨_, _, List.mem_singleton.mp h⟩

end Actions

/-! ### Logged values -/

section Assigned
variable {env : Env} {q : ParsedHeader} {data : HttpHeader} {filepath text : Bytes} {st : Inode} {sched : Schedule}
  {line : LogLine} {status : HttpStatus}

end Assigned

/-- The path fits its array, and so does the header that repeats it in a redirection. -/
def Fits (env : Env) (q : ParsedHeader) : Prop := ∀ file, q.filename = .text file →
  env.rootDir.length + file.length + 1 ≤ BUFSIZE ∧
  ∀ st, env.fs (env.rootDir ++ file) = some st → st.kind = .directory → q.httpState = .ok →
    env.libc.malloc .contentLocation = true →
    env.rootDir.length + file.length + (strftime env.now.civil).length + 77 ≤ BUFSIZE

section Overflow
variable {env : Env} {q : ParsedHeader} {fp : Option Bytes} {path : Bytes} {fstat : Option Inode} {st : Inode}
  {sched : Schedule} {status : HttpStatus} {line : LogLine} {next : Run}

theorem logThen_overflow : (logThen env line next).ending = .fault .overflow → next.ending = .fault .overflow := by
  unfold logThen
  split
  · exact id
  · intro h
    cases h

theorem writeResponseHeader_no_overflow {text : Bytes} :
    (writeResponseHeader env status text sched).ending ≠ .fault .overflow := by
  unfold writeResponseHeader
  dsimp only
  split <;> simp

theorem sendBody_no_overflow : (sendBody env q path sched).ending ≠ .fault .overflow := by
  unfold sendBody
  dsimp only
  split <;> simp

theorem reply_status_no_overflow : (reply env q { status } fp fstat sched).ending ≠ .fault .overflow := by
  rw [reply_status_eq]
  exact fun h => writeResponseHeader_no_overflow (logThen_overflow h)

theorem sendFile_no_overflow : (sendFile env q status path st sched).ending ≠ .fault .overflow := by
  rw [sendFile_eq]
  split
  · unfold afterHeader Run.after
    split
    · simp
    · exact fun h => sendBody_no_overflow (logThen_overflow h)
  · simp

theorem replyHead_no_overflow : (replyHead env q path st sched).ending ≠ .fault .overflow := by
  rw [replyHead_eq]
  split
  · exact fun h => writeResponseHeader_no_overflow (logThen_overflow h)
  · simp

theorem runCgi_no_overflow : (runCgi env path).ending ≠ .fault .overflow := by
  unfold runCgi
  split
  · simp
  · split
    · simp
    · rw [createResponseHeaderString_status]
      dsimp only
      split <;> simp

/-- A redirection overflows exactly when its location is allocated and its header does not fit. -/
theorem redirect_overflow_iff : (redirect env q path st sched).ending = .fault .overflow ↔
    env.libc.malloc .contentLocation = true ∧ BUFSIZE < path.length + (strftime env.now.civil).length + 77 := by
  rw [redirect_eq, ← createResponseHeaderString_redirect]
  by_cases hm : env.libc.malloc .contentLocation = true
  · rw [if_pos hm, reply_eq, createResponseHeaderString_eq]
    split
    · simp only [reduceCtorEq, and_false, iff_false]
      exact fun h => writeResponseHeader_no_overflow (logThen_overflow h)
    · simp [hm]
  · simp [hm]

end Overflow

/-- Every string that `handle_client` builds fits its array exactly when the path of an accepted request
    does, and the header of a redirection, where the answer is one. -/
theorem fits_iff {env : Env} {buffer : Buffer} : (∀ sched, (serve env buffer sched).ending ≠ .fault .overflow) ↔
    ∀ q, parseHttpHeader env.libc buffer.bytes = .ok q → Accepted q.httpState → Fits env q := by
  constructor
  · intro h q hq ha file hfile
    have h := h []
    simp only [serve, hq] at h
    obtain ⟨l, rest, file', hacc⟩ := acceptedAs hq ha
    rcases dispatch_cases env ha hfile with ⟨hlen, hd⟩ | ⟨hlen, ⟨hnone, -⟩ | ⟨st, hst, hd⟩⟩
    · simp [hd, perform] at h
    · exact ⟨hlen, fun st hst => by simp [hnone] at hst⟩
    · refine ⟨hlen, fun st' hst' hk hok hm => ?_⟩
      obtain rfl : st = st' := Option.some.inj (hst.symm.trans hst')
      simp only [hd, (dispatchFile_redirect hacc.fields).mpr ⟨hok, hk⟩, perform, ne_eq, redirect_overflow_iff, hm,
        true_and, List.length_append] at h
      omega
  · intro h sched
    unfold serve
    split
    · next f hf =>
      rcases parseHttpHeader_error hf with rfl | rfl <;> simp
    · next q hq =>
      by_cases ha : Accepted q.httpState
      · obtain ⟨l, rest, file, hacc⟩ := acceptedAs hq ha
        obtain ⟨hlen, hloc⟩ := h q hq ha file hacc.filename
        rcases dispatch_cases env ha hacc.filename with ⟨hlt, -⟩ | ⟨-, ⟨-, hd⟩ | ⟨st, hst, hd⟩⟩
        · omega
        · simp only [hd, perform]
          exact reply_status_no_overflow
        · rw [hd]
          rcases dispatchFile_cases q (env.rootDir ++ file) st with ⟨_, hd, -⟩ | ⟨_, hd⟩ | hd | ⟨hd, -⟩ | hd <;>
            simp only [hd, perform]
          · exact reply_status_no_overflow
          · exact sendFile_no_overflow
          · obtain ⟨hok, hk⟩ := (dispatchFile_redirect hacc.fields).mp hd
            rw [ne_eq, redirect_overflow_iff]
            rintro ⟨hm, hlt⟩
            have := hloc st hst hk hok hm
            rw [List.length_append] at hlt
            omega
          · exact replyHead_no_overflow
          · exact runCgi_no_overflow
      · simp only [dispatch_of_not_accepted ha, perform]
        exact reply_status_no_overflow

/-- A directory of the usual size and rights. -/
def plainDirectory : Inode where
  kind := .directory
  mode := 0o755
  mtime := .epoch
  readable := true
  data := []
  size := 4096
  size_lt := Nat.le_of_ble_eq_true rfl
  size_eq := nofun
  other_size := nofun

/-- The root directory `./././...` of 880 bytes, and a path of 20 slashes. -/
def deepRoot : Bytes := (List.replicate 440 (str "./")).flatten

def slashRequest : Bytes := str "GET //////////////////// HTTP/1.1\r\n\r\n"

/-- The path has 900 bytes and fits. The header that names it again does not. -/
theorem slashRequest_overflows : checkRootDir (fun _ => some plainDirectory) deepRoot = true ∧
    cstring (Buffer.store (.filled NUL) slashRequest).bytes = .ok slashRequest ∧
    (serve (.undisturbed deepRoot fun _ => some plainDirectory) (Buffer.store (.filled NUL) slashRequest) []).ending =
      .fault .overflow := by
  refine ⟨by decide, by decide +kernel, by decide +kernel⟩

end Distsys.Tinyweb
