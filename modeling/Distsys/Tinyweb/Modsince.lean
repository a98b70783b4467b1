import Distsys.Tinyweb.Moved

/-! Requests with an `If-Modified-Since` line (`src/http_parser.c` and `handle_client` in `src/tinyweb.c`):
    the 304 branch takes the time 0 for no date, and the difference of two times as an `int`. -/

namespace Distsys.Tinyweb
open Regex

/-- A GET or HEAD request whose last date line has this time, and which has no range line. -/
structure DatedRequest (lib : Libc) (buffer : Buffer) (l : RequestLine) (rest : Bytes) (t : Time) : Prop where
  header : cstring buffer.bytes = .ok (l.text ++ CR :: rest)
  newline : ∀ c ∈ rest.head?, c = LF
  blank₁ : l.blank₁ = SP
  blank₂ : l.blank₂ = SP
  get_or_head : l.method = str "GET" ∨ l.method = str "HEAD"
  version : l.version = str "HTTP/1.1"
  date : ∃ before line after, tokens (· == LF) rest = before ++ line :: after ∧ lib.ifModifiedSince line = some t ∧
    ∀ m ∈ after, lib.ifModifiedSince m = none
  no_range : ∀ line ∈ tokens (· == LF) rest, regexec noNewline rangeRegex line = none

/-- The calls of the C library succeed that the request needs to be accepted. -/
def Supports (lib : Libc) (l : RequestLine) : Prop :=
  lib.regcomp .statusLine = true ∧ lib.regcomp .range = true ∧ Provides lib l

/-! ### The parser -/

section Parse
variable {lib : Libc} {buffer : Buffer} {l : RequestLine} {rest : Bytes} {t : Time} {p : ParsedHeader}

theorem DatedRequest.lines (h : DatedRequest lib buffer l rest t) :
    (tokens (· == LF) rest).foldlM (parseHeaderLine lib) p = .ok { p with modsince := t } := by
  obtain ⟨before, line, after, hlines, hdate, hafter⟩ := h.date
  have hline : dateOf lib line (before.foldl (fun modsince line => dateOf lib line modsince) p.modsince) = t := by
    unfold dateOf
    rw [hdate]
    rfl
  rw [parseHeaderLines_noRange h.no_range, hlines, List.foldl_append, List.foldl_cons, hline, foldl_dateOf hafter]

theorem DatedRequest.parseMethod (h : DatedRequest lib buffer l rest t) (hr : lib.regcomp .statusLine = true) :
    parseHttpHeader lib buffer.bytes = Tinyweb.parseMethod lib (l.text ++ CR :: rest) :=
  parseHttpHeader_accepted h.header hr (regexec_statusLine.mpr ⟨l, rest, rfl, h.newline, rfl⟩)

theorem DatedRequest.parseProtocol (h : DatedRequest lib buffer l rest t) (hp : p.method = .text l.method) :
    Tinyweb.parseProtocol lib p (l.version ++ CR :: rest) =
      if lib.malloc .protocol = false then .ok { p with protocol := .null }
      else if lib.regcomp .range = false then
        .ok { p with protocol := .text (str "HTTP/1.1"), httpState := .internalServerError }
      else .ok { p with protocol := .text (str "HTTP/1.1"), httpState := .ok, modsince := t } := by
  have hget : p.method = .text (str "GET") ∨ p.method = .text (str "HEAD") := by
    rw [hp]
    exact h.get_or_head.imp (congrArg _) (congrArg _)
  unfold Tinyweb.parseProtocol
  rw [strtok_append l.version_no_CR l.version_ne_nil (by simp)]
  simp only [h.version, ne_eq, not_true_eq_false, ↓reduceIte, hget, h.lines]

theorem DatedRequest.parse (h : DatedRequest lib buffer l rest t) (hs : Supports lib l) : ∃ q,
    parseHttpHeader lib buffer.bytes = .ok q ∧ q.httpState = .ok ∧ q.modsince = t ∧
      q.filename = .text (requestedFile l.path) ∧ q.method.isSet = true ∧ q.protocol.isSet = true := by
  obtain ⟨hr, hrange, hmethod, hprotocol, hfile⟩ := hs
  obtain ⟨isCGI, hparse⟩ := parseMethod_spaces rest h.blank₁ h.blank₂ hmethod hfile
  rw [h.parseMethod hr, hparse, h.parseProtocol rfl, if_neg (by simp [hprotocol]), if_neg (by simp [hrange])]
  exact ⟨_, rfl, rfl, rfl, rfl, rfl, rfl⟩

theorem DatedRequest.parse_unsupported (h : DatedRequest lib buffer l rest t) (hs : ¬Supports lib l) :
    ∃ q, parseHttpHeader lib buffer.bytes = .ok q ∧ q.httpState = .internalServerError := by
  by_cases hr : lib.regcomp .statusLine = true
  · rw [h.parseMethod hr]
    by_cases hfile : lib.malloc .method = true ∧ (l.path ≠ str "/" → lib.malloc .filename = true ∧
      lib.regcomp .cgi = true)
    · obtain ⟨isCGI, hparse⟩ := parseMethod_spaces rest h.blank₁ h.blank₂ hfile.1 hfile.2
      rw [hparse, h.parseProtocol rfl]
      split
      · exact ⟨_, rfl, rfl⟩
      · next hprotocol =>
        split
        · exact ⟨_, rfl, rfl⟩
        · next hrange => exact absurd ⟨hr, by simpa using hrange, hfile.1, by simpa using hprotocol, hfile.2⟩ hs
    · exact parseMethod_unprovided h.blank₁ h.blank₂ hfile
  · refine ⟨{}, ?_, rfl⟩
    unfold parseHttpHeader
    rw [if_pos (by simpa using hr)]

end Parse

/-! ### The answer -/

/-- The answer is 304. -/
def AnsweredNotModified (run : Run) : Prop := ∃ text sent, .header .notModified text sent ∈ run.events

section Answer
variable {env : Env} {buffer : Buffer} {q : ParsedHeader} {l : RequestLine} {rest filepath : Bytes} {st : Inode}
  {sched : Schedule} {m t : Time}

/-- The time 0 counts as no date, and a difference from 2^31 seconds on as negative. -/
theorem notModified_iff : notModified t m = true ↔ t.secs ≠ 0 ∧ m.secs ≤ t.secs ∧ t.secs - m.secs < 2 ^ 31 := by
  have hsign : 0 ≤ toInt (t.secs - m.secs) ↔ m.secs ≤ t.secs ∧ t.secs - m.secs < 2 ^ 31 := by
    unfold toInt
    split <;> omega
  unfold notModified
  rw [Bool.and_eq_true, decide_eq_true_eq, decide_eq_true_eq, hsign]

theorem answered_reply (hm : q.method.isSet = true) (hp : q.protocol.isSet = true) :
    AnsweredNotModified (reply env q { status := .notModified } (some filepath) (some st) sched) := by
  have hread : (writeLog .notModified q (some filepath) (some st)
      (HttpHeader.text { status := .notModified } env.now)).isReadable = true :=
    isReadable_writeLog hm hp rfl _ _ _
  rw [reply_status_eq, logThen, hread]
  exact ⟨_, _, List.mem_cons_of_mem _ (List.mem_singleton_self _)⟩

theorem dispatchFile_of_notModified (hok : q.httpState = .ok) (hreg : st.kind = .regular)
    (hmod : notModified q.modsince st.mtime = true) :
    dispatchFile q filepath st = .reply .notModified (some filepath) (some st) := by
  unfold dispatchFile
  simp only [hok, hreg, reduceCtorEq, ↓reduceIte, hmod]

theorem notModified_of_status (hok : q.httpState = .ok) (hreg : st.kind = .regular)
    (hstatus : (dispatchFile q filepath st).status? = some .notModified) : notModified q.modsince st.mtime = true := by
  cases hmod : notModified q.modsince st.mtime with
  | true => rfl
  | false =>
    unfold dispatchFile at hstatus
    simp only [hok, hreg, reduceCtorEq, ↓reduceIte, hmod, Bool.false_eq_true] at hstatus
    split at hstatus
    · split at hstatus <;> cases hstatus
    · split at hstatus <;> cases hstatus

theorem DatedRequest.answered_iff (h : DatedRequest env.libc buffer l rest t)
    (hst : env.fs (env.rootDir ++ requestedFile l.path) = some st) (hreg : st.kind = .regular) :
    AnsweredNotModified (serve env buffer sched) ↔ Supports env.libc l ∧
      env.rootDir.length + (requestedFile l.path).length + 1 ≤ BUFSIZE ∧ notModified t st.mtime = true := by
  by_cases hs : Supports env.libc l
  · obtain ⟨q, hq, hok, rfl, hfile, hm, hp⟩ := h.parse hs
    have ha : Accepted q.httpState := hok ▸ accepted_ok
    rw [serve_eq hq]
    rcases dispatch_cases env ha hfile with ⟨hlt, hd⟩ | ⟨hlen, ⟨hnone, -⟩ | ⟨st', hst', hd⟩⟩
    · refine iff_of_false ?_ fun hcon => Nat.not_le.mpr hlt hcon.2.1
      rintro ⟨text, sent, hheader⟩
      cases hd ▸ header_perform hheader
    · cases hnone.symm.trans hst
    · obtain rfl := Option.some.inj (hst'.symm.trans hst)
      rw [hd]
      constructor
      · rintro ⟨text, sent, hheader⟩
        exact ⟨hs, hlen, notModified_of_status hok hreg (header_perform hheader)⟩
      · rintro ⟨-, -, hmod⟩
        simp only [dispatchFile_of_notModified hok hreg hmod, perform]
        exact answered_reply hm hp
  · obtain ⟨q, hq, hstate⟩ := h.parse_unsupported hs
    refine iff_of_false ?_ fun hcon => hs hcon.1
    rintro ⟨text, sent, hheader⟩
    rw [serve_eq hq, dispatch_of_not_accepted (hstate ▸ not_accepted)] at hheader
    cases hstate ▸ header_perform hheader

end Answer

/-- A request with the date `t` for a regular file is answered 304 exactly when the file is not newer, if and only
    if the file is newer, or the request is supported, its path fits, `t` is not 0 and the file is less than 2^31
    seconds older. -/
theorem answeredNotModified_iff {env : Env} {buffer : Buffer} {l : RequestLine} {rest : Bytes} {st : Inode} {t : Time}
    (h : DatedRequest env.libc buffer l rest t) (hst : env.fs (env.rootDir ++ requestedFile l.path) = some st)
    (hreg : st.kind = .regular) :
    (∀ sched, AnsweredNotModified (serve env buffer sched) ↔ st.mtime.secs ≤ t.secs) ↔
      t.secs < st.mtime.secs ∨ Supports env.libc l ∧ env.rootDir.length + (requestedFile l.path).length + 1 ≤ BUFSIZE ∧
        t.secs ≠ 0 ∧ t.secs - st.mtime.secs < 2 ^ 31 := by
  constructor
  · intro hall
    by_cases hle : st.mtime.secs ≤ t.secs
    · obtain ⟨hs, hlen, hmod⟩ := (h.answered_iff hst hreg).mp ((hall []).mpr hle)
      obtain ⟨hne, -, hlt⟩ := notModified_iff.mp hmod
      exact Or.inr ⟨hs, hlen, hne, hlt⟩
    · exact Or.inl (Int.not_le.mp hle)
  · intro hcon sched
    rw [h.answered_iff hst hreg, notModified_iff]
    rcases hcon with hlt | ⟨hs, hlen, hne, hlt⟩
    · exact iff_of_false (fun hcon => Int.not_le.mpr hlt hcon.2.2.2.1) (Int.not_le.mpr hlt)
    · exact ⟨fun hcon => hcon.2.2.2.1, fun hle => ⟨hs, hlen, hne, hle, hlt⟩⟩

/-- A C library that reads the date of one line. -/
def readsDate (line : Bytes) (t : Time) : Libc :=
  { Libc.working with ifModifiedSince := fun s => if s = line then some t else none }

/-- A server whose `strptime` reads this line as this time. -/
def datedEnv (line : Bytes) (t : Time) : Env :=
  { Env.undisturbed (str "/srv") fun _ => some smallFile with libc := readsDate line t }

/-- A request with this line. -/
def datedRequest (line : Bytes) : Buffer :=
  Buffer.store (.filled NUL) (str "GET /a HTTP/1.1\r\n" ++ line ++ str "\n\r\n")

/-- The second behind the last one that an `int` counts to. -/
def year2038 : Time := ⟨2 ^ 31, by decide, by decide⟩

theorem answeredNotModified_iff_example : ∃ l t, l.text = str "GET /a HTTP/1.1" ∧
    ((∀ sched, AnsweredNotModified (serve (datedEnv (str "If-Modified-Since: Thu, 01 Jan 1970 00:01:40 GMT\r") t)
        (datedRequest (str "If-Modified-Since: Thu, 01 Jan 1970 00:01:40 GMT\r")) sched) ↔
          smallFile.mtime.secs ≤ t.secs) ↔
      t.secs < smallFile.mtime.secs ∨
        Supports (readsDate (str "If-Modified-Since: Thu, 01 Jan 1970 00:01:40 GMT\r") t) l ∧
        (str "/srv").length + (requestedFile l.path).length + 1 ≤ BUFSIZE ∧
        t.secs ≠ 0 ∧ t.secs - smallFile.mtime.secs < 2 ^ 31) := by
  let line := str "If-Modified-Since: Thu, 01 Jan 1970 00:01:40 GMT\r"
  let t : Time := ⟨100, by decide, by decide⟩
  let l : RequestLine := {
    method := str "GET"
    blank₁ := SP
    path := str "/a"
    blank₂ := SP
    version := str "HTTP/1.1"
    method_mem := mem_lang_of_mem_run plain_methodRegex (by decide +kernel : _ ∈ run newline _ _)
    blank₁_isblank := rfl
    path_mem := mem_lang_of_mem_run plain_pathRegex (by decide +kernel : _ ∈ run newline _ _)
    blank₂_isblank := rfl
    version_mem := mem_lang_of_mem_run plain_versionRegex (by decide +kernel : _ ∈ run newline _ _) }
  have hlines : tokens (· == LF) (LF :: line ++ str "\n\r\n") = [] ++ line :: [[CR]] := by decide +kernel
  have hdated : DatedRequest (datedEnv line t).libc (datedRequest line) l (LF :: line ++ str "\n\r\n") t := by
    refine ⟨by decide +kernel, by simp, rfl, rfl, Or.inl rfl, rfl, ⟨[], line, [[CR]], hlines, ?_, ?_⟩, ?_⟩
    · rfl
    · decide +kernel
    · decide +kernel
  exact ⟨l, t, rfl, answeredNotModified_iff hdated rfl rfl⟩

def Event.hasStatus (status : HttpStatus) : Event → Bool
  | .header s _ _ => s == status
  | _ => false

theorem not_answered_of_any {run : Run} (h : run.events.any (Event.hasStatus .notModified) = false) :
    ¬AnsweredNotModified run := by
  rintro ⟨text, sent, hheader⟩
  have hstatus := List.any_eq_false.mp h _ hheader
  exact hstatus rfl

/-- The file is of 1970, and so is the date, or the date is of 2038: both times the file is sent again. -/
theorem date_ignored :
    ¬(∀ sched, AnsweredNotModified (serve (datedEnv (str "If-Modified-Since: Thu, 01 Jan 1970 00:00:00 GMT\r") .epoch)
      (datedRequest (str "If-Modified-Since: Thu, 01 Jan 1970 00:00:00 GMT\r")) sched) ↔
        smallFile.mtime.secs ≤ Time.epoch.secs) ∧
    ¬(∀ sched, AnsweredNotModified (serve (datedEnv (str "If-Modified-Since: Tue, 19 Jan 2038 03:14:08 GMT\r") year2038)
      (datedRequest (str "If-Modified-Since: Tue, 19 Jan 2038 03:14:08 GMT\r")) sched) ↔
        smallFile.mtime.secs ≤ year2038.secs) := by
  constructor
  · intro h
    exact not_answered_of_any (by decide +kernel) ((h []).mpr (by decide))
  · intro h
    exact not_answered_of_any (by decide +kernel) ((h []).mpr (by decide))

end Distsys.Tinyweb
