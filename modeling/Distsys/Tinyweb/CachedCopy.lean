import Distsys.Lib.System
import Distsys.Tinyweb.Revalidation

/-! A client that keeps a copy of a file and asks with its date whether there is a newer one: the client, the file that
    is modified from time to time, and the server between them (`src/tinyweb.c`, `src/http_parser.c`). -/

namespace Distsys.Tinyweb
open Regex

/-! ### The client and the file -/

/-- The path of a file that is sent as it is. -/
structure Site where
  rootDir : Bytes
  path : Bytes
  isPath : IsPath path
  fits : rootDir.length + (requestedFile path).length + 1 ≤ BUFSIZE
  no_script : regexec noNewline cgiRegex (requestedFile path) = none

/-- The file that the server looks for. -/
def Site.filepath (site : Site) : Bytes := site.rootDir ++ requestedFile site.path

/-- A version of the file, of a size that the line of the length has room for. -/
structure Version where
  inode : Inode
  regular : inode.kind = .regular
  readable : inode.readable = true
  size_lt : inode.size < 10 ^ 10

abbrev Version.time (file : Version) : Time := file.inode.mtime

abbrev Version.data (file : Version) : Bytes := file.inode.data

/-- The body of an answer, and the date in its header. -/
structure Copy where
  date : Bytes
  body : Bytes

/-- The line with which a client asks for a file that is newer than its copy. -/
def dateLines : Option Copy → List Bytes
  | none => []
  | some copy => [str "If-Modified-Since: " ++ copy.date]

/-- The request of a client with this copy. -/
def Site.request (site : Site) (copy : Option Copy) : Bytes := getRequest site.path (dateLines copy)

/-- What the client has after an answer: a file comes in place of its copy, as many bytes of it as the header states. A
    file that ends before that, and any other answer, leave the copy. -/
def receive (copy : Option Copy) (wire : Bytes) : Option Copy :=
  match readMessage wire with
  | none => copy
  | some (ls, body) =>
    if ls.head? = some (str "HTTP/1.1 200 OK") then do
      let date ← field (httpHeaderFieldList .lastModified) ls
      let length ← (field (httpHeaderFieldList .contentLength) ls).map readInt
      if body.length < length then copy else some ⟨date, body.take length.toNat⟩
    else copy

/-- The version of the file that stands under its path, and what the client has of it. -/
structure CacheState where
  file : Version
  copy : Option Copy

/-- What can happen to the file and the copy. -/
inductive CacheAction where
  | modify (file : Version)
  /-- One request and its answer. The server opens the file after it has looked at its time, and it may find another
      version there; `isdst` stands for what it finds in the `tm_isdst` that it does not set. -/
  | fetch (env : Env) (isdst : Bool) (old : Buffer) (sched : Schedule) (opened : Version)

/-- What the server does with the request. -/
def Site.answer (site : Site) (copy : Option Copy) (env : Env) (old : Buffer) (sched : Schedule) : Run :=
  serve env (old.store (site.request copy)) sched

/-- The request is received as it was sent, and the answer is transferred in full. -/
structure Fetches (site : Site) (s : CacheState) (env : Env) (isdst : Bool) (old : Buffer) (sched : Schedule)
    (opened : Version) : Prop where
  rootDir : env.rootDir = site.rootDir
  succeeds : env.libc.Succeeds
  dates : env.libc.ifModifiedSince = ifModifiedSince isdst
  found : env.fs site.filepath = some s.file.inode
  opens : env.fsBody site.filepath = some opened.inode
  received : cstring (old.store (site.request s.copy)).bytes = .ok (site.request s.copy)
  inFull : InFull sched (site.answer s.copy env old sched)
  returned : ∃ r, (site.answer s.copy env old sched).ending = .returned r

/-- The file is modified, and the client asks for it, in any order. -/
def cacheSystem (site : Site) (file : Version) : System CacheState CacheAction where
  init := ⟨file, none⟩
  enabled s
    | .modify _ => True
    | .fetch env isdst old sched opened => Fetches site s env isdst old sched opened
  next s
    | .modify file => { s with file }
    | .fetch env _ old sched opened => ⟨opened, receive s.copy (site.answer s.copy env old sched).wire⟩

/-- The file is modified in a later second. -/
def ModifiedLater (s : CacheState) : CacheAction → Prop
  | .modify file => s.file.time.secs < file.time.secs
  | .fetch _ _ _ _ opened => opened = s.file ∨ s.file.time.secs < opened.time.secs

/-! ### One request and its answer -/

/-- The time that the parser gets from the request. -/
def timeOf (isdst : Bool) (copy : Option Copy) : Time :=
  (copy.bind fun c => ifModifiedSince isdst (str "If-Modified-Since: " ++ c.date ++ [CR])).getD .epoch

section Fetch
variable {site : Site} {s : CacheState} {env : Env} {isdst : Bool} {old : Buffer} {sched : Schedule}
  {opened : Version} {copy : Option Copy}

/-- The copy is dated as the server dates files. -/
def DatedCopy (copy : Option Copy) : Prop := ∀ c ∈ copy, ∃ st, c.date = lastModified st

theorem no_LF_of_dated (h : DatedCopy copy) : ∀ l ∈ dateLines copy, LF ∉ l := by
  intro l hl
  cases copy with
  | none => cases hl
  | some c =>
    obtain ⟨st, hst⟩ := h c rfl
    obtain rfl := List.mem_singleton.mp hl
    have hname : LF ∉ str "If-Modified-Since: " ∧ LF ∉ str " GMT" := by decide +kernel
    simp only [hst, lastModified, List.mem_append, not_or]
    exact ⟨hname.1, LF_not_mem_strftime _, hname.2⟩

/-- What the parser makes of the request of the client. -/
structure ParsedRequest (site : Site) (isdst : Bool) (copy : Option Copy) (q : ParsedHeader) : Prop where
  state : q.httpState = .ok
  modsince : q.modsince = timeOf isdst copy
  whole : q.byteStart = -2
  keeps : KeepsRequest (getParsed site.path) q

theorem parse_request (hf : Fetches site s env isdst old sched opened) (hd : DatedCopy s.copy) :
    ∃ q, parseHttpHeader env.libc (old.store (site.request s.copy)).bytes = .ok q ∧
      ParsedRequest site isdst s.copy q := by
  have hlast : regexec noNewline rangeRegex [CR] = none ∧ ifModifiedSince isdst [CR] = none :=
    ⟨no_range_of_head (by decide +kernel), by cases isdst <;> decide +kernel⟩
  have hranges : ∀ line ∈ (dateLines s.copy).map (· ++ [CR]) ++ [[CR]], regexec noNewline rangeRegex line = none := by
    intro line hl
    rcases List.mem_append.mp hl with hl | hl
    · cases hc : s.copy with
      | none => simp [hc, dateLines] at hl
      | some c =>
        obtain rfl : line = str "If-Modified-Since: " ++ c.date ++ [CR] := by simpa [hc, dateLines] using hl
        refine no_range_of_head fun d hd => ?_
        obtain rfl : 0x49 = d := by simpa [str] using hd
        decide
    · obtain rfl := List.mem_singleton.mp hl
      exact hlast.1
  obtain ⟨q, hq, hk⟩ := parseHeaderLines_ok env.libc ((dateLines s.copy).map (· ++ [CR]) ++ [[CR]])
    (getParsed site.path)
  refine ⟨q, (parse_getRequest hf.succeeds site.isPath (no_LF_of_dated hd) hf.received).trans hq, ?_⟩
  rw [parseHeaderLines_noRange hranges] at hq
  obtain rfl := Except.ok.inj hq
  refine ⟨rfl, ?_, rfl, hk⟩
  cases hc : s.copy with
  | none => simp [dateLines, timeOf, dateOf, hf.dates, hlast.2, getParsed]
  | some c => simp [dateLines, timeOf, dateOf, hf.dates, hlast.2, getParsed]

theorem Fetches.serves (hf : Fetches site s env isdst old sched opened) : ServesFile env site.path s.file.inode where
  found := hf.rootDir ▸ hf.found
  regular := s.file.regular
  fits := hf.rootDir ▸ site.fits
  no_script := site.no_script

theorem wire_notModified {q : ParsedHeader} {filepath : Bytes} {st : Inode} {r : Int} (hm : q.method.isSet = true)
    (hp : q.protocol.isSet = true) (hcalls : ∀ c ∈ sched, c.Full BUFSIZE)
    (hret : (reply env q { status := .notModified } (some filepath) (some st) sched).ending = .returned r) :
    (reply env q { status := .notModified } (some filepath) (some st) sched).wire =
    HttpHeader.text { status := .notModified } env.now := by
  have hread : (writeLog .notModified q (some filepath) (some st)
      (HttpHeader.text { status := .notModified } env.now)).isReadable = true :=
    isReadable_writeLog hm hp rfl _ _ _
  rw [reply_status_eq, logThen, hread] at hret ⊢
  simp only [Bool.true_or, ↓reduceIte, Run.after, writeResponseHeader] at hret ⊢
  cases hres : (writeToSocket env.timeout (HttpHeader.text { status := .notModified } env.now) sched).res with
  | none =>
    rw [hres] at hret
    cases hret
  | some res =>
    have hlen : (HttpHeader.text { status := .notModified } env.now).length ≤ BUFSIZE := by
      have := createResponseHeaderString_status .notModified env.now
      rw [createResponseHeaderString_eq] at this
      split at this
      · omega
      · cases this
    simp [Run.wire, Event.wire?, (writeToSocket_full hlen hcalls hres).1]

/-- The answer is the header 304 alone, or the header of the version that was found and then the version that was
    opened. -/
theorem answer_cases (hf : Fetches site s env isdst old sched opened) (hd : DatedCopy s.copy) :
    notModified (timeOf isdst s.copy) s.file.time = true ∧
      (site.answer s.copy env old sched).wire = HttpHeader.text { status := .notModified } env.now ∨
    notModified (timeOf isdst s.copy) s.file.time = false ∧ ∃ q, ¬IsPartial q.byteStart q.byteEnd ∧
      (site.answer s.copy env old sched).wire = fileText env q .ok site.filepath s.file.inode ++ opened.data := by
  obtain ⟨q, hq, hparsed⟩ := parse_request hf hd
  have hm : q.method.isSet = true := by rw [hparsed.keeps.method]; rfl
  have hp : q.protocol.isSet = true := by rw [hparsed.keeps.protocol]; rfl
  have hfile : env.rootDir ++ requestedFile site.path = site.filepath := by rw [hf.rootDir, Site.filepath]
  have hdispatch := hf.serves.dispatch_ok hparsed.state hparsed.keeps
  rw [hfile, hparsed.modsince] at hdispatch
  have hanswer : site.answer s.copy env old sched = perform env q sched (dispatch env q) := congrFun (serve_eq hq) sched
  obtain ⟨r, hret⟩ := hf.returned
  by_cases hmod : notModified (timeOf isdst s.copy) s.file.time = true
  · have hrun : site.answer s.copy env old sched =
        reply env q { status := .notModified } (some site.filepath) (some s.file.inode) sched := by
      rw [hanswer, hdispatch, if_pos hmod]
      rfl
    rw [hrun] at hret ⊢
    exact Or.inl ⟨hmod, wire_notModified hm hp hf.inFull.calls hret⟩
  · have hwhole : ¬IsPartial q.byteStart q.byteEnd := fun h => h.1 hparsed.whole
    have hrun : site.answer s.copy env old sched = sendFile env q .ok site.filepath s.file.inode sched := by
      rw [hanswer, hdispatch, if_neg hmod]
      rfl
    have hfull := hf.inFull
    rw [hrun] at hret hfull ⊢
    -- A file whose header cannot be made is not answered.
    have halloc : HeaderCreated env.libc s.file.inode q.byteStart q.byteEnd := by
      by_contra hno
      rw [sendFile_eq, if_neg hno] at hret
      cases hret
    have hint : -2 ^ 31 ≤ q.byteStart ∧ q.byteStart < 2 ^ 31 := by rw [hparsed.whole]; decide
    have hyields := sendFile_yields_wire .ok s.file.inode halloc hm hp hint hf.opens (Or.inr ⟨hwhole, opened.regular⟩)
    have hsent : sentPart opened.inode q.byteStart q.byteEnd = opened.data := by
      rw [sentPart, if_neg (by simp [opened.readable]), if_neg hwhole]
    refine Or.inr ⟨Bool.eq_false_iff.mpr hmod, q, hwhole, ?_⟩
    rw [← hsent]
    exact hyields.returned sched r hfull hret

/-! ### What the client makes of the answer -/

theorem head_fixedLines (ls : List Bytes) (now : ClockTime) (status : HttpStatus) :
    (fixedLines status now ++ ls).head? = some (str "HTTP/1.1 200 OK") ↔ status = .ok := by
  cases status <;> simp only [fixedLines, List.cons_append, List.head?_cons, Option.some.injEq, reduceCtorEq,
    iff_true, iff_false] <;>
    decide +kernel

theorem readMessage_notModified (now : ClockTime) :
    readMessage (HttpHeader.text { status := .notModified } now) = some (fixedLines .notModified now, []) := by
  have hend : readMessage (HttpHeader.fields { status := .notModified } ++ CRLF) = some ([], []) := by decide
  rw [text_eq_fixedLines, readMessage_lines fixedLines_are_lines, hend]
  simp

theorem receive_notModified (copy : Option Copy) (now : ClockTime) :
    receive copy (HttpHeader.text { status := .notModified } now) = copy := by
  have hhead : ¬(fixedLines .notModified now).head? = some (str "HTTP/1.1 200 OK") := by
    rw [← List.append_nil (fixedLines .notModified now), head_fixedLines]
    decide
  simp only [receive, readMessage_notModified, if_neg hhead]

/-- The head of a file that is sent whole: its date and its size stand in it. -/
theorem readMessage_file {q : ParsedHeader} {st : Inode} (env : Env) (filepath : Bytes)
    (hp : ¬IsPartial q.byteStart q.byteEnd) (hsize : st.size < 10 ^ 10) : ∃ ls,
    (∀ body, readMessage (fileText env q .ok filepath st ++ body) = some (fixedLines .ok env.now ++ ls, body)) ∧
    field (httpHeaderFieldList .lastModified) (fixedLines .ok env.now ++ ls) = some (lastModified st) ∧
    (field (httpHeaderFieldList .contentLength) (fixedLines .ok env.now ++ ls)).map readInt = some (st.size : Int) := by
  obtain ⟨ls, hls, hlines, hfield⟩ := fields_dated .ok filepath st q.byteStart q.byteEnd
  have hrange : (fileHeader .ok filepath st q.byteStart q.byteEnd).contentRange.toList.flatten = [] := by
    simp [fileHeader, hp]
  have htext : fileText env q .ok filepath st = (fixedLines .ok env.now).flatMap
      (· ++ CRLF) ++ (ls.flatMap (· ++ CRLF) ++ CRLF) := by
    unfold fileText
    rw [text_eq_fixedLines, hls, hrange, List.append_nil]
    rfl
  refine ⟨ls, fun body => ?_, ?_, ?_⟩
  · rw [htext, List.append_assoc, List.append_assoc, readMessage_lines fixedLines_are_lines, readMessage_lines hlines,
      readMessage_end]
    simp only [Option.map_some, List.append_nil]
  · have hdate := hfield []
    rw [List.append_nil] at hdate
    rw [field_fixedLines (by decide), hdate]
  · have hstated : statedLength (fileText env q .ok filepath st) =
      some (printed (lengthField st q.byteStart q.byteEnd).1
        (lengthField st q.byteStart q.byteEnd).2) := statedLength_fileText
    have hend : lines CRLF = [[]] := by decide
    have hlength : lengthField st q.byteStart q.byteEnd = (10, (st.size : Int)) := if_neg hp
    rw [statedLength, htext, lines_append fun l hl => (fixedLines_are_lines l hl).1, lines_append fun l hl =>
      (hlines l hl).1, hend, ← List.append_assoc, field_append_nil (by decide), hlength] at hstated
    rw [hstated]
    exact congrArg some (printed_eq_self hsize)

/-- The copy has the bytes that are stated, when as many come. -/
theorem receive_file {q : ParsedHeader} {filepath : Bytes} {st : Inode} (hp : ¬IsPartial q.byteStart q.byteEnd)
    (hsize : st.size < 10 ^ 10) (body : Bytes) : receive copy (fileText env q .ok filepath st ++ body) =
      if body.length < st.size then copy else some ⟨lastModified st, body.take st.size⟩ := by
  obtain ⟨ls, hmessage, hdate, hlength⟩ := readMessage_file env filepath hp hsize
  simp only [receive, hmessage, head_fixedLines, ↓reduceIte, hdate, hlength, Option.bind_eq_bind, Option.bind_some,
    Int.ofNat_lt, Int.toNat_natCast]

theorem timeOf_dated {c : Copy} {st : Inode} (isdst : Bool) (hc : c.date = lastModified st) :
    (timeOf isdst (some c)).secs = if YearIsRead st.mtime then st.mtime.secs - dstHour isdst else 0 := by
  have hread := ifModifiedSince_strftime isdst st.mtime (str " GMT" ++ [CR])
  rw [← List.append_assoc, List.append_assoc (str _)] at hread
  unfold timeOf
  rw [Option.bind_some, hc, lastModified]
  split
  · next h =>
    rw [if_pos h] at hread
    obtain ⟨t, ht, hsecs⟩ := Option.map_eq_some_iff.mp hread
    rw [ht, Option.getD_some, hsecs]
  · next h =>
    rw [if_neg h, Option.map_eq_none_iff] at hread
    rw [hread]
    rfl

/-- A copy is confirmed only where it has the time of the file, or a later one. -/
theorem confirmed_iff {c : Copy} {st : Inode} (hc : c.date = lastModified st) :
    notModified (timeOf isdst (some c)) s.file.time = true ↔ YearIsRead st.mtime ∧ st.mtime.secs - dstHour isdst ≠ 0 ∧
      s.file.time.secs ≤ st.mtime.secs - dstHour isdst ∧ st.mtime.secs - dstHour isdst - s.file.time.secs < 2 ^ 31 := by
  rw [notModified_iff, timeOf_dated isdst hc]
  by_cases h : YearIsRead st.mtime
  · simp only [h, ↓reduceIte, true_and]
  · simp only [h, ↓reduceIte, false_and, iff_false]
    exact fun hcon => hcon.1 rfl

theorem le_of_confirmed {c : Copy} {st : Inode} (hc : c.date = lastModified st)
    (h : notModified (timeOf isdst (some c)) s.file.time = true) : s.file.time.secs ≤ st.mtime.secs := by
  have hle := ((confirmed_iff hc).mp h).2.2.1
  have hdst := (dstHour_bounds isdst).1
  omega

theorem not_confirmed_none : notModified (timeOf isdst none) s.file.time = false := rfl

end Fetch

/-! ### Every run -/

/-- The copy is dated like a version that is not newer than the file, and is the file where that is as new. -/
def Fresh (s : CacheState) : Prop := ∀ c ∈ s.copy, ∃ st : Inode,
  c.date = lastModified st ∧ st.mtime.secs ≤ s.file.time.secs ∧
  (st.mtime.secs = s.file.time.secs → c.body = s.file.data)

section Runs
variable {site : Site} {file : Version} {s : CacheState} {env : Env} {isdst : Bool} {old : Buffer} {sched : Schedule}
  {opened : Version}

theorem Fresh.dated (h : Fresh s) : DatedCopy s.copy := by
  intro c hc
  obtain ⟨st, hst, -⟩ := h c hc
  exact ⟨st, hst⟩

/-- What the client has after a request: its copy, which is the file, or as many bytes of the version that was opened as
    the version has that was found. -/
theorem fetch_cases (h : Fresh s) (hf : Fetches site s env isdst old sched opened) :
    (receive s.copy (site.answer s.copy env old sched).wire = s.copy ∧ ∃ c ∈ s.copy, c.body = s.file.data) ∨
    receive s.copy (site.answer s.copy env old sched).wire = if opened.data.length < s.file.data.length then s.copy
      else some ⟨lastModified s.file.inode, opened.data.take s.file.data.length⟩ := by
  rcases answer_cases hf h.dated with ⟨hmod, hwire⟩ | ⟨-, q, hwhole, hwire⟩
  · refine Or.inl ⟨by rw [hwire, receive_notModified], ?_⟩
    cases hc : s.copy with
    | none => rw [hc, not_confirmed_none] at hmod; cases hmod
    | some c =>
      obtain ⟨st, hst, hle, hbody⟩ := h c hc
      rw [hc] at hmod
      exact ⟨c, rfl, hbody (Int.le_antisymm hle (le_of_confirmed hst hmod))⟩
  · have hsize : s.file.inode.size = s.file.data.length := s.file.inode.size_eq s.file.regular
    exact Or.inr (by rw [hwire, receive_file hwhole s.file.size_lt, hsize])

/-- A copy that is kept while the file is modified in a later second is dated before it. -/
theorem Fresh.keep (h : Fresh s) (hlater : opened = s.file ∨ s.file.time.secs < opened.time.secs) :
    Fresh ⟨opened, s.copy⟩ := by
  intro c hc
  obtain ⟨st, hst, hle, hbody⟩ := h c hc
  rcases hlater with rfl | hlt
  · exact ⟨st, hst, hle, hbody⟩
  · have hnew := Int.lt_of_le_of_lt hle hlt
    exact ⟨st, hst, Int.le_of_lt hnew, fun heq => absurd heq (Int.ne_of_lt hnew)⟩

/-- No action makes the copy out of date without its date showing it. -/
theorem fresh_step {a : CacheAction} (h : Fresh s) (he : (cacheSystem site file).enabled s a)
    (hlater : ModifiedLater s a) :
    Fresh ((cacheSystem site file).next s a) := by
  cases a with
  | modify file' => exact h.keep (Or.inr hlater)
  | fetch env isdst old sched opened =>
    intro c hc
    have hc : receive s.copy (site.answer s.copy env old sched).wire = some c := hc
    rcases fetch_cases h he with ⟨hkeep, -⟩ | hnew
    · exact h.keep hlater c (hkeep ▸ hc)
    · by_cases hshort : opened.data.length < s.file.data.length
      · rw [if_pos hshort] at hnew
        exact h.keep hlater c (hnew ▸ hc)
      · rw [if_neg hshort] at hnew
        obtain rfl := Option.some.inj (hc.symm.trans hnew)
        refine ⟨s.file.inode, rfl, ?_, ?_⟩
        · rcases hlater with rfl | hlt
          · exact Int.le_refl _
          · exact Int.le_of_lt hlt
        · rcases hlater with rfl | hlt
          · exact fun _ => List.take_length
          · exact fun heq => absurd heq (Int.ne_of_lt hlt)

theorem fresh_of_reaches (h : (cacheSystem site file).ReachesBy ModifiedLater s) : Fresh s := by
  refine h.invariant ?_ fun _ _ hfresh he hlater => fresh_step hfresh he hlater
  intro c hc
  cases hc

/-- After a request during which the file stays as it is, the copy has the time of the file. -/
theorem date_after_fetch (h : Fresh s) (hf : Fetches site s env isdst old sched s.file) :
    ∃ c, receive s.copy (site.answer s.copy env old sched).wire = some c ∧
      ∃ st : Inode, c.date = lastModified st ∧ st.mtime = s.file.time := by
  rcases answer_cases hf h.dated with ⟨hmod, hwire⟩ | ⟨-, q, hwhole, hwire⟩
  · rw [hwire, receive_notModified]
    cases hc : s.copy with
    | none =>
      rw [hc, not_confirmed_none] at hmod
      cases hmod
    | some c =>
      obtain ⟨st, hst, hle, -⟩ := h c hc
      rw [hc] at hmod
      have hsecs : st.mtime.secs = s.file.time.secs := Int.le_antisymm hle (le_of_confirmed hst hmod)
      refine ⟨c, rfl, st, hst, ?_⟩
      cases hm : st.mtime
      cases hn : s.file.time
      simp_all
  · have hsize : s.file.inode.size = s.file.data.length := s.file.inode.size_eq s.file.regular
    rw [hwire, receive_file hwhole s.file.size_lt, if_neg (by rw [hsize]; exact Nat.lt_irrefl _)]
    exact ⟨_, rfl, s.file.inode, rfl, rfl⟩

theorem wire_eq_iff (h : DatedCopy s.copy) (hf : Fetches site s env isdst old sched opened) :
    (site.answer s.copy env old sched).wire = HttpHeader.text { status := .notModified } env.now ↔
      notModified (timeOf isdst s.copy) s.file.time = true := by
  rcases answer_cases hf h with ⟨hmod, hwire⟩ | ⟨hmod, q, hwhole, hwire⟩
  · exact iff_of_true hwire hmod
  · refine iff_of_false (fun heq => ?_) (by simp [hmod])
    -- The two answers differ in their first line.
    obtain ⟨ls, hmessage, -⟩ := readMessage_file env site.filepath hwhole s.file.size_lt
    have hread := hmessage opened.data
    rw [← hwire, heq, readMessage_notModified, Option.some.injEq, Prod.mk.injEq] at hread
    have hhead := head_fixedLines ls env.now .ok
    rw [← hread.1, ← List.append_nil (fixedLines .notModified env.now), head_fixedLines] at hhead
    exact absurd (hhead.mpr rfl) (by decide)

/-- A copy that is confirmed is the file. -/
theorem body_of_confirmed (h : Fresh s) (hf : Fetches site s env isdst old sched opened)
    (hwire : (site.answer s.copy env old sched).wire = HttpHeader.text { status := .notModified } env.now) :
    ∃ c ∈ s.copy, c.body = s.file.data := by
  have hmod := (wire_eq_iff h.dated hf).mp hwire
  cases hc : s.copy with
  | none =>
    rw [hc, not_confirmed_none] at hmod
    cases hmod
  | some c =>
    obtain ⟨st, hst, hle, hbody⟩ := h c hc
    rw [hc] at hmod
    exact ⟨c, rfl, hbody (Int.le_antisymm hle (le_of_confirmed hst hmod))⟩

end Runs

/-- In every run in which the file is modified in a later second each time: a copy that is confirmed is the file that
    the server found, and after every request the client has that file, unless another one took its place before the
    server opened it. Then it has as many bytes of the new one as the header states, or its old copy where there are
    fewer. -/
theorem fetched_current {site : Site} {file opened : Version} {s : CacheState} {env : Env} {isdst : Bool} {old : Buffer}
    {sched : Schedule} (h : (cacheSystem site file).ReachesBy ModifiedLater s)
    (hf : Fetches site s env isdst old sched opened) (hlater : ModifiedLater s (.fetch env isdst old sched opened)) :
    ((site.answer s.copy env old sched).wire = HttpHeader.text { status := .notModified } env.now →
      ∃ c ∈ s.copy, c.body = s.file.data) ∧
    ((∃ c ∈ ((cacheSystem site file).next s (.fetch env isdst old sched opened)).copy, c.body = s.file.data) ∨
      s.file.time.secs < opened.time.secs ∧ ((cacheSystem site file).next s (.fetch env isdst old sched opened)).copy =
        if opened.data.length < s.file.data.length then s.copy
        else some ⟨lastModified s.file.inode, opened.data.take s.file.data.length⟩) := by
  have hfresh := fresh_of_reaches h
  refine ⟨body_of_confirmed hfresh hf, ?_⟩
  rcases fetch_cases hfresh hf with ⟨hkeep, c, hc, hbody⟩ | hnew
  · exact Or.inl ⟨c, hkeep.trans hc, hbody⟩
  · rcases hlater with rfl | hlt
    · rw [if_neg (Nat.lt_irrefl _), List.take_length] at hnew
      exact Or.inl ⟨_, hnew, rfl⟩
    · exact Or.inr ⟨hlt, hnew⟩

theorem five_lt : 5 < 10 ^ 10 := by decide

/-- A file of one hundred seconds after the start of 1970. -/
def datedVersion : Version where
  inode := { smallFile with mtime := ⟨100, by decide, by decide⟩ }
  regular := rfl
  readable := rfl
  size_lt := five_lt

/-- The server's directory and the name of a file in it. -/
def siteOfA : Site where
  rootDir := str "/srv"
  path := str "/a"
  isPath := mem_lang_pathRegex.mp (mem_lang_of_mem_run plain_pathRegex (by decide +kernel : _ ∈ run newline _ _))
  fits := by decide +kernel
  no_script := by decide +kernel

/-- A server that reads dates as the C library does. -/
def dateEnv : Env :=
  { Env.undisturbed (str "/srv") fun _ => some datedVersion.inode with
    libc := { Libc.working with ifModifiedSince := ifModifiedSince false } }

/-- The file is sent. -/
def firstFetch : CacheAction := .fetch dateEnv false (.filled NUL) (delivery 0 BUFSIZE ++ turns BUFSIZE 1) datedVersion

/-- The header 304 is sent. -/
def secondFetch : CacheAction := .fetch dateEnv false (.filled NUL) (delivery 0 BUFSIZE) datedVersion

theorem firstFetch_enabled : (cacheSystem siteOfA datedVersion).enabled ⟨datedVersion, none⟩ firstFetch where
  rootDir := rfl
  succeeds := ⟨fun _ => rfl, fun _ => rfl⟩
  dates := rfl
  found := rfl
  opens := rfl
  received := by decide +kernel
  inFull :=
    inFull_of_all (fun c hc => (List.mem_append.mp hc).elim (delivery_full (by decide) c) (turns_full (by decide) c))
      (by decide +kernel)
  returned := ⟨0, by decide +kernel⟩

theorem secondFetch_enabled : (cacheSystem siteOfA datedVersion).enabled
    ((cacheSystem siteOfA datedVersion).next ⟨datedVersion, none⟩ firstFetch) secondFetch where
  rootDir := rfl
  succeeds := ⟨fun _ => rfl, fun _ => rfl⟩
  dates := rfl
  found := rfl
  opens := rfl
  received := by decide +kernel
  inFull := inFull_of_all (delivery_full (by decide)) (by decide +kernel)
  returned := ⟨0, by decide +kernel⟩

theorem fetched_current_example :
    ((siteOfA.answer ((cacheSystem siteOfA datedVersion).next ⟨datedVersion, none⟩ firstFetch).copy dateEnv
      (.filled NUL) (delivery 0 BUFSIZE)).wire = HttpHeader.text { status := .notModified } .epoch →
        ∃ c ∈ ((cacheSystem siteOfA datedVersion).next ⟨datedVersion, none⟩ firstFetch).copy, c.body = str "hello") ∧
    ((∃ c ∈ ((cacheSystem siteOfA datedVersion).next
        ((cacheSystem siteOfA datedVersion).next ⟨datedVersion, none⟩ firstFetch) secondFetch).copy,
        c.body = str "hello") ∨
      (100 : Int) < 100 ∧ ((cacheSystem siteOfA datedVersion).next
        ((cacheSystem siteOfA datedVersion).next ⟨datedVersion, none⟩ firstFetch) secondFetch).copy =
          if 5 < 5 then ((cacheSystem siteOfA datedVersion).next ⟨datedVersion, none⟩ firstFetch).copy
          else some ⟨lastModified datedVersion.inode, (str "hello").take 5⟩) :=
  fetched_current (.step .init firstFetch_enabled (Or.inl rfl)) secondFetch_enabled (Or.inl rfl)

/-- A file that the client has asked for already is not sent again as long as it stays as it is, exactly when its time
    is not 0, its year is one from 0 to 9999, and `tm_isdst` does not happen to be positive. -/
theorem confirmed_again_iff {site : Site} {file opened : Version} {s : CacheState} {env env' : Env}
    {isdst isdst' : Bool} {old old' : Buffer} {sched sched' : Schedule}
    (h : (cacheSystem site file).ReachesBy ModifiedLater s) (hf : Fetches site s env isdst old sched s.file)
    (hf' : Fetches site ((cacheSystem site file).next s (.fetch env isdst old sched s.file))
      env' isdst' old' sched' opened) :
    (site.answer ((cacheSystem site file).next s (.fetch env isdst old sched s.file)).copy env' old' sched').wire =
      HttpHeader.text { status := .notModified } env'.now ↔
        isdst' = false ∧ s.file.time.secs ≠ 0 ∧ YearIsRead s.file.time := by
  have hfresh := fresh_of_reaches h
  have hnext : Fresh ((cacheSystem site file).next s (.fetch env isdst old sched s.file)) :=
    fresh_step (a := .fetch env isdst old sched s.file) hfresh hf (Or.inl rfl)
  obtain ⟨c, hc, st, hst, htime⟩ := date_after_fetch hfresh hf
  have hcopy : ((cacheSystem site file).next s (.fetch env isdst old sched s.file)).copy = some c := hc
  have hfile : ((cacheSystem site file).next s (.fetch env isdst old sched s.file)).file = s.file := rfl
  rw [wire_eq_iff hnext.dated hf', hcopy, confirmed_iff hst, hfile, htime]
  unfold dstHour
  cases isdst' with
  | false =>
    simp only [Bool.false_eq_true, if_false, Int.sub_zero, Int.le_refl, Int.sub_self, true_and]
    constructor
    · rintro ⟨hyear, hne, -⟩
      exact ⟨hne, hyear⟩
    · rintro ⟨hne, hyear⟩
      exact ⟨hyear, hne, by decide⟩
  | true =>
    refine iff_of_false ?_ nofun
    rintro ⟨-, -, hle, -⟩
    rw [if_pos rfl] at hle
    omega

theorem confirmed_again_iff_example :
    (siteOfA.answer ((cacheSystem siteOfA datedVersion).next ⟨datedVersion, none⟩ firstFetch).copy dateEnv (.filled NUL)
      (delivery 0 BUFSIZE)).wire = HttpHeader.text { status := .notModified } .epoch ↔
        false = false ∧ datedVersion.time.secs ≠ 0 ∧ YearIsRead datedVersion.time :=
  confirmed_again_iff .init firstFetch_enabled secondFetch_enabled

end Distsys.Tinyweb
