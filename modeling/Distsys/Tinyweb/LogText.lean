import Distsys.Lib.Fields
import Distsys.Tinyweb.AccessLog
import Distsys.Tinyweb.HeaderLines

/-! The lines of the access log read back. The path is printed as it is, so a reader finds the fields in front of it
    from the left and those behind it from the right. -/

namespace Distsys.Tinyweb

/-! ### Reading a line -/

/-- A text that is a number and nothing else. -/
def wholeInt (s : Bytes) : Option Int := (scanInt s).bind fun p => if p.2 = [] then some p.1 else none

/-- The fields in front of the path, and what follows them. -/
def readBefore (s : Bytes) : Option ((Int × Bytes × Int × Bytes × Bytes) × Bytes) := do
  let (pid, s) ← scanInt (← s.dropPrefix? (str "["))
  let (address, s) ← cut 0x3A (← s.dropPrefix? (str "] "))
  let (portNumber, s) ← scanInt s
  let (date, s) ← cut 0x5D (← s.dropPrefix? (str " - - ["))
  let (method, s) ← cut SP (← s.dropPrefix? (str " \""))
  return ((pid, address, portNumber, date, method), s.drop (7 - method.length))

/-- The path and the fields behind it. -/
def readBehind (s : Bytes) : Option (Bytes × Bytes × Int × Int) := do
  let (s, size) ← cutLast SP (← s.dropSuffix? [LF])
  let (s, code) ← cutLast SP s
  let (filepath, protocol) ← cutLast SP (← s.dropSuffix? (str "\""))
  return (filepath, protocol, ← wholeInt code, ← wholeInt size)

/-- A line that is read, with all its fields. -/
def readLogEntry (s : Bytes) : Option LogEntry := do
  let ((pid, address, portNumber, date, method), s) ← readBefore s
  let (filepath, protocol, code, size) ← readBehind s
  return { pid, address, portNumber, date, method, filepath, protocol, code, size }

/-- Each field but the path lacks the byte that ends it. -/
structure LogEntry.Plain (e : LogEntry) : Prop where
  address : 0x3A ∉ e.address
  date : 0x5D ∉ e.date
  method : SP ∉ e.method
  protocol : SP ∉ e.protocol

section Reading
variable {e : LogEntry} {s : Bytes} {z : Int} {n : Nat} {c : UInt8}

theorem wholeInt_decimalInt : wholeInt (decimalInt z) = some z := by
  have hscan : scanInt (decimalInt z ++ []) = some (z, []) := scanInt_decimalInt (by simp [StopsDigits])
  rw [List.append_nil] at hscan
  rw [wholeInt, hscan]
  rfl

theorem wholeInt_eq_none (u : Bytes) (hc : isdigit c = false) : wholeInt (u ++ [c]) = none := by
  refine Option.eq_none_iff_forall_ne_some.mpr fun z hz => ?_
  obtain ⟨⟨z', t⟩, hscan, hz⟩ := Option.bind_eq_some_iff.mp hz
  obtain ⟨sign, w, hw, hsign, hne, hdigits⟩ := scanInt_eq_some hscan
  have ht : t = [] := by
    by_contra ht
    rw [if_neg ht] at hz
    cases hz
  subst ht
  obtain ⟨w, d, rfl⟩ := List.eq_nil_or_concat w |>.resolve_left hne
  have hlast : u ++ [c] = (sign ++ w) ++ [d] := by rw [hw]; simp
  have hd : isdigit d = true := hdigits d (by simp)
  obtain ⟨-, hcd⟩ := List.append_inj' hlast rfl
  obtain rfl := List.singleton_inj.mp hcd
  exact absurd hd (by simp [hc])

/-- The fields in front of the path. -/
def LogEntry.before (e : LogEntry) : Bytes :=
  str "[" ++ decimalInt e.pid ++ str "] " ++ e.address ++ str ":" ++ decimalInt e.portNumber ++ str " - - [" ++
    e.date ++ str "] \"" ++ leftJustify 7 e.method ++ str " "

/-- The fields behind the path, without the line end. -/
def LogEntry.behind (e : LogEntry) : Bytes :=
  str " " ++ e.protocol ++ str "\" " ++ decimalInt e.code ++ str " " ++ decimalInt e.size

theorem text_eq (e : LogEntry) : e.text = e.before ++ e.filepath ++ e.behind ++ [LF] := by
  unfold LogEntry.text LogEntry.before LogEntry.behind
  simp only [List.append_assoc]

theorem readBehind_text (filepath : Bytes) (h : SP ∉ e.protocol) :
    readBehind (filepath ++ e.behind ++ [LF]) = some (filepath, e.protocol, e.code, e.size) := by
  have hnumber : ∀ z : Int, SP ∉ decimalInt z := fun z => not_mem_decimalInt (by decide) (by decide)
  have hquote : str "\" " = str "\"" ++ [SP] := by decide
  have hspace : str " " = [SP] := by decide
  have hend : filepath ++ e.behind = (filepath ++ SP :: e.protocol ++ str "\"" ++ SP :: decimalInt e.code) ++ SP ::
      decimalInt e.size := by
    simp [LogEntry.behind, hquote, hspace]
  simp only [readBehind, dropSuffix_append, hend, cutLast_append (hnumber _), cutLast_append h, wholeInt_decimalInt,
    Option.bind_eq_bind, Option.bind_some, Option.pure_def]

theorem readBefore_text (h : e.Plain) :
    readBefore (e.before ++ s) = some ((e.pid, e.address, e.portNumber, e.date, e.method), s) := by
  have hcolon : str ":" = [0x3A] := by decide
  have hbracket : str "] \"" = 0x5D :: str " \"" := by decide
  -- The blanks that fill the field stand behind the one that ends it as well.
  have hmethod : leftJustify 7 e.method ++ (str " " ++ s) =
      e.method ++ SP :: (List.replicate (7 - e.method.length) SP ++ s) := by
    have hspace : str " " = [SP] := by decide
    rw [leftJustify, List.append_assoc, hspace, ← List.append_assoc (List.replicate _ _), ← List.replicate_succ',
      List.replicate_succ]
    rfl
  have hpid : ∀ t, StopsDigits (str "] " ++ t) := fun t c hc => Option.some.inj hc ▸ by decide
  have hport : ∀ t, StopsDigits (str " - - [" ++ t) := fun t c hc => Option.some.inj hc ▸ by decide
  have hblanks : (List.replicate (7 - e.method.length) SP ++ s).drop (7 - e.method.length) = s :=
    List.drop_left' List.length_replicate
  simp only [readBefore, LogEntry.before, List.append_assoc, dropPrefix_append, hmethod, scanInt_decimalInt (hpid _),
    scanInt_decimalInt (hport _), hcolon, hbracket, List.nil_append, List.cons_append, cut_append h.address,
    cut_append h.date, cut_append h.method, hblanks, Option.bind_eq_bind, Option.bind_some, Option.pure_def]

/-- A line is read back whatever its path is. -/
theorem readLogEntry_text (h : e.Plain) : readLogEntry e.text = some e := by
  have hsplit : e.text = e.before ++ (e.filepath ++ e.behind ++ [LF]) := by rw [text_eq]; simp
  rw [hsplit, readLogEntry, readBefore_text h]
  simp only [Option.bind_eq_bind, Option.bind_some, readBehind_text e.filepath h.protocol]
  rfl

/-! Pieces of a line that are read as none. -/

/-- What is read has a space, and a colon behind its first space. -/
theorem readBefore_eq_some {r : (Int × Bytes × Int × Bytes × Bytes) × Bytes} (h : readBefore s = some r) :
    ∃ u v, s = u ++ SP :: v ∧ SP ∉ u ∧ 0x3A ∈ v := by
  simp only [readBefore, Option.bind_eq_bind, Option.bind_eq_some_iff] at h
  obtain ⟨s₁, h₁, ⟨pid, s₂⟩, h₂, s₃, h₃, ⟨address, s₄⟩, h₄, -⟩ := h
  obtain ⟨p, rfl, hp⟩ := List.dropPrefix?_eq_some_iff.mp h₁
  obtain ⟨sign, w, rfl, hsign, -, hw⟩ := scanInt_eq_some h₂
  obtain ⟨p', rfl, hp'⟩ := List.dropPrefix?_eq_some_iff.mp h₃
  obtain rfl := eq_of_beq hp
  obtain rfl := eq_of_beq hp'
  have hbracket : str "] " = [0x5D, SP] := by decide
  refine ⟨str "[" ++ (sign ++ w) ++ [0x5D], s₃, by rw [hbracket]; simp, ?_, by rw [cut_eq_some h₄]; simp⟩
  have hopen : SP ∉ str "[" := by decide
  have hdigits : SP ∉ w := fun h => absurd (hw SP h) (by decide)
  have hminus : SP ∉ sign := by
    rcases hsign with rfl | rfl
    · exact nofun
    · decide
  simp only [List.mem_append, List.mem_singleton, not_or]
  exact ⟨⟨hopen, hminus, hdigits⟩, by decide⟩

theorem readLogEntry_of_no_space (hs : SP ∉ s) : readLogEntry s = none := by
  refine Option.eq_none_iff_forall_ne_some.mpr fun e he => ?_
  obtain ⟨r, hr, -⟩ := Option.bind_eq_some_iff.mp he
  obtain ⟨u, v, rfl, -⟩ := readBefore_eq_some hr
  exact hs (by simp)

/-- The end of a line, behind a text without a space. -/
theorem readLogEntry_behind (hs : SP ∉ s) (hcolon : 0x3A ∉ e.protocol) :
    readLogEntry (s ++ e.behind ++ [LF]) = none := by
  refine Option.eq_none_iff_forall_ne_some.mpr fun e' he => ?_
  obtain ⟨r, hr, -⟩ := Option.bind_eq_some_iff.mp he
  obtain ⟨u, v, hsplit, hu, hv⟩ := readBefore_eq_some hr
  have hspace : str " " = [SP] := by decide
  have hbehind : s ++ e.behind ++ [LF] = s ++ SP :: (e.protocol ++ str "\" " ++ decimalInt e.code ++ [SP] ++
      decimalInt e.size ++ [LF]) := by
    simp [LogEntry.behind, hspace]
  have hcut : cut SP (u ++ SP :: v) = _ := hsplit ▸ hbehind ▸ cut_append hs
  rw [cut_append hu] at hcut
  obtain ⟨rfl, rfl⟩ := Prod.mk.inj (Option.some.inj hcut)
  have hnumber : ∀ z : Int, 0x3A ∉ decimalInt z := fun z => not_mem_decimalInt (by decide) (by decide)
  have hquote : 0x3A ∉ str "\" " ∧ 0x3A ∉ [SP] ∧ 0x3A ∉ [LF] := by decide
  simp only [List.mem_append, hcolon, hnumber, hquote, or_self] at hv

/-- The start of a line, up to a byte that ends no number. -/
theorem readLogEntry_before (h : e.Plain) (hc : isdigit c = false) (hsp : c ≠ SP) :
    readLogEntry (e.before ++ (s ++ [c]) ++ [LF]) = none := by
  have hbehind : readBehind (s ++ [c] ++ [LF]) = none := by
    refine Option.eq_none_iff_forall_ne_some.mpr fun r hr => ?_
    simp only [readBehind, dropSuffix_append, Option.bind_eq_bind, Option.bind_some, Option.bind_eq_some_iff] at hr
    obtain ⟨⟨t, size⟩, hcut, _, -, _, -, _, -, _, -, z, hz, -⟩ := hr
    have hsplit := cutLast_eq_some hcut
    rcases List.eq_nil_or_concat size with rfl | ⟨size, d, rfl⟩
    · exact hsp (List.singleton_inj.mp (List.append_inj' hsplit rfl).2)
    · have hsplit : s ++ [c] = (t ++ SP :: size) ++ [d] := by rw [hsplit]; simp
      obtain rfl := List.singleton_inj.mp (List.append_inj' hsplit rfl).2
      rw [List.concat_eq_append, wholeInt_eq_none size hc] at hz
      cases hz
  rw [List.append_assoc, readLogEntry, readBefore_text h]
  simp only [Option.bind_eq_bind, Option.bind_some, hbehind]
  rfl

end Reading

/-! ### The lines of a request -/

/-- The status, the path and the file status that an answer logs. -/
def Answer.logged : Answer → Option (HttpStatus × Option Bytes × Option Inode)
  | .reply status filepath fstat => some (status, filepath, fstat)
  | .redirect filepath fstat => some (.movedPermanently, some filepath, some fstat)
  | .head filepath fstat => some (.ok, some filepath, some fstat)
  | .file status filepath fstat => some (status, some filepath, some fstat)
  | .cgi _ | .fault _ => none

/-- The run logs nothing, or one line with these values and the length of some header. -/
def LogsAs (q : ParsedHeader) (values : HttpStatus × Option Bytes × Option Inode) (run : Run) : Prop :=
  run.logs = [] ∨ ∃ text, run.logs = [writeLog values.1 q values.2.1 values.2.2 text]

section Logs
variable {env : Env} {q : ParsedHeader} {status : HttpStatus} {filepath : Option Bytes} {path text : Bytes}
  {fstat : Option Inode} {st : Inode} {sched : Schedule} {data : HttpHeader} {next : Run} {a : Answer} {line : LogLine}

theorem logs_logThen (h : next.logs = []) : (logThen env line next).logs = [line] := by
  unfold logThen
  split
  · rw [logs_after, h]
    rfl
  · rfl

theorem logsAs_reply : LogsAs q (data.status, filepath, fstat) (reply env q data filepath fstat sched) := by
  rw [reply_eq]
  split
  · exact Or.inr ⟨_, logs_logThen rfl⟩
  · exact Or.inl rfl

theorem logsAs_redirect : LogsAs q (.movedPermanently, some path, some st) (redirect env q path st sched) := by
  rw [redirect_eq]
  split
  · exact logsAs_reply
  · exact Or.inl rfl

theorem logsAs_replyHead : LogsAs q (.ok, some path, some st) (replyHead env q path st sched) := by
  rw [replyHead_eq]
  split
  · exact Or.inr ⟨_, logs_logThen rfl⟩
  · exact Or.inl rfl

theorem logs_sendBody : (sendBody env q path sched).logs = [] := by
  refine List.filterMap_eq_nil_iff.mpr fun e he => ?_
  rcases mem_sendBody he with rfl | ⟨count, accepted, rfl⟩
  · rfl
  · rfl

theorem logsAs_sendFile : LogsAs q (status, some path, some st) (sendFile env q status path st sched) := by
  rw [sendFile_eq]
  split
  · unfold LogsAs
    rw [logs_after]
    unfold afterHeader
    split
    · exact Or.inl rfl
    · exact Or.inr ⟨_, logs_logThen logs_sendBody⟩
  · exact Or.inl rfl

theorem logs_runCgi : (runCgi env path).logs = [] := by
  refine List.filterMap_eq_nil_iff.mpr fun e he => ?_
  obtain ⟨header, command, rfl⟩ := mem_runCgi he
  rfl

theorem logsAs_perform (env : Env) (q : ParsedHeader) (sched : Schedule) (a : Answer) :
    (perform env q sched a).logs = [] ∨ ∃ values, a.logged = some values ∧ LogsAs q values (perform env q sched a) := by
  cases a with
  | reply status filepath fstat => exact Or.inr ⟨_, rfl, logsAs_reply⟩
  | redirect filepath fstat => exact Or.inr ⟨_, rfl, logsAs_redirect⟩
  | head filepath fstat => exact Or.inr ⟨_, rfl, logsAs_replyHead⟩
  | file status filepath fstat => exact Or.inr ⟨_, rfl, logsAs_sendFile⟩
  | cgi filepath =>
    have hrun : perform env q sched (.cgi filepath) = runCgi env filepath := rfl
    rw [hrun]
    exact Or.inl logs_runCgi
  | fault f => exact Or.inl rfl

/-- A line that is logged is the only one of its request, and has the values of its answer. -/
theorem logged_once (hl : line ∈ (perform env q sched a).logs) : (perform env q sched a).logs = [line] ∧
    ∃ values text, a.logged = some values ∧ line = writeLog values.1 q values.2.1 values.2.2 text := by
  rcases logsAs_perform env q sched a with hnil | ⟨values, hv, hnil | ⟨text, hone⟩⟩
  · rw [hnil] at hl
    cases hl
  · rw [hnil] at hl
    cases hl
  · rw [hone] at hl ⊢
    obtain rfl := List.mem_singleton.mp hl
    exact ⟨rfl, values, text, hv, rfl⟩

end Logs

/-! ### The strings of an accepted request -/

/-- The strings that the parser cuts out of an accepted request. Behind a tab the file name goes over a line end, up
    to the next space. -/
structure Accepts.Strings (l : RequestLine) (q : ParsedHeader) (file : Bytes) : Prop where
  method : q.method = .text l.method
  filename : q.filename = .text file
  protocol : q.protocol = .text (str "HTTP/1.1")
  cut : l.blank₂ = SP ∧ LF ∉ file ∨
    l.blank₂ = HT ∧ SP ∉ file ∧ ∃ u, file = l.path ++ HT :: (l.version ++ [CR]) ++ LF :: u

section Strings
variable {lib : Libc} {buffer rest file v : Bytes} {l : RequestLine} {q : ParsedHeader}

theorem exists_accepts (h : parseHttpHeader lib buffer = .ok q) (ha : Accepted q.httpState) :
    ∃ l rest, Accepts lib buffer l rest q := by
  obtain ⟨-, -, l, rest, _, _, hc, hrest, -⟩ := parseHttpHeader_accepted_ok h ha
  exact ⟨l, rest, hc, hrest, h, ha⟩

theorem RequestLine.tabbed_no_SP (l : RequestLine) : ∀ c ∈ l.path ++ HT :: (l.version ++ [CR]), (c == SP) = false := by
  intro c hc
  simp only [List.mem_append, List.mem_cons, List.not_mem_nil, or_false] at hc
  rcases hc with hc | rfl | hc | rfl
  · exact l.path_no_SP c hc
  · decide
  · exact not_delim_of_isgraph (by decide) (fun _ => isgraph_of_mem_version) c hc
  · decide

/-- A token that a tab has led past the request line has its line end. -/
theorem strtok_tabbed (h : strtok (· == SP) (l.path ++ HT :: (l.version ++ CR :: rest)) = some (file, v)) (hv : v ≠ [])
    (hrest : ∀ c ∈ rest.head?, c = LF) : ∃ u, file = l.path ++ HT :: (l.version ++ [CR]) ++ LF :: u := by
  have hsplit : l.path ++ HT :: (l.version ++ CR :: rest) = (l.path ++ HT :: (l.version ++ [CR])) ++ rest := by simp
  rw [hsplit] at h
  cases rest with
  | nil =>
    rw [List.append_nil, strtok_all l.tabbed_no_SP (by simp)] at h
    exact absurd (Prod.mk.inj (Option.some.inj h)).2.symm hv
  | cons c rest =>
    obtain rfl := hrest c rfl
    rcases strtok_cases l.tabbed_no_SP (by simp) h with ⟨hsp, -⟩ | ⟨-, hu⟩
    · exact absurd hsp (by decide)
    · exact hu

theorem Accepts.strings (h : Accepts lib buffer l rest q) : ∃ file, Accepts.Strings l q file := by
  obtain ⟨-, m, t, r, ⟨u, v, hm, hfile, hv⟩, hs, rfl⟩ := (accepted_iff h.header).mp ⟨h.parse, h.accepted⟩
  have hht : HT ∉ m := by
    rcases hs.get_or_head with rfl | rfl
    · decide
    · decide
  obtain ⟨-, rfl, rfl⟩ := strtok_method hm hht
  have hne : v ≠ [] := by
    rintro rfl
    cases hv
  refine ⟨_, rfl, rfl, rfl, ?_⟩
  rcases strtok_path hfile with ⟨-, ⟨hb₂, rfl, -⟩ | ⟨hb₂, -, hlen⟩⟩
  · refine Or.inl ⟨hb₂, ?_⟩
    simp only [l.path_length]
    split
    · decide
    · exact fun hmem => absurd (isgraph_of_mem_path hmem) (by decide)
  · rw [if_neg hlen]
    obtain ⟨-, hno, -⟩ := strtok_eq_some hfile
    rw [hb₂] at hfile
    exact Or.inr ⟨hb₂, fun hmem => by simpa using hno SP hmem, strtok_tabbed hfile hne h.newline⟩

end Strings

/-! ### The bytes of a line -/

section Bytes
variable {c : UInt8} {now : ClockTime}

/-- A name out of a table of letters, or a question mark. -/
theorem not_mem_name {names : List Bytes} {i : Nat} (h : ∀ w ∈ names, w.all isalnum = true) (hc : isalnum c = false)
    (hmark : c ∉ str "?") : c ∉ (names[i]?).getD (str "?") := by
  cases hi : names[i]? with
  | none => exact hmark
  | some w =>
    have hall := List.all_eq_true.mp (h w (List.mem_of_getElem? hi))
    exact fun hmem => ne_of_class (hall c hmem) hc rfl

/-- A printed time has letters and digits, and few other bytes. -/
theorem not_mem_strftime (hc : isalnum c = false) (hother : c ∉ str ", :-?") : c ∉ strftime now.civil := by
  have hdigit : isdigit c = false := by
    cases h : isdigit c with
    | false => rfl
    | true => exact absurd (isalnum_of_isdigit h) (by simp [hc])
  have hlist : str ", :-?" = str ", " ++ str ":" ++ [0x2D] ++ str "?" := by decide
  simp only [hlist, List.mem_append, List.mem_singleton, not_or] at hother
  obtain ⟨⟨⟨hcomma, hcolon⟩, hsign⟩, hmark⟩ := hother
  have hspace : c ∉ str " " := fun h => hcomma (List.mem_cons_of_mem _ h)
  have htwo : ∀ n, c ∉ twoDigits n := fun n h => ne_of_class (isdigit_of_mem_twoDigits h) hdigit rfl
  have hday : c ∉ dayName now.civil.wday := not_mem_name (by decide) hc hmark
  have hmonth : c ∉ monthName now.civil.mon := not_mem_name (by decide) hc hmark
  simp only [strftime, List.mem_append, not_or]
  simp only [hday, hmonth, hcomma, hcolon, hspace, htwo, not_mem_decimalInt hdigit hsign, not_false_eq_true, and_self]

end Bytes

section Entry
variable {e : LogEntry} {w : LogWriter} {line : LogLine} {l : RequestLine} {path : Bytes}

/-- A line with the strings of an accepted request is printed from these arguments. -/
theorem LogWriter.entry_eq (hm : line.method = .text l.method) (hf : line.filepath = some path)
    (hp : line.protocol = .text (str "HTTP/1.1")) : w.entry line = some {
      pid := w.pid
      address := inetNtop w.client.sinAddr
      portNumber := w.client.sinPort.toNat
      date := logDate w.now
      method := l.method
      filepath := path
      protocol := str "HTTP/1.1"
      code := (httpStatusList line.status).code
      size := line.size.getD w.unsetSize } := by
  simp only [LogWriter.entry, hm, hf, hp]

/-- A line that is printed for a path: its other fields keep the reader on its way, and have no line end. -/
structure LogEntry.OfPath (e : LogEntry) (path : Bytes) : Prop where
  filepath : e.filepath = path
  protocol : e.protocol = str "HTTP/1.1"
  plain : e.Plain
  before : LF ∉ e.before
  behind : LF ∉ e.behind

theorem ofPath_of_entry (hm : line.method = .text l.method) (hf : line.filepath = some path)
    (hp : line.protocol = .text (str "HTTP/1.1")) (he : w.entry line = some e) : e.OfPath path := by
  obtain rfl := Option.some.inj ((LogWriter.entry_eq hm hf hp).symm.trans he)
  have hzone : 0x5D ∉ str " +0200" := by decide
  have haddress : LF ∉ inetNtop w.client.sinAddr := not_mem_inetNtop (by decide) (by decide)
  have hdate : LF ∉ logDate w.now := LF_not_mem_logDate w.now
  have hmethod : LF ∉ leftJustify 7 l.method := by
    simp only [leftJustify, List.mem_append, List.mem_replicate, not_or, not_and]
    exact ⟨fun h => absurd (isgraph_of_mem_method h) (by decide), fun _ => by decide⟩
  have hliterals : LF ∉ str "[" ∧ LF ∉ str "] " ∧ LF ∉ str ":" ∧ LF ∉ str " - - [" ∧ LF ∉ str "] \"" ∧ LF ∉ str " " ∧
      LF ∉ str "HTTP/1.1" ∧ LF ∉ str "\" " := by
    decide
  have hprotocol : SP ∉ str "HTTP/1.1" := by decide
  refine ⟨rfl, rfl, ⟨not_mem_inetNtop (by decide) (by decide), ?_, fun h => by
    simpa using l.method_no_SP _ h, hprotocol⟩, ?_, ?_⟩
  · simp only [logDate_eq, List.mem_append, not_or]
    exact ⟨not_mem_strftime (by decide) (by decide), hzone⟩
  · simp only [LogEntry.before, List.mem_append, LF_not_mem_decimalInt, haddress, hdate, hmethod, hliterals, or_self,
      not_false_eq_true]
  · simp only [LogEntry.behind, List.mem_append, LF_not_mem_decimalInt, hliterals, or_self, not_false_eq_true]

/-- The entries that are read in a log, line by line. -/
def readLog (log : Bytes) : List LogEntry := (entries LF log).filterMap fun line => readLogEntry (line ++ [LF])

theorem readLog_append_text (e : LogEntry) (log : Bytes) : readLog (e.text ++ log) =
    ((e.before ++ e.filepath ++ e.behind).splitOn LF).filterMap (fun line => readLogEntry (line ++ [LF])) ++
      readLog log := by
  rw [text_eq, List.append_assoc _ [LF], List.singleton_append, readLog, entries_append_cons, List.filterMap_append,
    readLog]

/-- A line with a path on one line is read back as a whole. -/
theorem readLog_oneLine (h : e.OfPath path) (hno : LF ∉ path) (log : Bytes) :
    readLog (e.text ++ log) = e :: readLog log := by
  have hone : LF ∉ e.before ++ e.filepath ++ e.behind := by
    simp only [List.mem_append, h.filepath, h.before, h.behind, hno, or_self, not_false_eq_true]
  have hread : readLogEntry (e.before ++ e.filepath ++ e.behind ++ [LF]) = some e := by
    rw [← text_eq]
    exact readLogEntry_text h.plain
  rw [readLog_append_text, List.splitOn_eq_singleton hone]
  simp only [List.filterMap_cons, List.filterMap_nil, hread, List.singleton_append]

/-- Of a path that goes over a line end none of the pieces is read: the first ends in a CR, and the others have no space
    in front of the protocol. -/
theorem readLog_pieces {x u : Bytes} (h : e.OfPath (x ++ [CR] ++ LF :: u)) (hx : LF ∉ x) (hu : SP ∉ u) (log : Bytes) :
    readLog (e.text ++ log) = readLog log := by
  have hfirst : LF ∉ e.before ++ (x ++ [CR]) := by
    have hcr : LF ∉ [CR] := by decide
    simp only [List.mem_append, h.before, hx, hcr, or_self, not_false_eq_true]
  have hsplit : e.before ++ e.filepath ++ e.behind = (e.before ++ (x ++ [CR])) ++ LF :: (u ++ e.behind) := by
    simp [h.filepath]
  have hcolon : 0x3A ∉ e.protocol := by
    have hprotocol : 0x3A ∉ str "HTTP/1.1" := by decide
    rwa [h.protocol]
  rw [readLog_append_text, hsplit, List.splitOn_append_cons_self_of_not_mem hfirst]
  have hnone : ∀ piece ∈ (e.before ++ (x ++ [CR])) :: (u ++ e.behind).splitOn LF, readLogEntry (piece ++ [LF]) =
      none := by
    intro piece hpiece
    rcases List.mem_cons.mp hpiece with rfl | hpiece
    · exact readLogEntry_before h.plain (by decide) (by decide)
    · rcases mem_splitOn_append h.behind hpiece with hpiece | ⟨f, hf, rfl⟩
      · refine readLogEntry_of_no_space ?_
        have hno : SP ∉ piece := fun hmem => hu (mem_of_mem_splitOn hpiece hmem)
        have hlf : SP ∉ [LF] := by decide
        simp only [List.mem_append, hno, hlf, or_self, not_false_eq_true]
      · exact readLogEntry_behind (fun hmem => hu (mem_of_mem_splitOn hf hmem)) hcolon
  rw [List.filterMap_eq_nil_iff.mpr hnone, List.nil_append]

end Entry

/-! ### The line of a run -/

section Run
variable {env : Env} {buffer : Buffer} {sched : Schedule} {line : LogLine} {q : ParsedHeader} {path rest : Bytes}
  {l : RequestLine}

theorem dispatchFile_logged {st : Inode} {values : HttpStatus × Option Bytes × Option Inode}
    (h : (dispatchFile q path st).logged = some values) : values.2.1 = some path := by
  rcases dispatchFile_cases q path st with ⟨_, h', -⟩ | ⟨_, h'⟩ | h' | ⟨h', -⟩ | h' <;> rw [h'] at h <;> cases h <;> rfl

/-- A line whose strings are set is that of an accepted request. -/
theorem readable_accepted (hl : line ∈ (serve env buffer sched).logs) (hr : line.isReadable = true) :
    ∃ l rest q, Accepts env.libc buffer.bytes l rest q := by
  cases hq : parseHttpHeader env.libc buffer.bytes with
  | error f =>
    simp only [serve, hq] at hl
    cases hl
  | ok q =>
    rw [serve_eq hq] at hl
    obtain ⟨-, values, text, hv, rfl⟩ := logged_once hl
    have ha : Accepted q.httpState := by
      by_contra ha
      rw [dispatch_of_not_accepted ha] at hv
      cases hv
      simp only [LogLine.isReadable, writeLog, Option.isSome_none, Bool.and_false, Bool.false_and, Bool.false_eq_true]
        at hr
    obtain ⟨l, rest, hacc⟩ := exists_accepts hq ha
    exact ⟨l, rest, q, hacc⟩

/-- It has the path of the file, which fits its array. -/
theorem readable_line (hacc : Accepts env.libc buffer.bytes l rest q) (hl : line ∈ (serve env buffer sched).logs) :
    ∃ file, Accepts.Strings l q file ∧ env.rootDir.length + file.length < BUFSIZE ∧
      line.method = .text l.method ∧ line.filepath = some (env.rootDir ++ file) ∧
      line.protocol = .text (str "HTTP/1.1") := by
  rw [serve_eq hacc.parse] at hl
  obtain ⟨-, values, text, hv, rfl⟩ := logged_once hl
  obtain ⟨file, hs⟩ := hacc.strings
  refine ⟨file, hs, ?_⟩
  rcases dispatch_cases env hacc.accepted hs.filename with ⟨-, hd⟩ | ⟨hlen, ⟨-, hd⟩ | ⟨st, -, hd⟩⟩ <;> rw [hd] at hv
  · cases hv
  · cases hv
    exact ⟨hlen, hs.method, rfl, hs.protocol⟩
  · exact ⟨hlen, hs.method, dispatchFile_logged hv, hs.protocol⟩

end Run

/-! ### The log of any requests -/

/-- A request that was logged, with the arguments of its line. -/
structure LoggedRequest where
  env : Env
  buffer : Buffer
  sched : Schedule
  line : LogLine
  entry : LogEntry
  logged : line ∈ (serve env buffer sched).logs
  readable : line.isReadable = true
  printed : env.writer.entry line = some entry
  rootDir : LF ∉ env.rootDir

/-- The path that is logged is on one line. -/
def LoggedRequest.isOneLine (r : LoggedRequest) : Bool := decide (LF ∉ r.entry.filepath)

section Log
variable {r : LoggedRequest} {l : RequestLine} {rest : Bytes} {q : ParsedHeader}

/-- The arguments of the line, and the path on one line or over a line end. -/
theorem LoggedRequest.ofPath (hacc : Accepts r.env.libc r.buffer.bytes l rest q) : ∃ path, r.entry.OfPath path ∧
    (l.blank₂ = SP ∧ LF ∉ path ∨ l.blank₂ = HT ∧ ∃ x u, path = x ++ [CR] ++ LF :: u ∧ LF ∉ x ∧ SP ∉ u) := by
  obtain ⟨file, hs, -, hm, hf, hp⟩ := readable_line hacc r.logged
  refine ⟨_, ofPath_of_entry hm hf hp r.printed, ?_⟩
  rcases hs.cut with ⟨hb₂, hno⟩ | ⟨hb₂, hsp, u, rfl⟩
  · exact Or.inl ⟨hb₂, by simp [r.rootDir, hno]⟩
  · refine Or.inr ⟨hb₂, r.env.rootDir ++ (l.path ++ HT :: l.version), u, by simp, ?_, fun hu => hsp (by simp [hu])⟩
    have hpath : LF ∉ l.path := fun h => absurd (isgraph_of_mem_path h) (by decide)
    have hversion : LF ∉ l.version := fun h => absurd (isgraph_of_mem_version h) (by decide)
    have hht : LF ≠ HT := by decide
    simp only [List.mem_append, List.mem_cons, r.rootDir, hpath, hversion, hht, or_self, not_false_eq_true]

theorem LoggedRequest.isOneLine_iff (hacc : Accepts r.env.libc r.buffer.bytes l rest q) :
    r.isOneLine = true ↔ l.blank₂ = SP := by
  obtain ⟨path, hpath, ⟨hb₂, hno⟩ | ⟨hb₂, x, u, rfl, -⟩⟩ := LoggedRequest.ofPath hacc
  · rw [isOneLine, hpath.filepath, decide_eq_true_eq]
    exact iff_of_true hno hb₂
  · rw [isOneLine, hpath.filepath, decide_eq_true_eq, hb₂]
    exact iff_of_false (by simp) (by decide)

/-- What one request leaves in the log is read as its entry, or not at all. -/
theorem readLog_text (r : LoggedRequest) (log : Bytes) :
    readLog (r.entry.text ++ log) = (if r.isOneLine then [r.entry] else []) ++ readLog log := by
  obtain ⟨l, rest, q, hacc⟩ := readable_accepted r.logged r.readable
  have hiff := LoggedRequest.isOneLine_iff hacc
  obtain ⟨path, hpath, ⟨hb₂, hno⟩ | ⟨hb₂, x, u, rfl, hx, hu⟩⟩ := LoggedRequest.ofPath hacc
  · rw [if_pos (hiff.mpr hb₂)]
    exact readLog_oneLine hpath hno log
  · have hfalse : ¬r.isOneLine = true := by
      rw [hiff, hb₂]
      decide
    rw [if_neg hfalse]
    exact readLog_pieces hpath hx hu log

theorem length_int_le {z : Int} (h : -2 ^ 31 ≤ z ∧ z < 2 ^ 31) : (decimalInt z).length ≤ 13 :=
  length_decimalInt_le (by omega) (by omega)

theorem length_inetNtop_le (a : UInt8 × UInt8 × UInt8 × UInt8) : (inetNtop a).length ≤ 15 := by
  have hbyte : ∀ b : UInt8, (decimal b.toNat).length ≤ 3 := fun b =>
    (length_decimal_le (by decide)).mpr (Nat.lt_trans b.toNat_lt (by decide))
  obtain ⟨a, b, c, d⟩ := a
  have ha := hbyte a
  have hb := hbyte b
  have hc := hbyte c
  have hd := hbyte d
  simp only [inetNtop, List.length_append, List.length_cons]
  omega

theorem size_int (w : LogWriter) {env : Env} {buffer : Buffer} {sched : Schedule} {line : LogLine}
    (hl : line ∈ (serve env buffer sched).logs) : -2 ^ 31 ≤ line.size.getD w.unsetSize ∧
      line.size.getD w.unsetSize < 2 ^ 31 := by
  cases hq : parseHttpHeader env.libc buffer.bytes with
  | error f =>
    simp only [serve, hq] at hl
    cases hl
  | ok q =>
    rw [serve_eq hq] at hl
    obtain ⟨-, ⟨status, filepath, fstat⟩, text, -, rfl⟩ := logged_once hl
    cases fstat with
    | none => exact w.unsetSize_int
    | some st =>
      have hwrap : ∀ z, -2 ^ 31 ≤ wrap32 z ∧ wrap32 z < 2 ^ 31 := fun z => by
        have hpos : 0 < 2 ^ 32 := Nat.pow_pos (by decide)
        have hle := Int.le_bmod (x := z) hpos
        have hlt := Int.bmod_lt (x := z) hpos
        unfold wrap32
        omega
      obtain ⟨z, hz⟩ : ∃ z, (writeLog status q filepath (some st) text).size = some (wrap32 z) := ⟨_, rfl⟩
      rw [hz, Option.getD_some]
      exact hwrap z

/-- A line is shorter than the buffers that the C library gives to files. -/
theorem LoggedRequest.length_text_lt (r : LoggedRequest) : r.entry.text.length < 1200 := by
  obtain ⟨l, rest, q, hacc⟩ := readable_accepted r.logged r.readable
  obtain ⟨file, -, hlen, hm, hf, hp⟩ := readable_line hacc r.logged
  have hentry := Option.some.inj ((LogWriter.entry_eq hm hf hp).symm.trans r.printed)
  have hpid := length_int_le r.env.writer.pid_int
  have hsize := length_int_le (size_int r.env.writer r.logged)
  have haddress := length_inetNtop_le r.env.writer.client.sinAddr
  have hport : (decimalInt (r.env.writer.client.sinPort.toNat : Int)).length ≤ 5 :=
    (length_decimalInt_natCast (by decide)).mpr (Nat.lt_trans r.env.writer.client.sinPort.toNat_lt (by decide))
  have hcode : (decimalInt ((httpStatusList r.line.status).code : Int)).length ≤ 3 := by
    refine (length_decimalInt_natCast (by decide)).mpr ?_
    cases r.line.status <;> decide
  have hmethod : (leftJustify 7 l.method).length = 7 := by
    have hshort : ∀ m ∈ methods, m.length ≤ 7 := by decide
    have hle := hshort _ (mem_methods l.method_mem)
    rw [leftJustify, List.length_append, List.length_replicate]
    omega
  have hdate : (logDate r.env.writer.now).length ≤ 40 := by
    have hstrftime := length_strftime_le r.env.writer.now.toTime
    have hzone : (str " +0200").length = 6 := by decide
    rw [logDate_eq, List.length_append, hzone]
    omega
  have hprotocol : (str "HTTP/1.1").length = 8 := by decide
  rw [← hentry, length_text]
  unfold BUFSIZE at hlen
  simp only [List.length_append, hmethod, hprotocol]
  omega

theorem readLog_flatMap (rs : List LoggedRequest) : readLog (rs.flatMap (·.entry.text)) =
    (rs.filter (·.isOneLine)).map (·.entry) := by
  induction rs with
  | nil => rfl
  | cons r rs ih =>
    rw [List.flatMap_cons, readLog_text, ih, List.filter_cons]
    split
    · rfl
    · rfl

end Log

/-- The log file of any requests, in whatever order, is read as one entry for each request with a space before the
    version, and none for the others. -/
theorem readLog_requests {logFilename : Option Bytes} (hfile : logsToFile logFilename = true)
    (rs : List LoggedRequest) :
    readLog (rs.flatMap (·.entry.written logFilename)) = (rs.filter (·.isOneLine)).map (·.entry) ∧
    ∀ r ∈ rs, ∀ l rest q, Accepts r.env.libc r.buffer.bytes l rest q → (r.isOneLine = true ↔ l.blank₂ = SP) := by
  have hwhole : (rs.flatMap (·.entry.written logFilename)) = rs.flatMap (·.entry.text) :=
    List.flatMap_congr fun _ _ => written_eq_iff.mpr (Or.inl hfile)
  rw [hwhole]
  exact ⟨readLog_flatMap rs, fun _ _ _ _ _ => LoggedRequest.isOneLine_iff⟩

/-- The first line of a run. -/
def LoggedRequest.first (env : Env) (buffer : Buffer) (sched : Schedule) (hroot : LF ∉ env.rootDir)
    (hlogs : (serve env buffer sched).logs ≠ []) (hr : ((serve env buffer sched).logs.head hlogs).isReadable = true)
    (he : (env.writer.entry ((serve env buffer sched).logs.head hlogs)).isSome = true) : LoggedRequest where
  env := env
  buffer := buffer
  sched := sched
  line := (serve env buffer sched).logs.head hlogs
  entry := (env.writer.entry ((serve env buffer sched).logs.head hlogs)).get he
  logged := List.head_mem hlogs
  readable := hr
  printed := (Option.some_get he).symm
  rootDir := hroot

def spacedBuffer : Buffer := Buffer.store (.filled NUL) (str "GET /a HTTP/1.1\r\n\r\n")

/-- The file name goes on to the space in the next line. -/
def tabbedBuffer : Buffer := Buffer.store (.filled NUL) (str "GET /a\tHTTP/1.1\r\nX: HTTP/1.1\r\n\r\n")

/-- The request as it is logged. -/
def spacedRequest : LoggedRequest := .first smallEnv spacedBuffer (delivery 0 BUFSIZE) (by decide +kernel)
  (ne_of_apply_ne List.length (by decide +kernel)) (by decide +kernel) (by decide +kernel)

/-- The request as it is logged, with the path over two lines. -/
def tabbedRequest : LoggedRequest := .first smallEnv tabbedBuffer (delivery 0 BUFSIZE) (by decide +kernel)
  (ne_of_apply_ne List.length (by decide +kernel)) (by decide +kernel) (by decide +kernel)

theorem readLog_requests_example :
    readLog ([tabbedRequest, spacedRequest].flatMap (·.entry.written (some (str "log.txt")))) =
      [spacedRequest.entry] := by
  have hlines : [tabbedRequest, spacedRequest].filter (·.isOneLine) = [spacedRequest] := by
    have htabbed : tabbedRequest.isOneLine = false := by decide +kernel
    have hspaced : spacedRequest.isOneLine = true := by decide +kernel
    simp only [List.filter_cons, htabbed, hspaced, List.filter_nil, Bool.false_eq_true, ↓reduceIte]
  rw [(readLog_requests (by decide : logsToFile (some (str "log.txt")) = true) [tabbedRequest, spacedRequest]).1,
    hlines]
  rfl

/-! ### Lines on `stdout`

    Each line is one `write` of the array that `safe_printf` prints it into. -/

section Stdout
variable {rs : List LoggedRequest} {r : LoggedRequest}

theorem length_readLog_le (log : Bytes) : (readLog log).length ≤ log.count LF := by
  rw [← length_entries]
  exact List.length_filterMap_le _ _

/-- A line keeps its end when it fits the array. -/
theorem count_safePrintf (h : r.isOneLine = true) :
    (safePrintf r.entry.text).count LF = if r.entry.text.length < MAXS then 1 else 0 := by
  obtain ⟨l, rest, q, hacc⟩ := readable_accepted r.logged r.readable
  obtain ⟨path, hpath, -⟩ := LoggedRequest.ofPath hacc
  have hfile : LF ∉ r.entry.filepath := of_decide_eq_true h
  have hone : LF ∉ r.entry.before ++ r.entry.filepath ++ r.entry.behind := by
    simp only [List.mem_append, hpath.before, hfile, hpath.behind, or_self, not_false_eq_true]
  rw [text_eq]
  split
  · next hlt =>
    rw [safePrintf, snprintf_of_lt hlt, List.count_append, List.count_eq_zero_of_not_mem hone]
    rfl
  · next hlt =>
    rw [List.length_append, List.length_singleton] at hlt
    have hle : MAXS - 1 ≤ (r.entry.before ++ r.entry.filepath ++ r.entry.behind).length := by omega
    rw [safePrintf, snprintf, List.take_append_of_le_length hle]
    exact List.count_eq_zero_of_not_mem fun hmem => hone (List.mem_of_mem_take hmem)

theorem count_stdout (h : ∀ r ∈ rs, r.isOneLine = true) :
    (rs.flatMap fun r => safePrintf r.entry.text).count LF = rs.countP fun r => r.entry.text.length < MAXS := by
  induction rs with
  | nil => rfl
  | cons r rs ih =>
    have hrs := ih fun x hx => h x (List.mem_cons_of_mem _ hx)
    rw [List.flatMap_cons, List.count_append, count_safePrintf (h r List.mem_cons_self), hrs, List.countP_cons,
      Nat.add_comm]
    simp only [decide_eq_true_eq]

end Stdout

/-- Without a log file every line is read back exactly when each of them fits the array of `safe_printf`. -/
theorem readLog_stdout_iff {logFilename : Option Bytes} (hstdout : logsToFile logFilename = false)
    (rs : List LoggedRequest) (h : ∀ r ∈ rs, r.isOneLine = true) :
      readLog (rs.flatMap (·.entry.written logFilename)) = rs.map (·.entry) ↔
      ∀ r ∈ rs, r.entry.text.length < MAXS := by
  have hwritten : rs.flatMap (·.entry.written logFilename) = rs.flatMap fun r => safePrintf r.entry.text :=
    List.flatMap_congr fun r _ => by rw [LogEntry.written, hstdout, if_neg Bool.false_ne_true]
  rw [hwritten]
  constructor
  · intro hread
    have hle := length_readLog_le (rs.flatMap fun r => safePrintf r.entry.text)
    rw [hread, List.length_map, count_stdout h] at hle
    have hall := List.countP_eq_length.mp (Nat.le_antisymm List.countP_le_length hle)
    exact fun r hr => of_decide_eq_true (hall r hr)
  · intro hshort
    have hwhole : (rs.flatMap fun r => safePrintf r.entry.text) = rs.flatMap (·.entry.text) :=
      List.flatMap_congr fun r hr => snprintf_of_lt (hshort r hr)
    rw [hwhole, readLog_flatMap, List.filter_eq_self.mpr h]

theorem readLog_stdout_iff_example :
    readLog ([spacedRequest].flatMap (·.entry.written none)) = [spacedRequest].map (·.entry) ↔
      ∀ r ∈ [spacedRequest], r.entry.text.length < MAXS :=
  readLog_stdout_iff (rfl : logsToFile none = false) [spacedRequest] (List.forall_mem_singleton.mpr (by decide +kernel))

end Distsys.Tinyweb
