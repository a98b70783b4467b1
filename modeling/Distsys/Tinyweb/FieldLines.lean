import Distsys.Lib.Scan
import Distsys.Tinyweb.PartialContent

/-! The lines that `create_response_header` makes (`src/tinyweb.c`): when each of them is whole, so that its
    numbers are read back and the header splits into the lines that were meant. -/

namespace Distsys.Tinyweb

/-- The lines that describe a file, as far as they are set. -/
def HttpHeader.fileLines (data : HttpHeader) : List Bytes :=
  data.contentLength.toList ++ data.contentType.toList ++ data.lastModified.toList ++ data.contentRange.toList

/-- The lines of the header of a file that are meant, without their CR LF. -/
def meantLines (env : Env) (status : HttpStatus) (filepath : Bytes) (st : Inode) (start end_ : Int) : List Bytes :=
  partLines env status filepath st (lengthField st start end_).2 ++
    if IsPartial start end_ then [httpHeaderFieldList .contentRange ++ contentRangeText st.size start] else []

/-- What the numbers of a range are printed between. -/
def rangeLiterals : List Bytes := [httpHeaderFieldList .contentRange ++ str "bytes ", str "-", str "/"]

/-- Every line ends, its numbers are read back as they were formatted, and the header splits into the lines that
    are meant. -/
structure HeaderComplete (env : Env) (status : HttpStatus) (filepath : Bytes) (st : Inode) (start end_ : Int)
    (data : HttpHeader) : Prop where
  ends : ∀ line ∈ data.fileLines, CRLF <:+ line
  length : data.contentLength.bind (scanInts [httpHeaderFieldList .contentLength]) =
    some [(lengthField st start end_).2]
  date : data.lastModified.bind (scanInts (timeLiterals (httpHeaderFieldList .lastModified) st.mtime)) =
    some (timeValues st.mtime)
  range : IsPartial start end_ →
    data.contentRange.bind (scanInts rangeLiterals) = some [start, wrap32 (st.size - 1), wrap32 st.size]
  splits : ∃ text, createResponseHeaderString data env.now = .ok text ∧
    readMessage text = some (meantLines env status filepath st start end_, [])

/-- What a header is made for: a regular file without a range, or one whose size fits in an `int` with a start that
    the server accepts. -/
def Described (st : Inode) (start end_ : Int) : Prop := st.kind = .regular ∧ (¬IsPartial start end_ ∨
  st.size ≤ INT_MAX ∧ rangeState start end_ = .partialContent ∧ start < st.size)

/-- Without a range a size of at most eight digits. With one, less than 10000 bytes from its start on, and three
    numbers of together at most twelve characters. -/
def FieldsFit (size : Nat) (start end_ : Int) : Prop :=
  if IsPartial start end_ then
    size - start < 10 ^ 4 ∧ (size < 10 ^ 4 ∨ size = 10 ^ 4 ∧ start < 10 ^ 3 ∨ start < 10 ^ 2)
  else size < 10 ^ 8

/-! ### The lengths of the lines -/

section Lengths
variable {filepath line : Bytes} {status : HttpStatus} {st : Inode} {start end_ z : Int} {n k : Nat}

/-- The characters of the numbers of a part, counted by their sizes. -/
theorem part_fits_iff (hn : n ≤ INT_MAX) (hs : start = -1 ∨ 0 ≤ start) (hlt : start < n) :
    (decimalInt (wrap32 (n - start))).length ≤ 4 ∧
      (decimalInt start).length + (decimalInt (wrap32 (n - 1))).length + (decimalInt (wrap32 n)).length ≤ 12 ↔
    n - start < 10 ^ 4 ∧ (n < 10 ^ 4 ∨ n = 10 ^ 4 ∧ start < 10 ^ 3 ∨ start < 10 ^ 2) := by
  have hsize (k : Nat) (hk : 0 < k) := length_decimalInt_natCast (n := n) hk
  have hlast (k : Nat) (hk : 0 < k) := length_decimalInt_natCast (n := n - 1) hk
  have h₁ := hsize 4 (by omega)
  have h₂ := hsize 5 (by omega)
  have h₃ := hlast 3 (by omega)
  have h₄ := hlast 4 (by omega)
  have h₅ := hlast 5 (by omega)
  rcases hs with rfl | hpos
  · -- A suffix starts at -1, so that the length is one more than that of the file.
    have hminus : (decimalInt (-1)).length = 2 := by decide
    have hrest := length_decimalInt_natCast (n := n + 1) (k := 4) (by omega)
    by_cases hzero : n = 0
    · subst hzero
      decide
    · rw [wrap32_pred (by omega) hn, wrap32_natCast hn, hminus]
      by_cases hmax : n = INT_MAX
      · subst hmax
        decide
      · have hsucc : (n : Int) - -1 = (n + 1 : Nat) := by omega
        rw [hsucc, wrap32_natCast (by omega)]
        omega
  · obtain ⟨a, rfl⟩ := Int.eq_ofNat_of_zero_le hpos
    have hrest := length_decimalInt_natCast (n := n - a) (k := 4) (by omega)
    have ha (k : Nat) (hk : 0 < k) := length_decimalInt_natCast (n := a) hk
    have h₆ := ha 2 (by omega)
    have h₇ := ha 3 (by omega)
    have h₈ := ha 4 (by omega)
    have hsub : (n : Int) - a = (n - a : Nat) := by omega
    rw [hsub, wrap32_natCast (n := n - a) (by omega), wrap32_pred (by omega) hn, wrap32_natCast hn]
    omega

theorem suffix_contentLengthLine {size : Nat} :
    CRLF <:+ snprintf size (contentLengthLine z) ↔ (decimalInt z).length + 18 < size := by
  have hlen : (httpHeaderFieldList .contentLength ++ decimalInt z).length = 16 + (decimalInt z).length :=
    List.length_append
  unfold contentLengthLine
  rw [suffix_snprintf_iff LF_not_mem_contentLength, hlen]
  omega

theorem suffix_contentRangeLine {size : Nat} : CRLF <:+ snprintf size (contentRangeLine n start) ↔
    (decimalInt start).length + (decimalInt (wrap32 (n - 1))).length + (decimalInt (wrap32 n)).length + 25 < size := by
  have hlen : (httpHeaderFieldList .contentRange).length = 15 := by decide
  rw [contentRangeLine_eq, suffix_snprintf_iff LF_not_mem_contentRange, List.length_append, hlen,
    length_contentRangeText]
  omega

/-- The line of the length and that of the range have to hold their numbers; the others are never cut. -/
theorem ends_iff : (∀ line ∈ (fileHeader status filepath st start end_).fileLines, CRLF <:+ line) ↔
    if IsPartial start end_ then (decimalInt (wrap32 (st.size - start))).length ≤ 4 ∧
      (decimalInt start).length + (decimalInt (wrap32 (st.size - 1))).length + (decimalInt (wrap32 st.size)).length ≤ 12
    else (decimalInt st.size).length ≤ 8 := by
  have htype : CRLF <:+ contentTypeLine filepath := List.suffix_append _ _
  have hmodified : CRLF <:+ lastModifiedLine st.mtime.civil := List.suffix_append _ _
  unfold HttpHeader.fileLines fileHeader
  by_cases hp : IsPartial start end_
  · simp only [if_pos hp, Option.toList_some, List.cons_append, List.nil_append, List.forall_mem_cons,
      suffix_contentLengthLine, suffix_contentRangeLine, htype, hmodified, List.not_mem_nil, false_implies,
      implies_true, true_and, and_true]
    omega
  · simp only [if_neg hp, Option.toList_some, Option.toList_none, List.append_nil, List.cons_append, List.nil_append,
      List.forall_mem_cons, suffix_contentLengthLine, htype, hmodified, List.not_mem_nil, false_implies, implies_true,
      and_true]
    omega

/-- For a file that is described, the characters fit exactly when the sizes do. -/
theorem ends_iff_fieldsFit (hd : Described st start end_) :
    (∀ line ∈ (fileHeader status filepath st start end_).fileLines, CRLF <:+ line) ↔ FieldsFit st.size start end_ := by
  obtain ⟨-, hwhole | ⟨hmax, hstate, hlt⟩⟩ := hd
  · rw [ends_iff, FieldsFit, if_neg hwhole, if_neg hwhole, length_decimalInt_natCast (by omega)]
  · have hrange := rangeState_partialContent_iff.mp hstate
    have hp : IsPartial start end_ := ⟨by omega, by omega⟩
    rw [ends_iff, FieldsFit, if_pos hp, if_pos hp, part_fits_iff hmax (by omega) hlt]

end Lengths

/-! ### A header whose lines end -/

section Complete
variable {env : Env} {filepath : Bytes} {status : HttpStatus} {st : Inode} {start end_ z : Int} {n size : Nat}

theorem stopsDigits_CRLF : StopsDigits CRLF := by decide +kernel

theorem scan_contentLengthLine : scanInts [httpHeaderFieldList .contentLength] (contentLengthLine z) = some [z] := by
  have hliterals : ∀ l ∈ [httpHeaderFieldList .contentLength], l ≠ [] ∧ StopsDigits l := by decide +kernel
  have hline : contentLengthLine z = printFields [(httpHeaderFieldList .contentLength, .decimal z)] ++ CRLF := by
    simp [printFields, contentLengthLine, Numeral.decimal]
  rw [hline]
  exact scanInts_printFields stopsDigits_CRLF [(httpHeaderFieldList .contentLength, .decimal z)] hliterals

theorem scan_contentRangeLine : scanInts rangeLiterals (contentRangeLine n start) =
    some [start, wrap32 (n - 1), wrap32 n] := by
  let fields : List (Bytes × Numeral) := [(httpHeaderFieldList .contentRange ++ str "bytes ", .decimal start),
    (str "-", .decimal (wrap32 (n - 1))), (str "/", .decimal (wrap32 n))]
  have hline : contentRangeLine n start = printFields fields ++ CRLF := by
    simp [printFields, fields, contentRangeLine, Numeral.decimal]
  have hliterals : fields.map Prod.fst = rangeLiterals := by
    simp only [fields, List.map_cons, List.map_nil, rangeLiterals]
  have hstops : ∀ l ∈ rangeLiterals, l ≠ [] ∧ StopsDigits l := by decide +kernel
  rw [hline, ← hliterals, scanInts_printFields stopsDigits_CRLF fields (hliterals ▸ hstops)]
  simp only [fields, List.map_cons, List.map_nil, Numeral.decimal]

theorem scan_lastModifiedLine {mtime : Time} : scanInts (timeLiterals (httpHeaderFieldList .lastModified) mtime)
    (lastModifiedLine mtime.civil) = some (timeValues mtime) := by
  obtain ⟨c, before, hname, hc⟩ : ∃ c before, httpHeaderFieldList .lastModified = c :: before ∧ isdigit c = false :=
    ⟨_, _, rfl, by decide⟩
  have hafter : StopsDigits (str " GMT" ++ CRLF) := by decide +kernel
  have hline : lastModifiedLine mtime.civil = c :: before ++ strftime mtime.civil ++ (str " GMT" ++ CRLF) := by
    simp only [lastModifiedLine, hname, List.append_assoc]
  rw [hname, hline]
  exact scanInts_strftime mtime hc hafter

theorem fileHeader_whole (h : ∀ line ∈ (fileHeader status filepath st start end_).fileLines, CRLF <:+ line) :
    (fileHeader status filepath st start end_).contentLength = some (contentLengthLine (lengthField st start end_).2) ∧
      (fileHeader status filepath st start end_).contentRange =
        if IsPartial start end_ then some (contentRangeLine st.size start) else none := by
  have hlength (line : Bytes) (hl : (fileHeader status filepath st start end_).contentLength = some line) :
      CRLF <:+ line :=
    h line (by simp [HttpHeader.fileLines, hl])
  have hrange (line : Bytes) (hl : (fileHeader status filepath st start end_).contentRange = some line) :
      CRLF <:+ line :=
    h line (by simp [HttpHeader.fileLines, hl])
  unfold fileHeader at hlength hrange ⊢
  unfold lengthField
  by_cases hp : IsPartial start end_
  · simp only [if_pos hp] at hlength hrange ⊢
    have hl := hlength _ rfl
    have hr := hrange _ rfl
    unfold contentLengthLine at hl ⊢
    rw [contentRangeLine_eq] at hr ⊢
    rw [snprintf_of_suffix LF_not_mem_contentLength hl, snprintf_of_suffix LF_not_mem_contentRange hr]
    exact ⟨rfl, rfl⟩
  · simp only [if_neg hp] at hlength ⊢
    have hl := hlength _ rfl
    unfold contentLengthLine at hl ⊢
    rw [snprintf_of_suffix LF_not_mem_contentLength hl]
    exact ⟨rfl, trivial⟩

theorem meantLines_are_lines : ∀ l ∈ meantLines env status filepath st start end_, LF ∉ l ∧ l ≠ [] := by
  intro l hl
  unfold meantLines at hl
  rcases List.mem_append.mp hl with hl | hl
  · exact partLines_are_lines l hl
  · split at hl
    · obtain rfl := List.mem_singleton.mp hl
      exact ⟨LF_not_mem_contentRange, by simp [httpHeaderFieldList, str]⟩
    · cases hl

theorem text_whole (h : ∀ line ∈ (fileHeader status filepath st start end_).fileLines, CRLF <:+ line) :
    (fileHeader status filepath st start end_).text env.now =
      (meantLines env status filepath st start end_).flatMap (· ++ CRLF) ++ CRLF := by
  obtain ⟨hlength, hrange⟩ := fileHeader_whole h
  have hfields : (fileHeader status filepath st start end_).fields = contentLengthLine (lengthField st start end_).2 ++
      contentTypeLine filepath ++ lastModifiedLine st.mtime.civil ++
        if IsPartial start end_ then contentRangeLine st.size start else [] := by
    unfold HttpHeader.fields
    rw [hlength, hrange]
    by_cases hp : IsPartial start end_
    · simp [fileHeader, hp]
    · simp [fileHeader, hp]
  have hstatus : (fileHeader status filepath st start end_).status = status := rfl
  rw [text_eq_fixedLines, hfields, hstatus, meantLines, partLines]
  by_cases hp : IsPartial start end_
  · simp [hp, contentLengthLine, contentTypeLine, lastModifiedLine, contentRangeLine_eq]
  · simp [hp, contentLengthLine, contentTypeLine, lastModifiedLine]

theorem headerComplete_of_ends (h : ∀ line ∈ (fileHeader status filepath st start end_).fileLines, CRLF <:+ line) :
    HeaderComplete env status filepath st start end_ (fileHeader status filepath st start end_) := by
  obtain ⟨hlength, hrange⟩ := fileHeader_whole h
  refine ⟨h, ?_, ?_, fun hp => ?_, _, createResponseHeaderString_fileHeader, ?_⟩
  · rw [hlength, Option.bind_some, scan_contentLengthLine]
  · exact scan_lastModifiedLine
  · rw [hrange, if_pos hp, Option.bind_some, scan_contentRangeLine]
  · have hend : readMessage CRLF = some ([], []) := by decide
    rw [text_whole h, readMessage_lines meantLines_are_lines, hend, Option.map_some, List.append_nil]

end Complete

/-- The lines that are made for a file are whole, are read back and split as they were meant, exactly if the numbers in
    them have few digits. -/
theorem headerComplete_iff {env : Env} {filepath : Bytes} {status : HttpStatus} {st : Inode} {start end_ : Int}
    {data : HttpHeader} (hd : Described st start end_)
    (h : createResponseHeader env.libc filepath { status } st start end_ = .ok data) :
    HeaderComplete env status filepath st start end_ data ↔ FieldsFit st.size start end_ := by
  rw [createResponseHeader_eq] at h
  split at h
  · cases h
    have hends : (∀ line ∈ (fileHeader status filepath st start end_).fileLines, CRLF <:+ line) ↔
        FieldsFit st.size start end_ :=
      ends_iff_fieldsFit hd
    rw [← hends]
    exact ⟨HeaderComplete.ends, headerComplete_of_ends⟩
  · cases h

/-- What the server sends a file with is described. -/
theorem described_of_file {env : Env} {q : ParsedHeader} {filepath file : Bytes} {status : HttpStatus} {st : Inode}
    (ha : Accepted q.httpState) (hfile : q.filename = .text file) (hf : RangeFields q)
    (hd : dispatch env q = .file status filepath st) (hk : st.kind = .regular)
    (hmax : IsPartial q.byteStart q.byteEnd → st.size ≤ INT_MAX) : Described st q.byteStart q.byteEnd := by
  rcases dispatch_cases env ha hfile with ⟨-, hd'⟩ | ⟨-, ⟨-, hd'⟩ | ⟨st', -, hd'⟩⟩
  · cases hd.symm.trans hd'
  · cases hd.symm.trans hd'
  · obtain ⟨-, rfl, ⟨hs, -, hlt⟩ | ⟨hs, -⟩⟩ := (dispatchFile_file hf).mp (hd'.symm.trans hd)
    · have hrange := hf.partialContent hs
      have hstate : rangeState q.byteStart q.byteEnd = .partialContent := rangeState_partialContent_iff.mpr (by omega)
      exact ⟨hk, Or.inr ⟨hmax ⟨by omega, by omega⟩, hstate, hlt⟩⟩
    · exact ⟨hk, Or.inl fun hp => hp.1 (hf.ok hs).1⟩

theorem headerComplete_iff_example : HeaderComplete smallEnv .partialContent (str "/srv/a") smallFile 1 (-1)
    (fileHeader .partialContent (str "/srv/a") smallFile 1 (-1)) ↔ FieldsFit 5 1 (-1) :=
  headerComplete_iff ⟨rfl, Or.inr ⟨by decide, by decide, by decide⟩⟩
    (createResponseHeader_eq.trans (if_pos (by decide)))

/-- A file of that many bytes. -/
def zeros (n : Nat) (h : n < 2 ^ 63) : Inode where
  kind := .regular
  mode := 0o644
  mtime := .epoch
  readable := true
  data := List.replicate n NUL
  size := n
  size_lt := h
  size_eq := fun _ => List.length_replicate.symm
  other_size := nofun

def tenThousand : Inode := zeros 10000 (by decide)

/-- The length of a file of 10000 bytes has no line feed behind it, so that the line of the content type belongs to
    it. -/
theorem lengthLine_cut : Described tenThousand 0 (-1) ∧ createResponseHeader smallEnv.libc (str "/srv/a")
      { status := .partialContent } tenThousand 0 (-1) =
        .ok (fileHeader .partialContent (str "/srv/a") tenThousand 0 (-1)) ∧
    (fileHeader .partialContent (str "/srv/a") tenThousand 0 (-1)).contentLength =
      some (str "Content-Length: 10000\r") ∧
    ¬∀ env status filepath st start end_ data, Described st start end_ →
      createResponseHeader env.libc filepath { status } st start end_ = .ok data →
        HeaderComplete env status filepath st start end_ data := by
  have hd : Described tenThousand 0 (-1) := ⟨rfl, Or.inr ⟨by decide, by decide, by decide⟩⟩
  have hok : createResponseHeader smallEnv.libc (str "/srv/a") { status := .partialContent } tenThousand 0 (-1) =
      .ok (fileHeader .partialContent (str "/srv/a") tenThousand 0 (-1)) :=
    createResponseHeader_eq.trans (if_pos (by decide))
  have hcut : (fileHeader .partialContent (str "/srv/a") tenThousand 0 (-1)).contentLength =
      some (str "Content-Length: 10000\r") := by decide +kernel
  refine ⟨hd, hok, hcut, fun h => ?_⟩
  have hend := (h smallEnv .partialContent (str "/srv/a") tenThousand 0 (-1) _ hd hok).ends
    (str "Content-Length: 10000\r") (by simp [HttpHeader.fileLines, hcut])
  revert hend
  decide +kernel

end Distsys.Tinyweb
