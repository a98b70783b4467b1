import Distsys.Tinyweb.AcceptedRequest

/-! Confinement: the file name of an accepted request leads below the root directory, unless a tab ends
    the path in the request line. -/

namespace Distsys.Tinyweb

/-- The segments of a path; repeated slashes count as one. -/
def segments (path : Bytes) : List Bytes := tokens (· == 0x2F) path

/-- Where a path leads lexically from the working directory. -/
def resolve (path : Bytes) : List Bytes := Path.resolve (str ".") (str "..") [] (segments path)

/-- A file name that is safe to append to a root directory. -/
structure Confined (file : Bytes) : Prop where
  slash : file.head? = some 0x2F
  no_dotdot : str ".." ∉ segments file
  clean : ∀ c ∈ file, isblank c = false ∧ c ≠ CR ∧ c ≠ LF
  /-- The path lies below the root directory, whatever that is. -/
  below : ∀ rootDir, resolve rootDir <+: resolve (rootDir ++ file)

section Paths
variable {file rootDir : Bytes} {l : RequestLine}

theorem segments_append (h : file.head? = some 0x2F) : segments (rootDir ++ file) =
    segments rootDir ++ segments file := by
  cases file with
  | nil => simp at h
  | cons c rest =>
    obtain rfl : c = 0x2F := by simpa using h
    unfold segments
    rw [tokens_append (by simp), tokens_cons_delim (by simp)]

theorem resolve_below (h : file.head? = some 0x2F) (hdd : str ".." ∉ segments file) :
    resolve rootDir <+: resolve (rootDir ++ file) := by
  unfold resolve
  rw [segments_append h, Path.resolve_append]
  exact Path.prefix_resolve hdd

/-- The grammar of a path has room for one dot. -/
theorem count_dot_path (l : RequestLine) : l.path.count 0x2E ≤ 1 := by
  obtain ⟨a, ext, hp, ha, hext⟩ := mem_lang_pathRegex.mp l.path_mem
  have count_zero {w : Bytes} {p : UInt8 → Bool} (hw : ∀ c ∈ w, p c = true) (hdot : p 0x2E = false) :
      w.count 0x2E = 0 := List.count_eq_zero.mpr fun hm => ne_of_class (hw _ hm) hdot rfl
  have hcount : (0x2F :: a).count 0x2E = 0 := by
    rw [List.count_cons_of_ne (by decide)]
    exact count_zero ha (by decide)
  rw [hp, List.count_append, hcount]
  rcases hext with rfl | ⟨c, u, rfl, -, -, hu⟩
  · simp
  · have := count_zero hu (by decide)
    rw [List.count_cons, this]
    split <;> simp

theorem no_dotdot_of_count (h : file.count 0x2E ≤ 1) : str ".." ∉ segments file := by
  intro hm
  have := (infix_of_mem_tokens hm).sublist.count_le 0x2E
  have hdots : (str "..").count 0x2E = 2 := by decide
  omega

theorem confined_requestedFile (l : RequestLine) : Confined (requestedFile l.path) := by
  have hslash : (requestedFile l.path).head? = some 0x2F := by
    obtain ⟨a, ext, hp, -⟩ := mem_lang_pathRegex.mp l.path_mem
    unfold requestedFile
    split
    · rfl
    · rw [hp]
      rfl
  have hdd : str ".." ∉ segments (requestedFile l.path) := by
    unfold requestedFile
    split
    · decide
    · exact no_dotdot_of_count (count_dot_path l)
  have hgraph : ∀ c ∈ requestedFile l.path, isgraph c = true := by
    unfold requestedFile
    split
    · decide +kernel
    · exact fun _ => isgraph_of_mem_path
  refine ⟨hslash, hdd, fun c hc => ⟨?_, ?_, ?_⟩, fun _ => resolve_below hslash hdd⟩
  · cases hb : isblank c with
    | false => rfl
    | true => rcases isblank_iff.mp hb with rfl | rfl <;> exact absurd (hgraph _ hc) (by decide)
  · exact ne_of_class (hgraph c hc) (by decide)
  · exact ne_of_class (hgraph c hc) (by decide)

end Paths

/-- The file name of an accepted request is confined exactly when a space ends the path in the request line. -/
theorem confined_iff {lib : Libc} {buffer : Bytes} {q : ParsedHeader} (h : parseHttpHeader lib buffer = .ok q)
    (ha : Accepted q.httpState) : ∃ l : RequestLine, ∃ rest file, cstring buffer = .ok (l.text ++ CR :: rest) ∧
      q.filename = .text file ∧ (Confined file ↔ l.blank₂ = SP) := by
  obtain ⟨l, rest, file, hq⟩ := acceptedAs h ha
  refine ⟨l, rest, file, hq.header, hq.filename, ?_⟩
  rcases hq.cut with ⟨hb, rfl⟩ | ⟨hb, hht⟩
  · exact iff_of_true (confined_requestedFile l) hb
  · refine iff_of_false (fun hc => ?_) (by rw [hb]; decide)
    exact absurd (hc.clean HT hht).1 (by decide)

theorem confined_iff_example : ∃ l : RequestLine, ∃ rest file,
    cstring (str "GET /a.html HTTP/1.1\r\n" ++ [NUL]) = .ok (l.text ++ CR :: rest) ∧
      Pointer.text (str "/a.html") = .text file ∧ (Confined file ↔ l.blank₂ = SP) :=
  @confined_iff .working _
    { method := .text (str "GET"), filename := .text (str "/a.html"), protocol := .text (str "HTTP/1.1"),
      httpState := .ok }
    (by decide +kernel) (by decide)

/-- A request whose path ends in a tab. Its second token goes on into the next line, up to a space there. -/
def climbingRequest : Bytes := str "GET /x\tHTTP/1.1\r\n/../../etc/passwd HTTP/1.1\r\n"

theorem climbingRequest_not_confined : ∃ q, parseHttpHeader .working (climbingRequest ++ [NUL]) = .ok q ∧
    q.httpState = .ok ∧ q.filename = .text (str "/x\tHTTP/1.1\r\n/../../etc/passwd") ∧
    ¬Confined (str "/x\tHTTP/1.1\r\n/../../etc/passwd") := by
  refine ⟨{
    method := .text (str "GET")
    filename := .text (str "/x\tHTTP/1.1\r\n/../../etc/passwd")
    protocol := .text (str "HTTP/1.1")
    httpState := .ok }, by decide +kernel, rfl, rfl, fun hc => ?_⟩
  exact hc.no_dotdot (by decide +kernel)

end Distsys.Tinyweb
