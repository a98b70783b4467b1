import Distsys.Tinyweb.HeaderLines
import Distsys.Tinyweb.Moved

/-! The GET request that a client writes for a path, with any lines below the first one: what the parser makes of it,
    and which answer a regular file gets that is no script. -/

namespace Distsys.Tinyweb
open Regex

/-- A GET with these fields, one line each. -/
def getRequest (path : Bytes) (fields : List Bytes) : Bytes :=
  str "GET " ++ path ++ str " HTTP/1.1" ++ CRLF ++ fields.flatMap (· ++ CRLF) ++ CRLF

/-- What the parser has of the request before it comes to the fields. -/
def getParsed (path : Bytes) : ParsedHeader where
  method := .text (str "GET")
  filename := .text (requestedFile path)
  protocol := .text (str "HTTP/1.1")
  httpState := .ok
  isCGI := (regexec noNewline cgiRegex (requestedFile path)).isSome

section Parse
variable {lib : Libc} {buffer : Buffer} {path line rest : Bytes} {fields : List Bytes}

theorem isblank_SP : isblank SP = true := rfl

/-- The first line, as the pattern takes it. -/
def getLine (path : Bytes) (h : IsPath path) : RequestLine where
  method := str "GET"
  blank₁ := SP
  path := path
  blank₂ := SP
  version := str "HTTP/1.1"
  method_mem := get_mem
  blank₁_isblank := isblank_SP
  path_mem := mem_lang_pathRegex.mpr h
  blank₂_isblank := isblank_SP
  version_mem := version_mem

theorem getRequest_eq (h : IsPath path) (fields : List Bytes) :
    getRequest path fields = (getLine path h).text ++ CR :: LF :: (fields.flatMap (· ++ CRLF) ++ CRLF) := by
  simp [getRequest, RequestLine.text, getLine, CRLF, str, SP]

/-- The tokens are the fields with their CR, and the CR of the empty line. -/
theorem tokens_fields : ∀ {fields : List Bytes}, (∀ l ∈ fields, LF ∉ l) →
    tokens (· == LF) (fields.flatMap (· ++ CRLF) ++ CRLF) = fields.map (· ++ [CR]) ++ [[CR]]
  | [], _ => by decide
  | l :: fields, h => by
    have hline : ∀ c ∈ l ++ [CR], (c == LF) = false := by
      intro c hc
      rcases List.mem_append.mp hc with hc | hc
      · simpa using ne_of_mem_of_not_mem hc (h l List.mem_cons_self)
      · obtain rfl := List.mem_singleton.mp hc
        decide
    have hsplit : (l :: fields).flatMap (· ++ CRLF) ++ CRLF =
        (l ++ [CR]) ++ LF :: (fields.flatMap (· ++ CRLF) ++ CRLF) := by
      simp [CRLF]
    rw [hsplit, tokens_line hline (by decide), if_neg (by simp), tokens_fields fun m hm =>
      h m (List.mem_cons_of_mem _ hm)]
    rfl

/-- The fields are read one after the other, from what the first line gives. -/
theorem parse_getRequest (hlib : lib.Succeeds) (hpath : IsPath path) (hfields : ∀ l ∈ fields, LF ∉ l)
    (hc : cstring buffer.bytes = .ok (getRequest path fields)) : parseHttpHeader lib buffer.bytes =
      (fields.map (· ++ [CR]) ++ [[CR]]).foldlM (parseHeaderLine lib) (getParsed path) := by
  rw [getRequest_eq hpath] at hc
  obtain ⟨isCGI, hparse⟩ := parse_of_spaces hlib hc (by simp) rfl rfl
  rw [if_neg (by simp [getLine]), if_neg (by simp [getLine]), tokens_cons_delim (by decide), tokens_fields hfields]
    at hparse
  obtain ⟨q, hq, hk⟩ := parseHeaderLines_ok lib (fields.map (· ++ [CR]) ++ [[CR]]) ((getLine path hpath).fields isCGI)
  -- Whether the path is that of a script was found out before the fields, and no field changes it.
  have hcgi : isCGI = (regexec noNewline cgiRegex (requestedFile path)).isSome := by
    obtain ⟨l, rest, file, hacc⟩ := acceptedAs (hparse.trans hq) (hk.accepted accepted_ok)
    obtain rfl : requestedFile path = file := Pointer.text.inj (hk.filename.symm.trans hacc.filename)
    exact hk.isCGI.symm.trans hacc.isCGI
  rw [hparse, hcgi]
  rfl

/-- A line that does not begin with the letter of `Range` is no range. -/
theorem no_range_of_head (h : ∀ c ∈ line.head?, tolower c ≠ 0x72) : regexec noNewline rangeRegex line = none := by
  refine regexec_eq_none_iff.mpr fun name first last rest hr => ?_
  have hname := hr.name_mem
  simp only [rangeNameRegex, mem_lang_cat, mem_lang_textIcase] at hname
  obtain ⟨v, hv, w, -, rfl⟩ := hname
  cases v with
  | nil => cases hv
  | cons c v =>
    refine h c ?_ (List.cons.inj hv).1
    rw [hr.eq]
    rfl

end Parse

/-! ### The answer -/

section Answer
variable {env : Env} {buffer : Buffer} {q : ParsedHeader} {path : Bytes} {st : Inode} {sched : Schedule}

/-- The path leads to a regular file, its name fits, and it is not that of a script. -/
structure ServesFile (env : Env) (path : Bytes) (st : Inode) : Prop where
  found : env.fs (env.rootDir ++ requestedFile path) = some st
  regular : st.kind = .regular
  fits : env.rootDir.length + (requestedFile path).length + 1 ≤ BUFSIZE
  no_script : regexec noNewline cgiRegex (requestedFile path) = none

theorem ServesFile.dispatch (h : ServesFile env path st) (ha : Accepted q.httpState)
    (hk : KeepsRequest (getParsed path) q) :
    Tinyweb.dispatch env q = dispatchFile q (env.rootDir ++ requestedFile path) st := by
  rcases dispatch_cases env ha hk.filename with ⟨hlt, -⟩ | ⟨-, ⟨hnone, -⟩ | ⟨st', hst', hd⟩⟩
  · exact absurd h.fits (Nat.not_le.mpr hlt)
  · cases hnone.symm.trans h.found
  · obtain rfl := Option.some.inj (hst'.symm.trans h.found)
    exact hd

/-- Without a range the file is sent, unless it is not newer than the date. -/
theorem ServesFile.dispatch_ok (h : ServesFile env path st) (hok : q.httpState = .ok)
    (hk : KeepsRequest (getParsed path) q) :
    Tinyweb.dispatch env q = if notModified q.modsince st.mtime then
      .reply .notModified (some (env.rootDir ++ requestedFile path)) (some st)
    else .file .ok (env.rootDir ++ requestedFile path) st := by
  have hcgi : q.isCGI = false := hk.isCGI.trans (by simp [getParsed, h.no_script])
  have hget : q.method = .text (str "GET") := hk.method
  rw [h.dispatch (hok ▸ accepted_ok) hk]
  unfold dispatchFile
  simp only [hok, h.regular, hcgi, hget, reduceCtorEq, Bool.false_eq_true, ↓reduceIte]

end Answer

end Distsys.Tinyweb
