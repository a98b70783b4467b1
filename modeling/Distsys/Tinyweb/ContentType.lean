import Distsys.Tinyweb.BodyStart

/-! The type of a file (`src/content.c`): the table is gone through from its start for an extension that stands
    anywhere in the path, and the path begins with the root directory. -/

namespace Distsys.Tinyweb

/-- The type of the entry whose extension the name ends in, and `text/plain` for a name that ends in none. -/
def IsTypeOf (filename type : Bytes) : Prop := (∃ e ∈ httpContentTypeList, e.1 <:+ filename ∧ type = e.2) ∨
  (∀ e ∈ httpContentTypeList, ¬e.1 <:+ filename) ∧ type = str "text/plain"

/-- Whatever file the header is made for, its `Content-Type` is the type of the name. -/
def TypeOfEnding (rootDir filename : Bytes) : Prop := ∀ {lib data st start end_ data'},
  createResponseHeader lib (rootDir ++ filename) data st start end_ = .ok data' →
    ∃ type, IsTypeOf filename type ∧ data'.contentType = some (httpHeaderFieldList .contentType ++ type ++ CRLF)

section Search
variable {path filename rootDir type type' : Bytes} {lib : Libc} {data data' : HttpHeader} {st : Inode}
  {start end_ : Int}

theorem strstr_iff : ∀ {s t : Bytes}, strstr s t = true ↔ t <:+: s
  | [], t => by simp [strstr]
  | c :: s, t => by
    rw [strstr, Bool.or_eq_true, List.isPrefixOf_iff_prefix, strstr_iff (s := s)]
    exact List.infix_cons_iff.symm

theorem getHttpContentTypeStr_eq : getHttpContentTypeStr (getHttpContentType path) =
    ((httpContentTypeList.find? fun e => strstr path e.1).map (·.2)).getD (str "text/plain") := by
  unfold getHttpContentTypeStr getHttpContentType
  rw [List.find?_eq_getElem?_findIdx]

/-- Two extensions at the end of a name are the same, for none ends in another. -/
theorem extension_unique {e e' : Bytes × Bytes} (he : e ∈ httpContentTypeList) (he' : e' ∈ httpContentTypeList)
    (h : e.1 <:+ filename) (h' : e'.1 <:+ filename) : e = e' := by
  have hsuffix : ∀ e ∈ httpContentTypeList, ∀ e' ∈ httpContentTypeList, e.1 <:+ e'.1 → e = e' := by decide +kernel
  rcases List.suffix_or_suffix_of_suffix h h' with h | h
  · exact hsuffix e he e' he' h
  · exact (hsuffix e' he' e he h).symm

theorem IsTypeOf.unique (h : IsTypeOf filename type) (h' : IsTypeOf filename type') : type = type' := by
  rcases h with ⟨e, he, hsuffix, rfl⟩ | ⟨hnone, rfl⟩
  · rcases h' with ⟨e', he', hsuffix', rfl⟩ | ⟨hnone, -⟩
    · rw [extension_unique he he' hsuffix hsuffix']
    · exact absurd hsuffix (hnone e he)
  · rcases h' with ⟨e', he', hsuffix', -⟩ | ⟨-, rfl⟩
    · exact absurd hsuffix' (hnone e' he')
    · rfl

theorem contentType_createResponseHeader (h : createResponseHeader lib path data st start end_ = .ok data') :
    data'.contentType = some (contentTypeLine path) := by
  unfold createResponseHeader at h
  simp only [allocate, snprintf_contentTypeLine, bind, Except.bind, pure, Except.pure] at h
  cases hmalloc : lib.malloc .contentType with
  | false => simp [hmalloc] at h
  | true =>
    simp only [hmalloc, if_true] at h
    cases htime : localtime st.mtime with
    | none =>
      rw [htime] at h
      cases h
    | some timeinfo =>
      simp only [htime] at h
      split at h
      · cases h
      · split at h
        · split at h
          · cases h
          · split at h <;> cases h
            rfl
        · split at h <;> cases h
          rfl

/-- One header is enough to see the type that every header of the path has. -/
theorem typeOfEnding_iff_isTypeOf : TypeOfEnding rootDir filename ↔
    IsTypeOf filename (getHttpContentTypeStr (getHttpContentType (rootDir ++ filename))) := by
  constructor
  · intro h
    have hok : ∃ data', createResponseHeader .working (rootDir ++ filename) {} smallFile (-2) (-2) = .ok data' :=
      ⟨_, rfl⟩
    obtain ⟨data', hdata'⟩ := hok
    obtain ⟨type, htype, hline⟩ := h hdata'
    rw [contentType_createResponseHeader hdata', contentTypeLine, Option.some.injEq, List.append_left_inj,
      List.append_right_inj] at hline
    rwa [hline]
  · intro h lib data st start end_ data' hok
    exact ⟨_, h, contentType_createResponseHeader hok⟩

/-- The type is that of the ending exactly if no extension is in the path, or the first one of the table that is in it
    ends the name. -/
theorem typeOfEnding_iff : TypeOfEnding rootDir filename ↔
    (∀ e ∈ httpContentTypeList, ¬e.1 <:+: rootDir ++ filename) ∨
    ∃ pre e post, httpContentTypeList = pre ++ e :: post ∧ e.1 <:+ filename ∧
      ∀ e' ∈ pre, ¬e'.1 <:+: rootDir ++ filename := by
  have inside {e : Bytes × Bytes} (h : e.1 <:+ filename) : e.1 <:+: rootDir ++ filename :=
    (h.trans (List.suffix_append _ _)).isInfix
  have htypes : ∀ e ∈ httpContentTypeList, ∀ e' ∈ httpContentTypeList, e.2 = e'.2 → e = e' := by decide +kernel
  have hdefault : ∀ e ∈ httpContentTypeList, e.2 ≠ str "text/plain" := by decide +kernel
  rw [typeOfEnding_iff_isTypeOf, getHttpContentTypeStr_eq]
  cases hfind : httpContentTypeList.find? fun e => strstr (rootDir ++ filename) e.1 with
  | none =>
    have hnone : ∀ e ∈ httpContentTypeList, ¬e.1 <:+: rootDir ++ filename := fun e he h =>
      List.find?_eq_none.mp hfind e he (strstr_iff.mpr h)
    exact iff_of_true (Or.inr ⟨fun e he h => hnone e he (inside h), rfl⟩) (Or.inl hnone)
  | some e =>
    obtain ⟨hin, pre, post, hlist, hpre⟩ := List.find?_eq_some_iff_append.mp hfind
    have he : e ∈ httpContentTypeList := hlist ▸ List.mem_append_right _ List.mem_cons_self
    have hbefore : ∀ e' ∈ pre, ¬e'.1 <:+: rootDir ++ filename := fun e' he' h => by
      simpa [strstr_iff.mpr h] using hpre e' he'
    constructor
    · rintro (⟨e', he', hsuffix, htype⟩ | ⟨-, htype⟩)
      · obtain rfl := htypes e he e' he' htype
        exact Or.inr ⟨pre, e, post, hlist, hsuffix, hbefore⟩
      · exact absurd htype (hdefault e he)
    · rintro (hnone | ⟨pre', e', post', hlist', hsuffix, hbefore'⟩)
      · exact absurd (strstr_iff.mp hin) (hnone e he)
      · have he' : strstr (rootDir ++ filename) e'.1 = true := strstr_iff.mpr (inside hsuffix)
        have hfind' : httpContentTypeList.find? (fun e => strstr (rootDir ++ filename) e.1) = some e' :=
          List.find?_eq_some_iff_append.mpr ⟨he', pre', post', hlist', fun e' h => by
            simpa [← strstr_iff] using hbefore' e' h⟩
        obtain rfl : e = e' := Option.some.inj (hfind.symm.trans hfind')
        exact Or.inl ⟨e, he, hsuffix, rfl⟩

end Search

/-- A style sheet below a directory whose own name has an extension is sent as a page. -/
theorem directoryName_sent :
    (∃ data', createResponseHeader .working (str "/srv/www.html" ++ str "/default.css") {} smallFile
    (-2) (-2) = .ok data' ∧ data'.contentType = some (str "Content-Type: text/html\r\n")) ∧
    IsTypeOf (str "/default.css") (str "text/css") ∧ ¬TypeOfEnding (str "/srv/www.html") (str "/default.css") := by
  have htype : getHttpContentTypeStr (getHttpContentType (str "/srv/www.html" ++ str "/default.css")) =
      str "text/html" := by
    decide +kernel
  have hcss : IsTypeOf (str "/default.css") (str "text/css") := Or.inl ⟨(str ".css", str "text/css"), by decide +kernel⟩
  refine ⟨⟨_, rfl, by decide +kernel⟩, hcss, fun h => ?_⟩
  have hhtml := typeOfEnding_iff_isTypeOf.mp h
  rw [htype] at hhtml
  exact absurd (hhtml.unique hcss) (by decide +kernel)

end Distsys.Tinyweb
