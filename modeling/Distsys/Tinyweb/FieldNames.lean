import Distsys.Tinyweb.HeaderLines
import Distsys.Tinyweb.Modsince

/-! The letter case of field names (`src/http_parser.c`). The pattern of a range line is compiled with `REG_ICASE`; the
    format of `strptime` has the name `If-Modified-Since` in it, and takes it letter by letter. -/

namespace Distsys.Tinyweb
open Regex

/-- The same line, with its field name in other letters of the same sound: the part before the first colon. -/
inductive Recased : Bytes → Bytes → Prop
  | same (line : Bytes) : Recased line line
  | name {name name' value : Bytes} : 0x3A ∉ name → name'.map tolower = name.map tolower →
    Recased (name ++ 0x3A :: value) (name' ++ 0x3A :: value)

/-- The same text, with the field names of some of its lines in other letters. -/
inductive RecasedText : Bytes → Bytes → Prop
  | last {line line' : Bytes} : LF ∉ line → Recased line line' → RecasedText line line'
  | line {line line' rest rest' : Bytes} : LF ∉ line → Recased line line' → RecasedText rest rest' →
    RecasedText (line ++ LF :: rest) (line' ++ LF :: rest')

/-! ### One line -/

section Line
variable {lib : Libc} {line line' name first last rest : Bytes} {t : Time}

theorem colon_not_mem {u w : Bytes} (hw : 0x3A ∉ w) (h : u.map tolower = w.map tolower) : 0x3A ∉ u :=
  fun hu => hw (mem_of_map_tolower_eq (by decide) (by decide) h hu)

theorem Recased.symm (h : Recased line line') : Recased line' line := by
  cases h with
  | same => exact .same _
  | name hcolon hname => exact .name (colon_not_mem hcolon hname) hname.symm

/-- Other bytes than letters stay as they are. -/
theorem Recased.mem {d : UInt8} (h : Recased line line') (hl : islower d = false) (hu : isupper d = false)
    (hd : d ∈ line') :
    d ∈ line := by
  cases h with
  | same => exact hd
  | name _ hname =>
    rw [List.mem_append] at hd ⊢
    exact hd.imp_left (mem_of_map_tolower_eq hl hu hname)

theorem Recased.eq_nil_iff (h : Recased line line') : line' = [] ↔ line = [] := by
  cases h with
  | same => exact Iff.rfl
  | name => simp

theorem IsRange.recased (h : IsRange line name first last rest) (hr : Recased line line') :
    ∃ name', IsRange line' name' first last rest := by
  cases hr with
  | same => exact ⟨name, h⟩
  | @name field field' value hcolon hfield =>
    have hmem := h.name_mem
    simp only [rangeNameRegex, mem_lang_cat, mem_lang_star_set, mem_lang_text, mem_lang_textIcase] at hmem
    obtain ⟨word, hword, _, ⟨blanks, hblanks, _, ⟨_, rfl, _, ⟨gap, hgap, unit, hunit, rfl⟩, rfl⟩, rfl⟩, rfl⟩ := hmem
    have hno : 0x3A ∉ word ++ blanks := by
      rw [List.mem_append, not_or]
      exact ⟨fun hm => absurd (mem_of_map_tolower_eq (by decide) (by decide) hword hm) (by decide +kernel),
        fun hm => absurd (hblanks _ hm) (by decide)⟩
    have hline : field ++ 0x3A :: value = (word ++ blanks) ++ 0x3A ::
        (gap ++ unit ++ first ++ 0x2D :: last ++ rest) := by
      rw [h.eq]
      simp [str]
    have hdelim {u : Bytes} (hu : 0x3A ∉ u) : ∀ c ∈ u, (c == 0x3A) = false := fun c hc => by
      simpa using ne_of_mem_of_not_mem hc hu
    obtain ⟨rfl, -, rfl⟩ := append_cons_inj (hdelim hcolon) (hdelim hno) (by simp) (by simp) hline
    -- The two parts of the name are there in the other spelling too; blanks have no case.
    rw [List.map_append] at hfield
    obtain ⟨word', blanks', rfl, hword', hblanks'⟩ := List.map_eq_append_iff.mp hfield
    have hblank : ∀ c ∈ blanks', isblank c = true := by
      intro c hc
      obtain ⟨b, hb, hlow⟩ := List.mem_map.mp (hblanks' ▸ List.mem_map_of_mem hc)
      rcases isblank_iff.mp (hblanks b hb) with rfl | rfl
      · exact isblank_iff.mpr (Or.inl (eq_of_tolower_eq (by decide) hlow.symm))
      · exact isblank_iff.mpr (Or.inr (eq_of_tolower_eq (by decide) hlow.symm))
    refine ⟨word' ++ (blanks' ++ (str ":" ++ (gap ++ unit))),
      by simp [str], ?_, h.first_digits, h.last_digits, h.some_digit, h.stop⟩
    simp only [rangeNameRegex, mem_lang_cat, mem_lang_star_set, mem_lang_text, mem_lang_textIcase]
    exact ⟨word', hword'.trans hword, _, ⟨blanks', hblank, _, ⟨_, rfl, _, ⟨gap, hgap, unit, hunit, rfl⟩, rfl⟩, rfl⟩,
      rfl⟩

theorem rangeOf_recased (h : Recased line line') : rangeOf line' = rangeOf line := by
  by_cases hline : ∃ name first last rest, IsRange line name first last rest
  · obtain ⟨name, first, last, rest, hline⟩ := hline
    obtain ⟨name', hline'⟩ := hline.recased h
    rw [rangeOf_of_isRange hline, rangeOf_of_isRange hline']
  · simp only [not_exists] at hline
    rw [rangeOf_eq_none_iff.mpr hline, rangeOf_eq_none_iff]
    intro name first last rest hline'
    obtain ⟨name', hback⟩ := hline'.recased h.symm
    exact hline _ _ _ _ hback

end Line

/-! ### Dates -/

/-- The field name in the letters that `strptime` looks for. -/
def dateName : Bytes := str "If-Modified-Since"

/-- `strptime` takes the literal text at the start of its format letter by letter. -/
def ReadsName (lib : Libc) : Prop := ∀ line t, lib.ifModifiedSince line = some t → dateName ++ [0x3A] <+: line

/-- In whatever letters its name is written: with the letters of the format the line has this date. -/
def Dated (lib : Libc) (line : Bytes) (t : Time) : Prop := ∃ name value, line = name ++ 0x3A :: value ∧
  name.map tolower = dateName.map tolower ∧ lib.ifModifiedSince (dateName ++ 0x3A :: value) = some t

section Dates
variable {lib : Libc} {line line' : Bytes} {t : Time} {ls : List Bytes}

theorem ReadsName.cases (h : ReadsName lib) (hline : lib.ifModifiedSince line = some t) :
    ∃ value, line = dateName ++ 0x3A :: value := by
  obtain ⟨value, hvalue⟩ := h line t hline
  exact ⟨value, by simpa using hvalue.symm⟩

theorem dated_of_recased (hlib : ReadsName lib) (h : Recased line line') (ht : lib.ifModifiedSince line' = some t) :
    Dated lib line t := by
  obtain ⟨value, hvalue⟩ := hlib.cases ht
  cases h with
  | same => exact ⟨dateName, value, hvalue, rfl, hvalue ▸ ht⟩
  | @name name name' value' hcolon hname =>
    have hdelim {u : Bytes} (hu : 0x3A ∉ u) : ∀ c ∈ u, (c == 0x3A) = false := fun c hc => by
      simpa using ne_of_mem_of_not_mem hc hu
    obtain ⟨rfl, -, rfl⟩ :=
      append_cons_inj (hdelim (colon_not_mem hcolon hname)) (hdelim (show 0x3A ∉ dateName by decide +kernel))
      (by simp) (by simp) hvalue
    exact ⟨name, value', rfl, hname.symm, ht⟩

/-- Every line can be spelled so that it is not read as a date. -/
theorem exists_silent (hlib : ReadsName lib) (line : Bytes) :
    ∃ line', Recased line line' ∧ lib.ifModifiedSince line' = none := by
  cases h : lib.ifModifiedSince line with
  | none => exact ⟨line, .same line, h⟩
  | some t =>
    obtain ⟨value, rfl⟩ := hlib.cases h
    refine ⟨str "if-modified-since" ++ 0x3A :: value, .name (by decide +kernel) (by decide +kernel), ?_⟩
    by_contra hsome
    obtain ⟨t', ht'⟩ := Option.ne_none_iff_exists'.mp hsome
    obtain ⟨value', hvalue'⟩ := hlib.cases ht'
    -- They differ in the first letter.
    exact absurd (List.cons.inj hvalue').1 (by decide)

theorem exists_silent_lines (hlib : ReadsName lib) : ∀ ls : List Bytes, ∃ ls', List.Forall₂ Recased ls ls' ∧
    ∀ line ∈ ls', lib.ifModifiedSince line = none
  | [] => ⟨[], .nil, by simp⟩
  | line :: ls => by
    obtain ⟨line', hr, hnone⟩ := exists_silent hlib line
    obtain ⟨ls', hrs, hnones⟩ := exists_silent_lines hlib ls
    exact ⟨line' :: ls', .cons hr hrs, List.forall_mem_cons.mpr ⟨hnone, hnones⟩⟩

/-- And a dated line so that it is. -/
theorem exists_lines_with_date (hlib : ReadsName lib) (hmem : line ∈ ls) (h : Dated lib line t) :
    ∃ ls', List.Forall₂ Recased ls ls' ∧ lastDate lib ls' = t := by
  obtain ⟨pre, post, rfl⟩ := List.append_of_mem hmem
  obtain ⟨name, value, rfl, hname, ht⟩ := h
  obtain ⟨pre', hpre, -⟩ := exists_silent_lines hlib pre
  obtain ⟨post', hpost, hnone⟩ := exists_silent_lines hlib post
  have hcolon : 0x3A ∉ name := colon_not_mem (show 0x3A ∉ dateName by decide +kernel) hname
  exact ⟨pre' ++ (dateName ++ 0x3A :: value) :: post', List.rel_append hpre (.cons (.name hcolon hname.symm) hpost),
    lastOf_append_cons ht hnone⟩

end Dates

/-! ### Texts -/

section Texts
variable {rest rest' : Bytes} {ls : List Bytes}

theorem exists_mem_of_forall₂ {α β : Type} {R : α → β → Prop} {b : β} :
    ∀ {as : List α} {bs : List β}, List.Forall₂ R as bs →
    b ∈ bs → ∃ a ∈ as, R a b
  | _, _, .cons h hs, hb => by
    rcases List.mem_cons.mp hb with rfl | hb
    · exact ⟨_, List.mem_cons_self, h⟩
    · obtain ⟨a, ha, hr⟩ := exists_mem_of_forall₂ hs hb
      exact ⟨a, List.mem_cons_of_mem _ ha, hr⟩

theorem no_LF {line : Bytes} (h : LF ∉ line) : ∀ c ∈ line, (c == LF) = false := fun c hc => by
  simpa using ne_of_mem_of_not_mem hc h

theorem RecasedText.lines (h : RecasedText rest rest') : List.Forall₂ Recased (headerLines rest)
    (headerLines rest') := by
  unfold headerLines
  induction h with
  | @last line line' hlf hr =>
    have hlf' : LF ∉ line' := fun hm => hlf (hr.mem (by decide) (by decide) hm)
    rw [tokens_all (no_LF hlf), tokens_all (no_LF hlf')]
    simp only [hr.eq_nil_iff]
    split
    · exact .nil
    · exact .cons hr .nil
  | @line line line' rest rest' hlf hr _ ih =>
    have hlf' : LF ∉ line' := fun hm => hlf (hr.mem (by decide) (by decide) hm)
    rw [tokens_line (no_LF hlf) (by decide), tokens_line (no_LF hlf') (by decide)]
    simp only [hr.eq_nil_iff]
    split
    · exact ih
    · exact .cons hr ih

/-- Whatever lines with other spellings there are, there is a text that has them. -/
theorem exists_recasedText (h : List.Forall₂ Recased (headerLines rest) ls) :
    ∃ rest', RecasedText rest rest' ∧ headerLines rest' = ls := by
  induction hn : rest.length using Nat.strongRecOn generalizing rest ls with
  | ind n ih =>
    subst hn
    unfold headerLines at h
    rcases exists_line (· == LF) rest with hlast | ⟨line, d, rest, rfl, hline, hd⟩
    · have hlf : LF ∉ rest := fun hm => by simpa using hlast LF hm
      rw [tokens_all hlast] at h
      split at h
      · next hnil =>
        cases h
        exact ⟨rest, .last hlf (.same rest), by rw [hnil]; rfl⟩
      · next hne =>
        obtain ⟨line', _, hr, hnil, rfl⟩ := List.forall₂_cons_left_iff.mp h
        cases hnil
        have hlf' : LF ∉ line' := fun hm => hlf (hr.mem (by decide) (by decide) hm)
        refine ⟨line', .last hlf hr, ?_⟩
        unfold headerLines
        rw [tokens_all (no_LF hlf'), if_neg (mt hr.eq_nil_iff.mp hne)]
    · have hlf : LF ∉ line := fun hm => by simpa using hline LF hm
      obtain rfl : d = LF := by simpa using hd
      have hshort : rest.length < (line ++ LF :: rest).length := by
        simp only [List.length_append, List.length_cons]
        omega
      rw [tokens_line hline (by decide)] at h
      split at h
      · next hnil =>
        obtain ⟨rest', hrest, hls⟩ := ih _ hshort h rfl
        refine ⟨line ++ LF :: rest', .line hlf (.same line) hrest, ?_⟩
        unfold headerLines
        rw [tokens_line hline (by decide), if_pos hnil]
        exact hls
      · next hne =>
        obtain ⟨line', ls', hr, hrs, rfl⟩ := List.forall₂_cons_left_iff.mp h
        obtain ⟨rest', hrest, hls⟩ := ih _ hshort hrs rfl
        have hlf' : LF ∉ line' := fun hm => hlf (hr.mem (by decide) (by decide) hm)
        refine ⟨line' ++ LF :: rest', .line hlf hr hrest, ?_⟩
        unfold headerLines
        rw [tokens_line (no_LF hlf') (by decide), if_neg (mt hr.eq_nil_iff.mp hne)]
        exact congrArg _ hls

theorem RecasedText.no_NUL (h : RecasedText rest rest') (hnul : NUL ∉ rest) : NUL ∉ rest' := by
  induction h with
  | last _ hr => exact fun hm => hnul (hr.mem (by decide) (by decide) hm)
  | line _ hr _ ih =>
    simp only [List.mem_append, List.mem_cons, not_or] at hnul ⊢
    exact ⟨fun hm => hnul.1 (hr.mem (by decide) (by decide) hm), hnul.2.1, ih hnul.2.2⟩

theorem RecasedText.eq_nil (h : RecasedText rest rest') (hrest : rest = []) : rest' = [] := by
  cases h with
  | last _ hr => exact hr.eq_nil_iff.mpr hrest
  | line => simp at hrest

theorem eq_nil_of_head {line : Bytes} (hlf : LF ∉ line) (h : ∀ c ∈ (line ++ rest).head?, c = LF) : line = [] := by
  cases line with
  | nil => rfl
  | cons c line => exact absurd (h c rfl ▸ List.mem_cons_self) hlf

theorem RecasedText.head (h : RecasedText rest rest') (hrest : ∀ c ∈ rest.head?, c = LF) :
    ∀ c ∈ rest'.head?, c = LF := by
  cases h with
  | last hlf hr =>
    have hnil : rest = [] := eq_nil_of_head hlf (by rwa [List.append_nil])
    rw [hr.eq_nil_iff.mpr hnil]
    simp
  | line hlf hr =>
    rw [hr.eq_nil_iff.mpr (eq_nil_of_head hlf hrest)]
    simp

end Texts

/-! ### Requests -/

/-- The same request, with field names in its header lines in other letters. -/
def RecasedRequest (s s' : Bytes) : Prop := ∃ m file head rest rest',
  Cut s m file rest ∧ s = head ++ rest ∧ s' = head ++ rest' ∧ RecasedText rest rest'

section Requests
variable {lib : Libc} {buffer buffer' s s' m file head rest rest' : Bytes} {q : ParsedHeader}

theorem Cut.split (h : Cut s m file rest) (hne : rest ≠ []) :
    ∃ head, s = head ++ CR :: rest ∧ ∀ u, Cut (head ++ CR :: u) m file u := by
  obtain ⟨u, v, h₁, h₂, h₃⟩ := h
  obtain ⟨head₃, d₃, hd₃, rfl, hcut₃⟩ := strtok_split h₃ hne
  obtain ⟨head₂, d₂, hd₂, rfl, hcut₂⟩ := strtok_split h₂ (by simp)
  obtain ⟨head₁, d₁, hd₁, rfl, hcut₁⟩ := strtok_split h₁ (by simp)
  obtain rfl : d₃ = CR := by simpa using hd₃
  refine ⟨head₁ ++ d₁ :: (head₂ ++ d₂ :: head₃), by simp,
    fun u => ⟨head₂ ++ d₂ :: (head₃ ++ CR :: u), head₃ ++ CR :: u, ?_, hcut₂ _, hcut₃ _⟩⟩
  have hassoc : head₁ ++ d₁ :: (head₂ ++ d₂ :: head₃) ++ CR :: u =
      head₁ ++ d₁ :: (head₂ ++ d₂ :: (head₃ ++ CR :: u)) := by simp
  rw [hassoc]
  exact hcut₁ _

/-- The start of a request is taken by the pattern whatever its header lines are, as long as they begin with a new
    line. -/
theorem regexec_head (h : ∃ e, regexec newline statusLineRegex (head ++ CR :: rest) = some (0, e))
    (hrest : (∀ c ∈ rest.head?, c = LF) → ∀ c ∈ rest'.head?, c = LF) :
    ∃ e, regexec newline statusLineRegex (head ++ CR :: rest') = some (0, e) := by
  obtain ⟨e, h⟩ := h
  obtain ⟨l, r, hs, hr, -⟩ := regexec_statusLine.mp h
  suffices hr' : ∃ r', head ++ CR :: rest' = l.text ++ CR :: r' ∧ ∀ c ∈ r'.head?, c = LF by
    obtain ⟨r', hs', hr'⟩ := hr'
    exact ⟨_, regexec_statusLine.mpr ⟨l, r', hs', hr', rfl⟩⟩
  have hCR : CR ∉ l.text := fun hm => by simpa using l.text_no_CR CR hm
  -- The first CR is behind the request line; the head goes on from there, unless it ends with the line.
  rcases List.append_eq_append_iff.mp hs with ⟨a, htext, ha⟩ | ⟨a, rfl, ha⟩
  · cases a with
    | nil =>
      obtain rfl : rest = r := (List.cons.inj ha).2
      exact ⟨rest', by rw [htext, List.append_nil], hrest hr⟩
    | cons c a =>
      obtain rfl : CR = c := (List.cons.inj ha).1
      exact absurd (by simp [htext]) hCR
  · cases a with
    | nil =>
      obtain rfl : r = rest := (List.cons.inj ha).2
      exact ⟨rest', by rw [List.append_nil], hrest hr⟩
    | cons c a =>
      obtain ⟨rfl, rfl⟩ := List.cons.inj ha
      refine ⟨a ++ CR :: rest', by simp, ?_⟩
      cases a with
      | nil => simpa using hr
      | cons d a => simpa using hr

theorem parse_recased (hc : cstring buffer = .ok s) (h : parseHttpHeader lib buffer = .ok q) (ha : Accepted q.httpState)
    (hcut : Cut s m file rest) (hs : s = head ++ rest) (hr : RecasedText rest rest')
    (hc' : cstring buffer' = .ok (head ++ rest')) :
    parseHttpHeader lib buffer' = .ok ((tokenFields m file).withLines lib (headerLines rest')) := by
  obtain ⟨hmatch, m', file', r, hcut', hsup, -⟩ := (accepted_iff hc).mp ⟨h, ha⟩
  obtain ⟨rfl, rfl, rfl⟩ := hcut.unique hcut'
  by_cases hnil : r = []
  · rw [hr.eq_nil hnil, ← hnil, ← hs] at hc'
    rw [hr.eq_nil hnil, ← hnil]
    exact ((accepted_iff hc').mpr ⟨hmatch, _, _, _, hcut, hsup, rfl⟩).1
  · obtain ⟨pre, rfl, hcuts⟩ := hcut.split hnil
    obtain rfl : head = pre ++ [CR] := by
      refine List.append_cancel_right (hs.symm.trans ?_)
      simp
    rw [List.append_assoc, List.singleton_append] at hc'
    exact ((accepted_iff hc').mpr ⟨regexec_head hmatch hr.head, _, _, _, hcuts rest', hsup, rfl⟩).1

theorem Cut.exists_head (h : Cut s m file rest) : ∃ head, s = head ++ rest := by
  by_cases hnil : rest = []
  · exact ⟨s, by rw [hnil, List.append_nil]⟩
  · obtain ⟨head, hs, -⟩ := h.split hnil
    exact ⟨head ++ [CR], by rw [hs, List.append_assoc, List.singleton_append]⟩

/-- With any spelling of the lines there is a request, and its lines give the date. -/
theorem exists_recased_modsince (hc : cstring buffer = .ok s) (h : parseHttpHeader lib buffer = .ok q)
    (ha : Accepted q.httpState) (hcut : Cut s m file rest) {ls : List Bytes}
    (hls : List.Forall₂ Recased (headerLines rest) ls) :
    ∃ buffer' s' q', cstring buffer' = .ok s' ∧ RecasedRequest s s' ∧ parseHttpHeader lib buffer' = .ok q' ∧
      q'.modsince = lastDate lib ls := by
  obtain ⟨head, rfl⟩ := hcut.exists_head
  obtain ⟨rest', hr, rfl⟩ := exists_recasedText hls
  have hnul : NUL ∉ head ++ rest' := by
    have hs := no_nul_of_cstring hc
    rw [List.mem_append, not_or] at hs ⊢
    exact hs.imp_right hr.no_NUL
  have hc' : cstring (head ++ rest' ++ [NUL]) = .ok (head ++ rest') := cstring_append_nul hnul
  exact ⟨_, _, _, hc', ⟨m, file, head, rest, rest', hcut, rfl, rfl, hr⟩, parse_recased hc h ha hcut rfl hr hc', rfl⟩

theorem RecasedRequest.parse (hr : RecasedRequest s s') (hc : cstring buffer = .ok s)
    (h : parseHttpHeader lib buffer = .ok q) (ha : Accepted q.httpState) (hcut : Cut s m file rest)
    (hc' : cstring buffer' = .ok s') : ∃ rest',
      RecasedText rest rest' ∧ parseHttpHeader lib buffer' =
        .ok ((tokenFields m file).withLines lib (headerLines rest')) := by
  obtain ⟨m', file', head, r, rest', hcut', hs, rfl, hr⟩ := hr
  obtain ⟨rfl, rfl, rfl⟩ := hcut.unique hcut'
  exact ⟨rest', hr, parse_recased hc h ha hcut hs hr hc'⟩

/-- The letters of the field names do not matter exactly in a request without a date other than 0, in whatever
    letters its name is written. -/
theorem caseIrrelevant_iff (hlib : ReadsName lib) (hc : cstring buffer = .ok s) (h : parseHttpHeader lib buffer = .ok q)
    (ha : Accepted q.httpState) (hcut : Cut s m file rest) :
    (∀ buffer' s', cstring buffer' = .ok s' → RecasedRequest s s' →
      parseHttpHeader lib buffer' = parseHttpHeader lib buffer) ↔
      ∀ line ∈ headerLines rest, ∀ t, Dated lib line t → t = .epoch := by
  constructor
  · intro hsame line hline t ht
    have hdate {ls : List Bytes} (hls : List.Forall₂ Recased (headerLines rest) ls) : q.modsince = lastDate lib ls := by
      obtain ⟨buffer', s', q', hc', hr, hq', hdate⟩ := exists_recased_modsince hc h ha hcut hls
      obtain rfl := Except.ok.inj (hq'.symm.trans ((hsame buffer' s' hc' hr).trans h))
      exact hdate
    obtain ⟨dated, hrd, hd⟩ := exists_lines_with_date hlib hline ht
    obtain ⟨silent, hrs, hs⟩ := exists_silent_lines hlib (headerLines rest)
    have hnone : lastDate lib silent = .epoch := lastOf_none hs
    rw [← hd, ← hdate hrd, hdate hrs, hnone]
  · intro hepoch buffer' s' hc' hr
    obtain ⟨rest', hr, hparse⟩ := hr.parse hc h ha hcut hc'
    rw [hparse, h, eq_withLines_of_cut hc h ha hcut]
    have hline : ∀ line line', Recased line line' → rangeOf line' = rangeOf line := fun _ _ => rangeOf_recased
    have hrange {d : HttpStatus × Int × Int} : lastOf rangeOf d (headerLines rest') =
        lastOf rangeOf d (headerLines rest) :=
      lastOf_forall₂ hline hr.lines
    have hdate : lastDate lib (headerLines rest) = .epoch :=
      lastOf_const fun line hline t ht => hepoch line hline t (dated_of_recased hlib (.same line) ht)
    have hdate' : lastDate lib (headerLines rest') = .epoch := by
      refine lastOf_const fun line' hline' t ht => ?_
      obtain ⟨line, hline, hr⟩ := exists_mem_of_forall₂ hr.lines hline'
      exact hepoch line hline t (dated_of_recased hlib hr ht)
    have hmodsince : lastOf lib.ifModifiedSince (tokenFields m file).modsince (headerLines rest') =
        lastOf lib.ifModifiedSince (tokenFields m file).modsince (headerLines rest) := hdate'.trans hdate.symm
    show Except.ok ((tokenFields m file).withLines lib (headerLines rest')) =
      .ok ((tokenFields m file).withLines lib (headerLines rest))
    simp only [ParsedHeader.withLines, hrange, hmodsince]

end Requests

/-! ### A date of 2038 -/

/-- The first second that an `int` does not count to, as a date. -/
def dateValue : Bytes := str " Tue, 19 Jan 2038 03:14:08 GMT\r"

/-- A library that reads this one line as a date. -/
def dateLibc : Libc := readsDate (dateName ++ 0x3A :: dateValue) year2038

/-- The header lines, with the name of the date in these letters. -/
def dateText (name : Bytes) : Bytes := [] ++ LF :: ((name ++ 0x3A :: dateValue) ++ LF :: str "\r")

theorem readsName_dateLibc : ReadsName dateLibc := by
  intro line t h
  by_cases hline : line = dateName ++ 0x3A :: dateValue
  · exact ⟨dateValue, by simp [hline]⟩
  · have hnone : dateLibc.ifModifiedSince line = none := if_neg hline
    cases hnone.symm.trans h

theorem caseIrrelevant_iff_example :
    (∀ buffer' s', cstring buffer' = .ok s' → RecasedRequest (str "GET / HTTP/1.1\r" ++ dateText dateName) s' →
      parseHttpHeader dateLibc buffer' = parseHttpHeader dateLibc
        (str "GET / HTTP/1.1\r" ++ dateText dateName ++ [NUL])) ↔
    ∀ line ∈ headerLines (dateText dateName), ∀ t, Dated dateLibc line t → t = .epoch :=
  caseIrrelevant_iff readsName_dateLibc (by decide +kernel) (show parseHttpHeader dateLibc
    (str "GET / HTTP/1.1\r" ++ dateText dateName ++ [NUL]) = .ok {
      method := .text (str "GET")
      filename := .text DEFAULT_HTML_PAGE
      protocol := .text (str "HTTP/1.1")
      httpState := .ok
      modsince := year2038 } by decide +kernel) (by decide)
    (show Cut _ (str "GET") (str "/") _ from
      ⟨str "/ HTTP/1.1\r" ++ dateText dateName, str "HTTP/1.1\r" ++ dateText dateName,
      by decide +kernel, by decide +kernel, by decide +kernel⟩)

/-- A client that writes the name in lower case gets no date. -/
theorem lowerCase_ignored : RecasedRequest (str "GET / HTTP/1.1\r" ++ dateText dateName)
      (str "GET / HTTP/1.1\r" ++ dateText (str "if-modified-since")) ∧
    (∃ q, parseHttpHeader dateLibc (str "GET / HTTP/1.1\r" ++ dateText dateName ++ [NUL]) = .ok q ∧
      Accepted q.httpState) ∧
    parseHttpHeader dateLibc (str "GET / HTTP/1.1\r" ++ dateText (str "if-modified-since") ++ [NUL]) ≠
      parseHttpHeader dateLibc (str "GET / HTTP/1.1\r" ++ dateText dateName ++ [NUL]) := by
  refine ⟨⟨str "GET", str "/", _, _, _, ?_, rfl, rfl, ?_⟩, ?_, by decide +kernel⟩
  · exact ⟨str "/ HTTP/1.1\r" ++ dateText dateName, str "HTTP/1.1\r" ++ dateText dateName,
      by decide +kernel, by decide +kernel, by decide +kernel⟩
  · refine .line (by decide) (.same []) (.line (by decide +kernel) (.name (by decide +kernel) (by decide +kernel))
      (.last ?_ (.same _)))
    decide +kernel
  · exact ⟨{
      method := .text (str "GET")
      filename := .text DEFAULT_HTML_PAGE
      protocol := .text (str "HTTP/1.1")
      httpState := .ok
      modsince := year2038 }, by decide +kernel, by decide⟩

end Distsys.Tinyweb
