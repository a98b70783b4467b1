import Distsys.Lib.Bytes

/-! The head of a message: lines that end in CR LF, up to the first empty one. This is how the reader
    of a message finds its fields and the place where its body begins. -/

namespace Distsys

def CRLF : Bytes := [CR, LF]

/-- The first line of a text, without its CR LF, and what follows it. -/
def takeLine : Bytes → Option (Bytes × Bytes)
  | c :: d :: rest =>
    if c = CR ∧ d = LF then some ([], rest) else (takeLine (d :: rest)).map fun p => (c :: p.1, p.2)
  | _ => none

/-- The lines before the first empty line and the text after it, when that is among the first `n` lines. -/
def takeHead : Nat → Bytes → Option (List Bytes × Bytes)
  | 0, _ => none
  | n + 1, s => match takeLine s with
    | none => none
    | some ([], rest) => some ([], rest)
    | some (c :: l, rest) => (takeHead n rest).map fun p => ((c :: l) :: p.1, p.2)

/-- A message: the lines of its head and its body. -/
def readMessage (s : Bytes) : Option (List Bytes × Bytes) := takeHead (s.length + 1) s

/-- The lines of a text that are complete, at most `n` of them. -/
def linesUpTo : Nat → Bytes → List Bytes
  | 0, _ => []
  | n + 1, s => match takeLine s with
    | none => []
    | some (l, rest) => l :: linesUpTo n rest

def lines (s : Bytes) : List Bytes := linesUpTo (s.length + 1) s

/-- The value of the first field with the given name, colon and space included. -/
def field (name : Bytes) (ls : List Bytes) : Option Bytes :=
  (ls.find? (name.isPrefixOf ·)).map (·.drop name.length)

section Head
variable {l s t rest body name : Bytes} {ls : List Bytes} {n : Nat}

theorem takeLine_append (hl : LF ∉ l) : takeLine (l ++ CRLF ++ rest) = some (l, rest) := by
  induction l with
  | nil => simp [CRLF, takeLine]
  | cons c l ih =>
    have ih := ih fun h => hl (List.mem_cons_of_mem _ h)
    cases l with
    | nil => simp [CRLF, takeLine, CR, LF]
    | cons d l =>
      have hd : d ≠ LF := fun h => hl (by simp [h])
      simp only [List.cons_append] at ih ⊢
      rw [takeLine, ih]
      simp [hd]

theorem takeLine_eq_some (h : takeLine s = some (l, rest)) : s = l ++ CRLF ++ rest := by
  induction s generalizing l with
  | nil => simp [takeLine] at h
  | cons c s ih =>
    cases s with
    | nil => simp [takeLine] at h
    | cons d s =>
      rw [takeLine] at h
      split at h
      · next hcd =>
        cases h
        simp [CRLF, hcd.1, hcd.2]
      · obtain ⟨p, hp, heq⟩ := Option.map_eq_some_iff.mp h
        cases heq
        rw [ih hp]
        simp

theorem takeLine_append_right (h : takeLine s = some (l, rest)) : takeLine (s ++ t) = some (l, rest ++ t) := by
  induction s generalizing l with
  | nil => simp [takeLine] at h
  | cons c s ih =>
    cases s with
    | nil => simp [takeLine] at h
    | cons d s =>
      simp only [List.cons_append] at ih ⊢
      rw [takeLine] at h ⊢
      split at h
      · next hcd =>
        cases h
        rw [if_pos hcd]
      · next hcd =>
        obtain ⟨p, hp, heq⟩ := Option.map_eq_some_iff.mp h
        cases heq
        rw [if_neg hcd, ih hp]
        rfl

theorem takeLine_isSome (s rest : Bytes) : ∃ l t, takeLine (s ++ CRLF ++ rest) = some (l, t) := by
  induction s with
  | nil => exact ⟨[], rest, by simp [CRLF, takeLine]⟩
  | cons c s ih =>
    obtain ⟨l, t, h⟩ := ih
    obtain ⟨d, u, hu⟩ : ∃ d u, s ++ CRLF ++ rest = d :: u := by
      cases s <;> simp [CRLF]
    rw [List.cons_append, List.cons_append, hu, takeLine]
    rw [hu] at h
    split
    · exact ⟨[], u, rfl⟩
    · exact ⟨c :: l, t, by simp [h]⟩

theorem takeLine_prefix (hl : CR ∉ l) (h : takeLine (l ++ t) = some (s, rest)) :
    ∃ u, s = l ++ u ∧ t = u ++ CRLF ++ rest := by
  have heq := takeLine_eq_some h
  rw [List.append_assoc] at heq
  rcases List.append_eq_append_iff.mp heq with ⟨u, rfl, hu⟩ | ⟨u, rfl, hu⟩
  · exact ⟨u, rfl, by rw [hu, List.append_assoc]⟩
  · cases u with
    | nil => exact ⟨[], by simp, by simpa using hu.symm⟩
    | cons c u =>
      obtain ⟨rfl, -⟩ : CR = c ∧ _ := by simpa [CRLF] using hu
      simp at hl

theorem takeLine_length (h : takeLine s = some (l, rest)) : rest.length + 2 ≤ s.length := by
  have := congrArg List.length (takeLine_eq_some h)
  simp [CRLF] at this
  omega

theorem takeHead_stable : ∀ {n m : Nat} {s : Bytes}, s.length < n → s.length < m → takeHead n s = takeHead m s
  | n + 1, m + 1, s, hn, hm => by
    unfold takeHead
    split
    · rfl
    · rfl
    · next c l rest h =>
      have := takeLine_length h
      rw [takeHead_stable (n := n) (m := m) (by omega) (by omega)]

theorem linesUpTo_stable : ∀ {n m : Nat} {s : Bytes}, s.length < n → s.length < m → linesUpTo n s = linesUpTo m s
  | n + 1, m + 1, s, hn, hm => by
    unfold linesUpTo
    split
    · rfl
    · next l rest h =>
      have := takeLine_length h
      rw [linesUpTo_stable (n := n) (m := m) (by omega) (by omega)]

theorem readMessage_eq_some (h : readMessage s = some (ls, body)) : ∃ l rest, takeLine s = some (l, rest) ∧
    (l = [] ∧ ls = [] ∧ body = rest ∨ l ≠ [] ∧ ∃ ls', ls = l :: ls' ∧ readMessage rest = some (ls', body)) := by
  unfold readMessage takeHead at h
  split at h
  · cases h
  · next rest hline =>
    cases h
    exact ⟨[], _, hline, Or.inl ⟨rfl, rfl, rfl⟩⟩
  · next c l rest hline =>
    obtain ⟨⟨ls', body'⟩, hrest, heq⟩ := Option.map_eq_some_iff.mp h
    cases heq
    have := takeLine_length hline
    refine ⟨c :: l, rest, hline, Or.inr ⟨by simp, ls', rfl, ?_⟩⟩
    unfold readMessage
    rw [takeHead_stable (m := s.length) (by omega) (by omega)]
    exact hrest

/-- The head of a message begins with the line that its text begins with. -/
theorem readMessage_head (h : readMessage s = some (ls, body)) (hs : s <+: l ++ CRLF ++ t) (hl : LF ∉ l)
    (hne : l ≠ []) :
    ls.head? = some l := by
  obtain ⟨l', rest, hline, hcases⟩ := readMessage_eq_some h
  obtain ⟨u, hu⟩ := hs
  have hlong := takeLine_append_right (t := u) hline
  rw [hu, takeLine_append hl, Option.some.injEq, Prod.mk.injEq] at hlong
  obtain ⟨rfl, -⟩ := hlong
  obtain ⟨-, ls', rfl, -⟩ := hcases.resolve_left fun h => hne h.1
  rfl

theorem readMessage_line (hl : LF ∉ l) (hne : l ≠ []) :
    readMessage (l ++ CRLF ++ rest) = (readMessage rest).map fun p => (l :: p.1, p.2) := by
  obtain ⟨c, t, rfl⟩ := List.exists_cons_of_ne_nil hne
  unfold readMessage
  rw [takeHead, takeLine_append hl]
  simp only
  rw [takeHead_stable (m := rest.length + 1) (by simp [CRLF]; omega) (by omega)]

theorem readMessage_end : readMessage (CRLF ++ body) = some ([], body) := by
  simp [readMessage, takeHead, CRLF, takeLine]

/-- A line that is cut, be it only in its CR LF, does not end. -/
theorem LF_not_mem_snprintf {size : Nat} (hl : LF ∉ l) (h : size ≤ l.length + 2) : LF ∉ snprintf size (l ++ CRLF) := by
  unfold snprintf
  rw [List.take_append, List.mem_append, not_or]
  refine ⟨fun hm => hl (List.mem_of_mem_take hm), fun hm => ?_⟩
  have hone : CRLF.take 1 = [CR] := rfl
  have hsub := List.take_subset_take_left CRLF (show size - 1 - l.length ≤ 1 by omega) hm
  rw [hone, List.mem_singleton] at hsub
  exact absurd hsub (by decide)

theorem suffix_snprintf_iff {size : Nat} (hl : LF ∉ l) : CRLF <:+ snprintf size (l ++ CRLF) ↔ l.length + 2 < size := by
  have hlen : (l ++ CRLF).length = l.length + 2 := List.length_append
  constructor
  · intro hend
    by_contra hcut
    exact LF_not_mem_snprintf hl (Nat.not_lt.mp hcut) (hend.subset (by simp [CRLF]))
  · intro hfits
    rw [snprintf_of_lt (hlen ▸ hfits)]
    exact List.suffix_append l CRLF

theorem snprintf_of_suffix {size : Nat} (hl : LF ∉ l) (h : CRLF <:+ snprintf size (l ++ CRLF)) :
    snprintf size (l ++ CRLF) = l ++ CRLF := by
  have hlen : (l ++ CRLF).length = l.length + 2 := List.length_append
  exact snprintf_of_lt (hlen ▸ (suffix_snprintf_iff hl).mp h)

theorem lines_eq (h : takeLine s = some (l, rest)) : lines s = l :: lines rest := by
  have := takeLine_length h
  unfold lines
  rw [linesUpTo, h]
  simp only
  rw [linesUpTo_stable (m := rest.length + 1) (by omega) (by omega)]

theorem lines_append : ∀ {ls : List Bytes}, (∀ l ∈ ls, LF ∉ l) →
    lines (ls.flatMap (· ++ CRLF) ++ rest) = ls ++ lines rest
  | [], _ => by simp
  | l :: ls, h => by
    have ih : lines (ls.flatMap (· ++ CRLF) ++ rest) = ls ++ lines rest :=
      lines_append fun x hx => h x (List.mem_cons_of_mem _ hx)
    rw [List.flatMap_cons, List.append_assoc, lines_eq (takeLine_append (h l List.mem_cons_self)), ih, List.cons_append]

theorem readMessage_lines : ∀ {ls : List Bytes}, (∀ l ∈ ls, LF ∉ l ∧ l ≠ []) →
    readMessage (ls.flatMap (· ++ CRLF) ++ rest) = (readMessage rest).map fun p => (ls ++ p.1, p.2)
  | [], _ => by simp
  | l :: ls, h => by
    have ih : readMessage (ls.flatMap (· ++ CRLF) ++ rest) = (readMessage rest).map fun p => (ls ++ p.1, p.2) :=
      readMessage_lines fun x hx => h x (List.mem_cons_of_mem _ hx)
    obtain ⟨hl, hne⟩ := h l List.mem_cons_self
    rw [List.flatMap_cons, List.append_assoc, readMessage_line hl hne, ih, Option.map_map]
    rfl

theorem takeHead_length : ∀ {n : Nat} {s : Bytes} {ls body}, takeHead n s = some (ls, body) → body.length + 2 ≤ s.length
  | n + 1, s, ls, body, h => by
    unfold takeHead at h
    split at h
    · cases h
    · next rest hl =>
      cases h
      exact takeLine_length hl
    · next c l rest hl =>
      obtain ⟨⟨ls', body'⟩, hq, heq⟩ := Option.map_eq_some_iff.mp h
      cases heq
      have := takeHead_length hq
      have := takeLine_length hl
      simp only
      omega

theorem readMessage_length (h : readMessage s = some (ls, body)) : body.length + 2 ≤ s.length := takeHead_length h

theorem field_cons_self (v : Bytes) : field name ((name ++ v) :: ls) = some v := by
  simp [field]

theorem field_cons_of_ne (h : name.isPrefixOf l = false) : field name (l :: ls) = field name ls := by
  simp [field, h]

theorem field_append_nil (hne : name ≠ []) : field name (ls ++ [[]]) = field name ls := by
  have hempty : name.isPrefixOf [] = false := by cases name with
    | nil => exact absurd rfl hne
    | cons => rfl
  unfold field
  rw [List.find?_append, List.find?_singleton, if_neg (by simp [hempty]), Option.or_none]

end Head

/-! ### A lenient reader

A line feed ends a line, with or without a carriage return before it. -/

/-- A line without the carriage return at its end. -/
def stripCR (l : Bytes) : Bytes := if l.getLast? = some CR then l.dropLast else l

/-- The lines before the first empty one and what follows that. The first argument is the line read so far. -/
def splitHead : Bytes → Bytes → List Bytes × Bytes
  | l, [] => (if l = [] then [] else [l], [])
  | l, c :: s =>
    if c = LF then
      if stripCR l = [] then ([], s) else (stripCR l :: (splitHead [] s).1, (splitHead [] s).2)
    else splitHead (l ++ [c]) s

def headLines (s : Bytes) : List Bytes := (splitHead [] s).1

def messageBody (s : Bytes) : Bytes := (splitHead [] s).2

section Lenient
variable {l rest : Bytes}

end Lenient
end Distsys
