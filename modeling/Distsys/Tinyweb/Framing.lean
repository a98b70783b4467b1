import Distsys.Tinyweb.FullTransfer

/-! Framing: the length that a header states and the number of bytes that follow it. The first comes from
    the size of the file and the start of the range and is cut to a fixed number of characters, the second
    from the loop. -/

namespace Distsys.Tinyweb

/-! ### The stated length -/

/-- The number at the start of a text, as `strtol` reads it. -/
def readInt : Bytes → Int
  | 0x2D :: ds => -(value (ds.takeWhile isdigit) : Int)
  | ds => value (ds.takeWhile isdigit)

/-- The length that a header states. -/
def statedLength (text : Bytes) : Option Int := (field (httpHeaderFieldList .contentLength) (lines text)).map readInt

/-- What is left to read of a number that is cut after `k` characters. -/
def printed (k : Nat) (z : Int) : Int := readInt ((decimalInt z).take k)

section Stated
variable {z : Int} {n k : Nat} {t : Bytes} {env : Env} {q : ParsedHeader} {status : HttpStatus} {filepath : Bytes}
  {st : Inode}

theorem readInt_digits {w : Bytes} (hw : ∀ c ∈ w, isdigit c = true) (hne : w ≠ [])
    (ht : ∀ c ∈ t.head?, isdigit c = false) :
    readInt (w ++ t) = value w := by
  obtain ⟨c, u, rfl⟩ := List.exists_cons_of_ne_nil hne
  have hc : c ≠ 0x2D := ne_of_class (hw c List.mem_cons_self) (by decide)
  have htake := takeWhile_digits hw ht
  rw [List.cons_append] at htake ⊢
  unfold readInt
  split
  · next ds heq => exact absurd (List.cons.inj heq).1 hc
  · rw [htake]

theorem isdigit_of_mem_take_decimal {c : UInt8} (h : c ∈ (decimal n).take k) : isdigit c = true :=
  isdigit_of_mem_decimal (List.mem_of_mem_take h)

theorem take_decimal_ne_nil (hk : 0 < k) : (decimal n).take k ≠ [] := by
  rw [ne_eq, List.take_eq_nil_iff, not_or]
  exact ⟨by omega, decimal_ne_nil n⟩

theorem readInt_take_append (hk : 0 < k) (ht : ∀ c ∈ t.head?, isdigit c = false) :
    readInt ((decimalInt z).take k ++ t) = printed k z := by
  unfold printed decimalInt
  split
  · -- The sign is read apart from the digits.
    obtain ⟨j, rfl⟩ : ∃ j, k = j + 1 := ⟨k - 1, by omega⟩
    have h₁ := takeWhile_digits (w := (decimal z.natAbs).take j) (fun _ => isdigit_of_mem_take_decimal) ht
    have h₂ := takeWhile_digits (w := (decimal z.natAbs).take j) (t := []) (fun _ => isdigit_of_mem_take_decimal)
      (by simp)
    rw [List.append_nil] at h₂
    simp only [List.take_succ_cons, List.cons_append, readInt, h₁, h₂]
  · have h₁ := readInt_digits (fun _ => isdigit_of_mem_take_decimal) (take_decimal_ne_nil hk) ht
      (w := (decimal z.toNat).take k)
    have h₂ := readInt_digits (fun _ => isdigit_of_mem_take_decimal) (take_decimal_ne_nil hk) (by simp) (t := [])
      (w := (decimal z.toNat).take k)
    rw [List.append_nil] at h₂
    rw [h₁, h₂]

theorem printed_natCast (hk : 0 < k) : printed k n = value ((decimal n).take k) := by
  have h := readInt_digits (w := (decimal n).take k) (t := []) (fun _ => isdigit_of_mem_take_decimal)
    (take_decimal_ne_nil hk) (by simp)
  rwa [List.append_nil, ← decimalInt_natCast] at h

theorem snprintf_contentLengthLine : snprintf (17 + k) (contentLengthLine z) =
    httpHeaderFieldList .contentLength ++ ((decimalInt z).take k ++ CRLF.take (k - (decimalInt z).length)) := by
  have hlen : (httpHeaderFieldList .contentLength).length = 16 := by decide
  unfold snprintf contentLengthLine
  have hleft : 17 + k - 1 - 16 = k := by omega
  rw [List.append_assoc, List.take_append, hlen, List.take_of_length_le (by omega), List.take_append, hleft]

theorem contentTypeLine_eq (filepath : Bytes) : ∃ t, contentTypeLine filepath = 0x43 :: t := ⟨_, rfl⟩

/-- Whatever is left of the end of a line, and the letter that begins the next one, is no digit. -/
theorem isdigit_head_cutLine {c : UInt8} (h : c ∈ (CRLF.take k ++ 0x43 :: t).head?) : isdigit c = false := by
  cases k with
  | zero =>
    obtain rfl : 0x43 = c := by simpa using h
    decide
  | succ k =>
    obtain rfl : CR = c := by simpa [CRLF] using h
    decide

theorem le_of_cutLine {rest : Bytes} (h : CRLF.take k ++ 0x43 :: t = CRLF ++ rest) : 2 ≤ k := by
  match k with
  | 0 => simp [CRLF, CR] at h
  | 1 => simp [CRLF, LF] at h
  | k + 2 => omega

/-- The length and the number of characters that are left of it. -/
def lengthField (st : Inode) (start end_ : Int) : Nat × Int :=
  if IsPartial start end_ then (6, wrap32 (st.size - start)) else (10, st.size)

theorem fields_fileHeader (status : HttpStatus) (filepath : Bytes) (st : Inode) (start end_ : Int) :
    ∃ rest, (fileHeader status filepath st start end_).fields =
    httpHeaderFieldList .contentLength ++ ((decimalInt (lengthField st start end_).2).take
      (lengthField st start end_).1 ++
      (CRLF.take ((lengthField st start end_).1 - (decimalInt (lengthField st start end_).2).length) ++
        contentTypeLine filepath ++ rest)) := by
  unfold HttpHeader.fields fileHeader lengthField
  by_cases hp : IsPartial start end_
  · have h := snprintf_contentLengthLine (k := 6) (z := wrap32 (st.size - start))
    simp [hp, h]
  · have h := snprintf_contentLengthLine (k := 10) (z := st.size)
    simp [hp, h]

theorem CR_not_mem_decimalInt (z : Int) : CR ∉ decimalInt z := by
  have hdec (n : Nat) : CR ∉ decimal n := fun h => absurd (isdigit_of_mem_decimal h) (by decide)
  unfold decimalInt
  split
  · rw [List.mem_cons, not_or]
    exact ⟨by decide, hdec _⟩
  · exact hdec _

theorem CR_not_mem_lengthField : CR ∉ httpHeaderFieldList .contentLength ++ (decimalInt z).take k := by
  rw [List.mem_append, not_or]
  exact ⟨by decide, fun h => CR_not_mem_decimalInt z (List.mem_of_mem_take h)⟩

theorem statedLength_fileText : statedLength (fileText env q status filepath st) =
    some (printed (lengthField st q.byteStart q.byteEnd).1 (lengthField st q.byteStart q.byteEnd).2) := by
  obtain ⟨rest, hrest⟩ := fields_fileHeader status filepath st q.byteStart q.byteEnd
  have hk : 0 < (lengthField st q.byteStart q.byteEnd).1 := by unfold lengthField; split <;> simp
  generalize (lengthField st q.byteStart q.byteEnd).1 = k at *
  generalize (lengthField st q.byteStart q.byteEnd).2 = z at *
  have hfixed : lines (fileText env q status filepath st) = fixedLines status env.now ++
      lines ((fileHeader status filepath st q.byteStart q.byteEnd).fields ++ CRLF) := by
    unfold fileText
    rw [text_eq_fixedLines]
    exact lines_append fun l hl => (fixedLines_are_lines l hl).1
  -- The line of the length ends at the latest where that of the content type does.
  let tail := CRLF.take (k - (decimalInt z).length) ++ contentTypeLine filepath ++ rest ++ CRLF
  have hfields : (fileHeader status filepath st q.byteStart q.byteEnd).fields ++ CRLF =
      httpHeaderFieldList .contentLength ++ (decimalInt z).take k ++ tail := by
    rw [hrest]
    simp [tail]
  obtain ⟨l, after, hline⟩ := takeLine_isSome (fileHeader status filepath st q.byteStart q.byteEnd).fields []
  rw [List.append_nil] at hline
  obtain ⟨u, rfl, hu⟩ := takeLine_prefix CR_not_mem_lengthField (hfields ▸ hline)
  have htail : ∀ c ∈ tail.head?, isdigit c = false := by
    obtain ⟨t, ht⟩ := contentTypeLine_eq filepath
    intro c hc
    simp only [tail, ht, List.append_assoc, List.cons_append] at hc
    exact isdigit_head_cutLine hc
  have hstop : ∀ c ∈ u.head?, isdigit c = false := by
    intro c hc
    refine htail c ?_
    rw [hu]
    cases u with
    | nil => simp at hc
    | cons d u => simpa using hc
  unfold statedLength
  rw [hfixed, field_fixedLines (by decide), lines_eq hline, List.append_assoc, field_cons_self, Option.map_some,
    readInt_take_append hk hstop]

end Stated

/-! ### The stated and the sent length -/

section Agreement
variable {st : Inode} {start end_ z : Int} {n k : Nat}

/-- A size of at most ten digits is stated as it is. -/
theorem printed_eq_self (h : n < 10 ^ 10) : printed 10 n = n := by
  rw [printed_natCast (by omega), (value_take_decimal (by omega)).mpr h]

end Agreement

/-! ### Headers with a length -/

section Headers
variable {env : Env} {q : ParsedHeader} {status s : HttpStatus} {text sent filepath file : Bytes} {st : Inode}
  {sched : Schedule}

theorem header_sendFile (h : .header status text sent ∈ (sendFile env q s filepath st sched).events) :
    HeaderCreated env.libc st q.byteStart q.byteEnd ∧ status = s ∧ text = fileText env q s filepath st := by
  obtain ⟨halloc, ⟨_, h⟩ | ⟨_, h⟩ | h | ⟨_, _, h⟩⟩ := mem_sendFile h <;> cases h
  exact ⟨halloc, rfl, rfl⟩

/-- The status of an answer, if the server itself sends one. -/
def Answer.status? : Answer → Option HttpStatus
  | .reply status _ _ => some status
  | .redirect _ _ => some .movedPermanently
  | .head _ _ => some .ok
  | .file status _ _ => some status
  | .cgi _ | .fault _ => none

theorem header_perform {answer : Answer} (h : .header status text sent ∈ (perform env q sched answer).events) :
    answer.status? = some status := by
  cases answer with
  | reply s fp fstat =>
    rcases mem_reply h with ⟨_, h⟩ | ⟨_, h⟩ <;> cases h
    rfl
  | redirect filepath st =>
    rcases mem_redirect h with ⟨_, h⟩ | ⟨_, _, h⟩ <;> cases h
    rfl
  | head filepath st =>
    rcases mem_replyHead h with ⟨_, h⟩ | ⟨_, h⟩ <;> cases h
    rfl
  | file s filepath st =>
    obtain ⟨-, rfl, -⟩ := header_sendFile h
    rfl
  | cgi filepath =>
    simp only [perform] at h
    obtain ⟨_, _, h⟩ := mem_runCgi h
    cases h
  | fault f => cases h

end Headers

/-! ### Framing -/

end Distsys.Tinyweb
