import Distsys.Tinyweb.HttpParser

/-! A range line and what the parser reads from it. The regular expression finds the line, and a scan
    backwards from the end of the match reads the two numbers: `scanRange_of_isRange` says which. -/

namespace Distsys.Tinyweb
open Regex

/-- A line with a range: a field name up to `bytes=`, digits, a hyphen, digits, and a rest that begins
    with no digit. -/
structure IsRange (line name first last rest : Bytes) : Prop where
  eq : line = name ++ first ++ 0x2D :: last ++ rest
  name_mem : name ∈ rangeNameRegex.lang
  first_digits : ∀ c ∈ first, isdigit c = true
  last_digits : ∀ c ∈ last, isdigit c = true
  some_digit : first ≠ [] ∨ last ≠ []
  stop : ∀ c ∈ rest.head?, isdigit c = false

/-! ### The words of the pattern -/

section Words
variable {w u name first last : Bytes}

theorem mem_lang_textIcase : ∀ {u w : Bytes}, w ∈ (textIcase u).lang ↔ w.map tolower = u.map tolower
  | [], w => by
    simp only [textIcase, List.map_nil, List.map_eq_nil_iff]
    exact Iff.rfl
  | c :: u, w => by
    simp only [textIcase, mem_lang_cat, mem_lang_set, mem_lang_textIcase, beq_iff_eq, List.map_cons]
    constructor
    · rintro ⟨_, ⟨d, hd, rfl⟩, v, hv, rfl⟩
      simp [hd, hv]
    · intro h
      obtain ⟨d, v, rfl, hd, hv⟩ := List.map_eq_cons_iff.mp h
      exact ⟨[d], ⟨d, hd, rfl⟩, v, hv, rfl⟩

theorem plain_textIcase : ∀ u : Bytes, (textIcase u).Plain
  | [] => trivial
  | _ :: u => ⟨trivial, plain_textIcase u⟩

theorem plain_rangeNameRegex : rangeNameRegex.Plain :=
  ⟨plain_textIcase _, trivial, plain_text _, trivial, plain_textIcase _⟩

theorem plain_rangeSpecRegex : rangeSpecRegex.Plain :=
  ⟨⟨⟨trivial, trivial⟩, plain_text _, trivial⟩, plain_text _, trivial, trivial⟩

theorem mem_lang_rangeSpecRegex : w ∈ rangeSpecRegex.lang ↔ ∃ first last, w = first ++ 0x2D :: last ∧
    (∀ c ∈ first, isdigit c = true) ∧ (∀ c ∈ last, isdigit c = true) ∧ (first ≠ [] ∨ last ≠ []) := by
  have hyphen : str "-" = [0x2D] := rfl
  simp only [rangeSpecRegex, mem_lang_alt, mem_lang_cat, mem_lang_plus_set, mem_lang_star_set, mem_lang_text, hyphen]
  constructor
  · rintro (⟨first, ⟨hne, hf⟩, _, ⟨_, rfl, last, hl, rfl⟩, rfl⟩ | ⟨_, rfl, last, ⟨hne, hl⟩, rfl⟩)
    · exact ⟨first, last, rfl, hf, hl, Or.inl hne⟩
    · exact ⟨[], last, rfl, by simp, hl, Or.inr hne⟩
  · rintro ⟨first, last, rfl, hf, hl, hne⟩
    by_cases h : first = []
    · subst h
      exact Or.inr ⟨_, rfl, last, ⟨hne.resolve_left (by simp), hl⟩, rfl⟩
    · exact Or.inl ⟨first, ⟨h, hf⟩, _, ⟨_, rfl, last, hl, rfl⟩, rfl⟩

theorem rangeName_mem : str "Range: bytes=" ∈ rangeNameRegex.lang := by
  simp only [rangeNameRegex, mem_lang_cat, mem_lang_star_set, mem_lang_text, mem_lang_textIcase]
  exact ⟨str "Range", rfl, _, ⟨[], by simp, _, ⟨_, rfl, _, ⟨str " ", by decide +kernel, str "bytes=", rfl, rfl⟩, rfl⟩,
    rfl⟩, rfl⟩

/-- The name ends in its only equals sign. -/
theorem rangeName_cases (h : name ∈ rangeNameRegex.lang) : ∃ n, name = n ++ [0x3D] ∧ (0x3D : UInt8) ∉ n := by
  have no_equals {t v : Bytes} (ht : (0x3D : UInt8) ∉ t) (hv : v.map tolower = t.map tolower) : (0x3D : UInt8) ∉ v :=
    fun hm => ht (mem_of_map_tolower_eq (by decide) (by decide) hv hm)
  have blanks {v : Bytes} (hv : ∀ c ∈ v, isblank c = true) : (0x3D : UInt8) ∉ v :=
    fun hm => absurd (hv _ hm) (by decide)
  simp only [rangeNameRegex, mem_lang_cat, mem_lang_star_set, mem_lang_text, mem_lang_textIcase] at h
  obtain ⟨v₁, h₁, _, ⟨v₂, h₂, _, ⟨v₃, rfl, _, ⟨v₄, h₄, v₅, h₅, rfl⟩, rfl⟩, rfl⟩, rfl⟩ := h
  have hsplit : (str "bytes=").map tolower = (str "bytes").map tolower ++ [0x3D] := by decide
  rw [hsplit] at h₅
  obtain ⟨a, b, rfl, ha, hb⟩ := List.map_eq_append_iff.mp h₅
  obtain ⟨c, _, rfl, hc, hb⟩ := List.map_eq_cons_iff.mp hb
  obtain rfl := List.map_eq_nil_iff.mp hb
  obtain rfl := eq_of_tolower_eq (by decide) hc
  refine ⟨v₁ ++ (v₂ ++ (str ":" ++ (v₄ ++ a))), by simp, ?_⟩
  simp only [List.mem_append, not_or]
  exact ⟨no_equals (by decide) h₁, blanks h₂, by decide, blanks h₄, no_equals (by decide) ha⟩

theorem rangeName_inj {name' v v' : Bytes} (h : name ∈ rangeNameRegex.lang) (h' : name' ∈ rangeNameRegex.lang)
    (he : name ++ v = name' ++ v') : name = name' ∧ v = v' := by
  obtain ⟨n, rfl, hn⟩ := rangeName_cases h
  obtain ⟨n', rfl, hn'⟩ := rangeName_cases h'
  simp only [List.append_assoc, List.singleton_append] at he
  have hdelim {u : Bytes} (hu : (0x3D : UInt8) ∉ u) : ∀ c ∈ u, (c == 0x3D) = false := fun c hc => by
    simpa using ne_of_mem_of_not_mem hc hu
  obtain ⟨rfl, -, rfl⟩ := append_cons_inj (hdelim hn) (hdelim hn') (by simp) (by simp) he
  exact ⟨rfl, rfl⟩

end Words

/-! ### The match -/

section Match
variable {line name first last rest : Bytes} {i e : Nat}

theorem length_digits_le {u v s t : Bytes} (hu : ∀ c ∈ u, isdigit c = true) (ht : ∀ c ∈ t.head?, isdigit c = false)
    (he : u ++ s = v ++ t) : u.length ≤ v.length := by
  rcases List.append_eq_append_iff.mp he with ⟨a, rfl, -⟩ | ⟨b, rfl, rfl⟩
  · simp
  · cases b with
    | nil => simp
    | cons c b =>
      have := hu c (by simp)
      simp [ht c (by simp)] at this

/-- Where the digits of a range end, whatever the rest is, they end within those of the longest range. -/
theorem IsRange.length_le (h : IsRange line name first last rest) {name' first' last' rest' : Bytes}
    (hname : name' ∈ rangeNameRegex.lang) (hfirst : ∀ c ∈ first', isdigit c = true)
    (hlast : ∀ c ∈ last', isdigit c = true) (he : line = name' ++ first' ++ 0x2D :: last' ++ rest') :
    name' = name ∧ first' = first ∧ last' ++ rest' = last ++ rest ∧ last'.length ≤ last.length := by
  have hline := h.eq.symm.trans he
  simp only [List.append_assoc, List.cons_append] at hline
  obtain ⟨rfl, htail⟩ := rangeName_inj h.name_mem hname hline
  have hdelim {u : Bytes} (hu : ∀ c ∈ u, isdigit c = true) : ∀ c ∈ u, (!isdigit c) = false := fun c hc => by
    simp [hu c hc]
  have hhyphen : (!isdigit 0x2D) = true := by decide
  obtain ⟨rfl, -, hrest⟩ := append_cons_inj (hdelim h.first_digits) (hdelim hfirst) hhyphen hhyphen htail
  exact ⟨rfl, rfl, hrest.symm, length_digits_le hlast h.stop hrest.symm⟩

theorem IsRange.unique (h : IsRange line name first last rest) {name' first' last' rest' : Bytes}
    (h' : IsRange line name' first' last' rest') : name' = name ∧ first' = first ∧ last' = last ∧ rest' = rest := by
  obtain ⟨hname, hfirst, htail, hle⟩ := h.length_le h'.name_mem h'.first_digits h'.last_digits h'.eq
  obtain ⟨-, -, -, hge⟩ := h'.length_le h.name_mem h.first_digits h.last_digits h.eq
  obtain ⟨hlast, hrest⟩ := List.append_inj htail (Nat.le_antisymm hle hge)
  exact ⟨hname, hfirst, hlast, hrest⟩

theorem matches_rangeRegex {k : Cursor UInt8} : Matches noNewline rangeRegex ⟨[], line⟩ k ↔
    ∃ name first last, Spans ⟨[], line⟩ (name ++ first ++ 0x2D :: last) k ∧ name ∈ rangeNameRegex.lang ∧
      (∀ c ∈ first, isdigit c = true) ∧ (∀ c ∈ last, isdigit c = true) ∧ (first ≠ [] ∨ last ≠ []) := by
  have hplain : (Regex.cat rangeNameRegex rangeSpecRegex).Plain := ⟨plain_rangeNameRegex, plain_rangeSpecRegex⟩
  constructor
  · intro h
    obtain ⟨_, hbol, h⟩ := matches_cat.mp h
    obtain ⟨rfl, -⟩ := matches_bol.mp hbol
    obtain ⟨w, hw, hs⟩ := h.lang hplain
    obtain ⟨name, hname, spec, hspec, rfl⟩ := mem_lang_cat.mp hw
    obtain ⟨first, last, rfl, hf, hl, hne⟩ := mem_lang_rangeSpecRegex.mp hspec
    exact ⟨name, first, last, by rwa [List.append_assoc], hname, hf, hl, hne⟩
  · rintro ⟨name, first, last, hs, hname, hf, hl, hne⟩
    refine .cat (.bol rfl) (matches_of_lang hplain (w := name ++ (first ++ 0x2D :: last)) ?_ ?_)
    · exact mem_lang_cat.mpr ⟨name, hname, _, mem_lang_rangeSpecRegex.mpr ⟨first, last, rfl, hf, hl, hne⟩, rfl⟩
    · rwa [← List.append_assoc]

theorem regexec_range : regexec noNewline rangeRegex line = some (i, e) ↔ i = 0 ∧
    ∃ name first last rest, IsRange line name first last rest ∧ e = (name ++ first ++ 0x2D :: last).length := by
  constructor
  · intro h
    obtain rfl := regexec_bol (fun _ => rfl) h
    refine ⟨rfl, ?_⟩
    obtain ⟨⟨k, hk, rfl⟩, hmax⟩ := regexec_eq_some_zero.mp h
    obtain ⟨name, first, last, hs, hname, hf, hl, hne⟩ := matches_rangeRegex.mp hk
    refine ⟨name, first, last, k.after, ⟨hs.1, hname, hf, hl, hne, fun c hc => ?_⟩, by simpa using hs.length⟩
    -- A digit after the match would make it longer.
    by_contra hd
    obtain ⟨rest, hrest⟩ : ∃ rest, k.after = c :: rest := by
      cases hk : k.after with
      | nil => simp [hk] at hc
      | cons d rest => exact ⟨rest, by simpa [hk] using hc⟩
    have hlonger : Spans ⟨[], line⟩ (name ++ first ++ 0x2D :: (last ++ [c])) ⟨c :: k.before, rest⟩ := by
      refine ⟨?_, ?_⟩
      · simpa [hrest] using hs.1
      · simpa using hs.2
    have := hmax _ (matches_rangeRegex.mpr ⟨name, first, last ++ [c], hlonger, hname, hf, fun d hd' => ?_, by simp⟩)
    · simp at this
    · rcases List.mem_append.mp hd' with hd' | hd'
      · exact hl d hd'
      · obtain rfl := List.mem_singleton.mp hd'
        simpa using hd
  · rintro ⟨rfl, name, first, last, rest, h, rfl⟩
    have hs : Spans ⟨[], line⟩ (name ++ first ++ 0x2D :: last) ⟨(name ++ first ++ 0x2D :: last).reverse, rest⟩ :=
      ⟨h.eq, by simp⟩
    refine regexec_eq_some_zero.mpr ⟨⟨_, matches_rangeRegex.mpr
      ⟨name, first, last, hs, h.name_mem, h.first_digits, h.last_digits, h.some_digit⟩, List.length_reverse⟩,
      fun k hk => ?_⟩
    obtain ⟨name', first', last', hs', hname, hf, hl, -⟩ := matches_rangeRegex.mp hk
    obtain ⟨rfl, rfl, -, hle⟩ := h.length_le hname hf hl hs'.1
    have := hs'.length
    simp only [List.length_append, List.length_cons, List.length_nil] at this ⊢
    omega

end Match

/-! ### The scan -/

/-- The value that the parser gives to one side of a range: -1 without digits, else their value as an `int`. -/
def rangeValue (digits : Bytes) : Int := if digits = [] then -1 else wrap32 (value digits)

section Scan
variable {line name first last rest digits : Bytes} {c : UInt8}

/-- The scan adds up the digits, the last one first. -/
theorem scanDigits_reverse (v pos : Int) (hd : ∀ d ∈ digits, isdigit d = true) (hc : isdigit c = false) :
    scanDigits (digits.reverse ++ c :: rest) (wrap32 v) (wrap32 pos) =
      .ok (wrap32 (v + value digits * pos), c :: rest) := by
  induction digits using List.reverseRecOn generalizing v pos with
  | nil => simp [scanDigits, hc, value]
  | append_singleton digits d ih =>
    have ih := ih (v + digitValue d * pos) (pos * 10) fun x hx => hd x (by simp [hx])
    have hv : wrap32 (wrap32 v + wrap32 (digitValue d * wrap32 pos)) = wrap32 (v + digitValue d * pos) := by
      rw [wrap32_mul_wrap32, wrap32_add_wrap32, Int.add_comm, wrap32_add_wrap32, Int.add_comm]
    have hpos : wrap32 (wrap32 pos * 10) = wrap32 (pos * 10) := by
      rw [Int.mul_comm, wrap32_mul_wrap32, Int.mul_comm]
    have hvalue : v + value (digits ++ [d]) * pos = v + digitValue d * pos + value digits * (pos * 10) := by
      rw [value_append, value_singleton, List.length_singleton]
      push_cast
      ring
    simp only [List.reverse_append, List.reverse_singleton, List.cons_append, List.nil_append, scanDigits,
      hd d (by simp), ↓reduceIte, hv, hpos, ih, hvalue]

theorem scanNumber_reverse (hd : ∀ d ∈ digits, isdigit d = true) (hc : isdigit c = false) :
    scanNumber (digits.reverse ++ c :: rest) = .ok (rangeValue digits, c :: rest) := by
  by_cases hne : digits = []
  · subst hne
    simp [scanNumber, scanDigits, hc, rangeValue]
  · obtain ⟨d, u, hu⟩ := List.exists_cons_of_ne_nil (l := digits.reverse) (by simpa using hne)
    have hd' : isdigit d = true := hd d (by rw [← List.mem_reverse, hu]; exact List.mem_cons_self)
    have hscan : scanDigits (digits.reverse ++ c :: rest) (wrap32 0) (wrap32 1) =
        .ok (wrap32 (0 + value digits * 1), c :: rest) :=
      scanDigits_reverse 0 1 hd hc
    have hzero : wrap32 0 = 0 ∧ wrap32 1 = 1 := by decide
    rw [hzero.1, hzero.2] at hscan
    rw [hu, List.cons_append] at hscan ⊢
    simp only [scanNumber, hd', ↓reduceIte, hscan, rangeValue, if_neg hne]
    congr 3
    ring

theorem scanRange_of_isRange (h : IsRange line name first last rest) :
    scanRange line (name ++ first ++ 0x2D :: last).length = .ok (rangeValue first, rangeValue last) := by
  obtain ⟨n, hn, -⟩ := rangeName_cases h.name_mem
  have htake : (line.take (name ++ first ++ 0x2D :: last).length).reverse =
      last.reverse ++ 0x2D :: (first.reverse ++ 0x3D :: n.reverse) := by
    rw [h.eq, List.take_left, hn]
    simp
  unfold scanRange
  rw [htake, scanNumber_reverse h.last_digits (by decide)]
  simp only [List.tail_cons]
  rw [scanNumber_reverse h.first_digits (by decide)]

end Scan

/-! ### One header line -/

/-- The states of a request whose first line the parser took. -/
def Accepted (state : HttpStatus) : Prop := state ≠ .badRequest ∧ state ≠ .notImplemented ∧ state ≠ .internalServerError

instance (state : HttpStatus) : Decidable (Accepted state) := inferInstanceAs (Decidable (_ ∧ _))

theorem accepted_ok : Accepted .ok := by decide

theorem accepted_partialContent : Accepted .partialContent := by decide

/-- The range values agree with the state: none in a request without a range, and in a partial one
    a suffix, an open range or a closed one. -/
structure RangeFields (p : ParsedHeader) : Prop where
  state : p.httpState = .ok ∨ p.httpState = .partialContent ∨ p.httpState = .rangeNotSatisfiable
  ok : p.httpState = .ok → p.byteStart = -2 ∧ p.byteEnd = -2
  partialContent : p.httpState = .partialContent → (p.byteStart = -1 ∧ 0 < p.byteEnd) ∨
    (0 ≤ p.byteStart ∧ p.byteEnd = -1) ∨ (0 ≤ p.byteStart ∧ p.byteStart < p.byteEnd)
  start_int : -2 ^ 31 ≤ p.byteStart ∧ p.byteStart < 2 ^ 31
  end_int : -2 ^ 31 ≤ p.byteEnd ∧ p.byteEnd < 2 ^ 31

/-- What the header lines leave as the request line set it, and what they keep true. -/
structure KeepsRequest (p q : ParsedHeader) : Prop where
  method : q.method = p.method
  filename : q.filename = p.filename
  protocol : q.protocol = p.protocol
  isCGI : q.isCGI = p.isCGI
  accepted : Accepted p.httpState → Accepted q.httpState
  fields : RangeFields p → RangeFields q

theorem KeepsRequest.refl (p : ParsedHeader) : KeepsRequest p p := ⟨rfl, rfl, rfl, rfl, id, id⟩

theorem KeepsRequest.trans {p q r : ParsedHeader} (h₁ : KeepsRequest p q) (h₂ : KeepsRequest q r) : KeepsRequest p r :=
  ⟨h₂.method.trans h₁.method, h₂.filename.trans h₁.filename, h₂.protocol.trans h₁.protocol, h₂.isCGI.trans h₁.isCGI,
    h₂.accepted ∘ h₁.accepted, h₂.fields ∘ h₁.fields⟩

section Lines
variable {lib : Libc} {parsed : ParsedHeader} {line name first last rest : Bytes}

/-- The date that a line sets, if it is a date line. -/
def dateOf (lib : Libc) (line : Bytes) (modsince : Time) : Time := (lib.ifModifiedSince line).getD modsince

theorem rangeState_cases (a b : Int) : rangeState a b = .partialContent ∨ rangeState a b = .rangeNotSatisfiable := by
  unfold rangeState
  split
  · exact Or.inl rfl
  · split
    · exact Or.inl rfl
    · split
      · exact Or.inl rfl
      · exact Or.inr rfl

theorem accepted_rangeState (a b : Int) : Accepted (rangeState a b) := by
  rcases rangeState_cases a b with h | h <;> rw [h] <;> decide

theorem rangeState_ne_ok (a b : Int) : rangeState a b ≠ .ok := by
  rcases rangeState_cases a b with h | h <;> rw [h] <;> decide

theorem rangeState_partialContent_iff {a b : Int} : rangeState a b = .partialContent ↔
    (a = -1 ∧ 0 < b) ∨ (0 ≤ a ∧ b = -1) ∨ (0 ≤ a ∧ 0 < b ∧ a < b) := by
  unfold rangeState
  split
  · next h => exact iff_of_true rfl (Or.inl h)
  · next h₁ =>
    split
    · next h => exact iff_of_true rfl (Or.inr (Or.inl h))
    · next h₂ =>
      split
      · next h => exact iff_of_true rfl (Or.inr (Or.inr h))
      · next h₃ => exact iff_of_false (by simp) (not_or.mpr ⟨h₁, not_or.mpr ⟨h₂, h₃⟩⟩)

theorem rangeState_partialContent {a b : Int} (h : rangeState a b = .partialContent) :
    (a = -1 ∧ 0 < b) ∨ (0 ≤ a ∧ b = -1) ∨ (0 ≤ a ∧ a < b) :=
  (rangeState_partialContent_iff.mp h).imp_right (Or.imp_right fun h => ⟨h.1, h.2.2⟩)

theorem rangeValue_int (digits : Bytes) : -2 ^ 31 ≤ rangeValue digits ∧ rangeValue digits < 2 ^ 31 := by
  unfold rangeValue
  split
  · decide
  · exact ⟨Int.le_bmod (by decide), Int.bmod_lt (by decide)⟩

theorem rangeValue_of_ne_nil {w : Bytes} (hne : w ≠ []) (h : value w ≤ INT_MAX) : rangeValue w = value w := by
  rw [rangeValue, if_neg hne, wrap32_natCast h]

theorem parseHeaderLine_of_isRange (h : IsRange line name first last rest) : parseHeaderLine lib parsed line = .ok
    { parsed with
      modsince := dateOf lib line parsed.modsince
      httpState := rangeState (rangeValue first) (rangeValue last)
      byteStart := rangeValue first
      byteEnd := rangeValue last } := by
  unfold parseHeaderLine dateOf
  rw [regexec_range.mpr ⟨rfl, name, first, last, rest, h, rfl⟩]
  simp only [scanRange_of_isRange h]
  cases lib.ifModifiedSince line <;> rfl

theorem parseHeaderLine_of_none (h : regexec noNewline rangeRegex line = none) :
    parseHeaderLine lib parsed line = .ok { parsed with modsince := dateOf lib line parsed.modsince } := by
  unfold parseHeaderLine dateOf
  rw [h]
  cases lib.ifModifiedSince line <;> rfl

theorem regexec_eq_none_iff : regexec noNewline rangeRegex line = none ↔
    ∀ name first last rest, ¬IsRange line name first last rest := by
  constructor
  · intro h name first last rest hr
    cases h.symm.trans (regexec_range.mpr ⟨rfl, name, first, last, rest, hr, rfl⟩)
  · intro h
    by_contra hsome
    obtain ⟨⟨i, e⟩, hie⟩ := Option.ne_none_iff_exists'.mp hsome
    obtain ⟨-, name, first, last, rest, hr, -⟩ := regexec_range.mp hie
    exact h _ _ _ _ hr

theorem parseHeaderLine_of_not_isRange (h : ∀ name first last rest, ¬IsRange line name first last rest) :
    parseHeaderLine lib parsed line = .ok { parsed with modsince := dateOf lib line parsed.modsince } :=
  parseHeaderLine_of_none (regexec_eq_none_iff.mpr h)

theorem parseHeaderLine_ok (lib : Libc) (parsed : ParsedHeader) (line : Bytes) :
    ∃ q, parseHeaderLine lib parsed line = .ok q ∧ KeepsRequest parsed q := by
  by_cases h : ∃ name first last rest, IsRange line name first last rest
  · obtain ⟨name, first, last, rest, h⟩ := h
    exact ⟨_, parseHeaderLine_of_isRange h, rfl, rfl, rfl, rfl, fun _ => accepted_rangeState _ _,
      fun _ => ⟨Or.inr (rangeState_cases _ _), fun h => absurd h (rangeState_ne_ok _ _), rangeState_partialContent,
        rangeValue_int _, rangeValue_int _⟩⟩
  · simp only [not_exists] at h
    exact ⟨_, parseHeaderLine_of_not_isRange h, rfl, rfl, rfl, rfl, id,
      fun hf => ⟨hf.state, hf.ok, hf.partialContent, hf.start_int, hf.end_int⟩⟩

theorem parseHeaderLines_ok (lib : Libc) : ∀ (ls : List Bytes) (parsed : ParsedHeader),
    ∃ q, ls.foldlM (parseHeaderLine lib) parsed = .ok q ∧ KeepsRequest parsed q
  | [], parsed => ⟨parsed, rfl, .refl parsed⟩
  | line :: ls, parsed => by
    obtain ⟨q, hq, hk⟩ := parseHeaderLine_ok lib parsed line
    obtain ⟨r, hr, hk'⟩ := parseHeaderLines_ok lib ls q
    refine ⟨r, ?_, hk.trans hk'⟩
    rw [List.foldlM_cons, hq]
    exact hr

theorem parseHeaderLines_noRange : ∀ {ls : List Bytes} {p : ParsedHeader},
    (∀ line ∈ ls, regexec noNewline rangeRegex line = none) → ls.foldlM (parseHeaderLine lib) p =
      .ok { p with modsince := ls.foldl (fun modsince line => dateOf lib line modsince) p.modsince }
  | [], _, _ => rfl
  | line :: ls, p, h => by
    have hline : parseHeaderLine lib p line = .ok { p with modsince := dateOf lib line p.modsince } :=
      parseHeaderLine_of_none (h line List.mem_cons_self)
    rw [List.foldlM_cons, hline]
    exact parseHeaderLines_noRange fun m hm => h m (List.mem_cons_of_mem _ hm)

theorem foldl_dateOf : ∀ {ls : List Bytes} {modsince : Time}, (∀ m ∈ ls, lib.ifModifiedSince m = none) →
    ls.foldl (fun modsince line => dateOf lib line modsince) modsince = modsince
  | [], _, _ => rfl
  | line :: ls, modsince, h => by
    have hline : dateOf lib line modsince = modsince := by
      unfold dateOf
      rw [h line List.mem_cons_self]
      rfl
    rw [List.foldl_cons, hline]
    exact foldl_dateOf fun m hm => h m (List.mem_cons_of_mem _ hm)

end Lines

end Distsys.Tinyweb
