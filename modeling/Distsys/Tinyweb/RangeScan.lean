import Distsys.Tinyweb.RangeLine

/-! The scan of a range line with its index (`src/http_parser.c`): which bytes of the line it reads, from the end of the
    match backwards, and what it makes of them. -/

namespace Distsys.Tinyweb
open Regex

/-- One of the two numbers: its value, the index of the byte that stopped its loop, and the indices that were read. -/
structure NumberScan where
  value : Int
  stop : Nat
  reads : List Nat

/-- The loop for one number. `pointer[n - 1]` is read next: `n` is `matchEnd - i`. -/
def digitLoop (pointer : Bytes) : Nat → Int → Int → Except Fault NumberScan
  | 0, _, _ => .error .overrun
  | n + 1, v, pos => match pointer[n]? with
    | none => .error .overrun
    | some c =>
      if isdigit c then
        (digitLoop pointer n (wrap32 (v + wrap32 (digitValue c * pos))) (wrap32 (pos * 10))).map fun r =>
          { r with reads := n :: r.reads }
      else .ok ⟨v, n, [n]⟩

/-- A number of the range: it starts from -1, and from 0 if the first byte that is read is a digit. -/
def backNumber (pointer : Bytes) : Nat → Except Fault NumberScan
  | 0 => .error .overrun
  | n + 1 => digitLoop pointer (n + 1) (if pointer[n]?.any isdigit then 0 else -1) 1

/-- The two numbers of a range, and the indices that were read for them. -/
structure RangeScan where
  startValue : Int
  endValue : Int
  reads : List Nat

/-- The scan from the end of the match. Behind the first loop `i++` goes over the hyphen. -/
def rangeScan (pointer : Bytes) (matchEnd : Nat) : Except Fault RangeScan :=
  match backNumber pointer matchEnd with
  | .error f => .error f
  | .ok last => match backNumber pointer last.stop with
    | .error f => .error f
    | .ok first => .ok ⟨first.value, last.value, last.reads ++ first.reads⟩

/-- A number as it is written, and -1 without digits. -/
def writtenValue (digits : Bytes) : Int := if digits = [] then -1 else value digits

/-- Both numbers of a line fit in an `int`. -/
def NumbersFit (line : Bytes) : Prop := ∀ {name first last rest}, IsRange line name first last rest →
  value first ≤ INT_MAX ∧ value last ≤ INT_MAX

section Index
variable {pointer pre digits rest : Bytes} {n matchEnd : Nat} {v pos : Int} {r : NumberScan} {c : UInt8}

theorem reverse_take_succ (h : pointer[n]? = some c) : (pointer.take (n + 1)).reverse =
    c :: (pointer.take n).reverse := by
  rw [List.take_add_one, h, List.reverse_append]
  rfl

/-- The loop over the index is the loop over the bytes before it, and it leaves the index of the byte that stops it. -/
theorem scanDigits_eq_digitLoop : ∀ {n : Nat} {v pos : Int}, n ≤ pointer.length →
    scanDigits (pointer.take n).reverse v pos =
    (digitLoop pointer n v pos).map fun r => (r.value, (pointer.take (r.stop + 1)).reverse)
  | 0, _, _, _ => rfl
  | n + 1, v, pos, hn => by
    have hget : pointer[n]? = some pointer[n] := List.getElem?_eq_getElem hn
    rw [reverse_take_succ hget, scanDigits, digitLoop, hget]
    simp only
    split
    · rw [scanDigits_eq_digitLoop (by omega)]
      cases digitLoop pointer n _ _ <;> rfl
    · simp only [Except.map]
      rw [reverse_take_succ hget]

theorem digitLoop_reads : ∀ {n : Nat} {v pos : Int} {r : NumberScan}, digitLoop pointer n v pos = .ok r →
    r.stop < n ∧ ∀ j ∈ r.reads, r.stop ≤ j ∧ j < n
  | 0, _, _, _, h => by cases h
  | n + 1, v, pos, r, h => by
    rw [digitLoop] at h
    split at h
    · cases h
    · split at h
      · cases hloop : digitLoop pointer n _ _ with
        | error f =>
          rw [hloop] at h
          cases h
        | ok s =>
          rw [hloop] at h
          cases h
          obtain ⟨hstop, hreads⟩ := digitLoop_reads hloop
          refine ⟨Nat.lt_succ_of_lt hstop, fun j hj => ?_⟩
          rcases List.mem_cons.mp hj with rfl | hj
          · exact ⟨hstop.le, Nat.lt_succ_self _⟩
          · exact ⟨(hreads j hj).1, Nat.lt_succ_of_lt (hreads j hj).2⟩
      · cases h
        refine ⟨Nat.lt_succ_self n, fun j hj => ?_⟩
        obtain rfl := List.mem_singleton.mp hj
        exact ⟨Nat.le_refl _, Nat.lt_succ_self _⟩

theorem scanNumber_eq_backNumber (hn : n ≤ pointer.length) : scanNumber (pointer.take n).reverse =
    (backNumber pointer n).map fun r => (r.value, (pointer.take (r.stop + 1)).reverse) := by
  cases n with
  | zero => rfl
  | succ n =>
    have hget : pointer[n]? = some pointer[n] := List.getElem?_eq_getElem hn
    rw [backNumber, ← scanDigits_eq_digitLoop hn, reverse_take_succ hget, scanNumber, hget]
    rfl

theorem backNumber_reads (h : backNumber pointer n = .ok r) : r.stop < n ∧ ∀ j ∈ r.reads, r.stop ≤ j ∧ j < n := by
  cases n with
  | zero => cases h
  | succ n => exact digitLoop_reads h

/-- The parser scans by this index. -/
theorem scanRange_eq_rangeScan (h : matchEnd ≤ pointer.length) : scanRange pointer matchEnd =
    (rangeScan pointer matchEnd).map fun s => (s.startValue, s.endValue) := by
  unfold scanRange rangeScan
  rw [scanNumber_eq_backNumber h]
  cases hlast : backNumber pointer matchEnd with
  | error f => rfl
  | ok r =>
    have hstop := (backNumber_reads hlast).1
    have hget : pointer[r.stop]? = some pointer[r.stop] := List.getElem?_eq_getElem (by omega)
    simp only [Except.map]
    rw [reverse_take_succ hget, List.tail_cons, scanNumber_eq_backNumber (by omega)]
    cases backNumber pointer r.stop <;> rfl

/-- The number that ends at an index: the loop stops at the byte in front of its digits. -/
theorem backNumber_of_digits (hd : ∀ d ∈ digits, isdigit d = true) (hc : isdigit c = false)
    (hpointer : pointer = pre ++ c :: digits ++ rest) : ∃ r, backNumber pointer (pre ++ c :: digits).length = .ok r ∧
      r.value = rangeValue digits ∧ r.stop = pre.length ∧ ∀ j ∈ r.reads, pre.length ≤ j := by
  have hlen : (pre ++ c :: digits).length ≤ pointer.length := by
    rw [hpointer]
    exact (List.prefix_append _ _).length_le
  have htake : (pointer.take (pre ++ c :: digits).length).reverse = digits.reverse ++ c :: pre.reverse := by
    rw [hpointer, List.take_left]
    simp
  have hscan := scanNumber_eq_backNumber hlen
  rw [htake, scanNumber_reverse hd hc] at hscan
  cases hnumber : backNumber pointer (pre ++ c :: digits).length with
  | error f =>
    rw [hnumber] at hscan
    cases hscan
  | ok r =>
    obtain ⟨hlt, hreads⟩ := backNumber_reads hnumber
    simp only [hnumber, Except.map, Except.ok.injEq, Prod.mk.injEq] at hscan
    have hstop := congrArg List.length hscan.2
    rw [List.length_reverse, List.length_take, Nat.min_eq_left (by omega), List.length_cons, List.length_reverse]
      at hstop
    have hstop : r.stop = pre.length := by omega
    exact ⟨r, rfl, hscan.1.symm, hstop, fun j hj => hstop ▸ (hreads j hj).1⟩

end Index

section Decoding
variable {line : Bytes} {i e : Nat}

theorem rangeValue_eq_writtenValue {digits : Bytes} (h : value digits ≤ INT_MAX) :
    rangeValue digits = writtenValue digits := by
  unfold rangeValue writtenValue
  split
  · rfl
  · exact wrap32_natCast h

/-- Whatever range the pattern finds, the scan of the parser goes over the indices of `rangeScan`: it reads no byte
    before the equals sign of the match, and the parser takes the two numbers as they are written. -/
theorem rangeScan_of_match (hmatch : regexec noNewline rangeRegex line = some (i, e)) (hfit : NumbersFit line) :
    ∃ before first last rest, IsRange line (before ++ [0x3D]) first last rest ∧
      e = (before ++ [0x3D] ++ first ++ 0x2D :: last).length ∧
      (∃ s, rangeScan line e = .ok s ∧ scanRange line e = .ok (s.startValue, s.endValue) ∧
        (∀ j ∈ s.reads, before.length ≤ j) ∧ s.startValue = writtenValue first ∧ s.endValue = writtenValue last) ∧
      ∀ lib parsed, ∃ q, parseHeaderLine lib parsed line = .ok q ∧
        q.byteStart = writtenValue first ∧ q.byteEnd = writtenValue last := by
  obtain ⟨-, name, first, last, rest, h, rfl⟩ := regexec_range.mp hmatch
  obtain ⟨before, rfl, -⟩ := rangeName_cases h.name_mem
  have hfirst := rangeValue_eq_writtenValue (hfit h).1
  have hlast := rangeValue_eq_writtenValue (hfit h).2
  refine ⟨before, first, last, rest, h, rfl, ?_, ?_⟩
  · obtain ⟨r, hr, hvalue, hstop, hreads⟩ := backNumber_of_digits h.last_digits (by decide) h.eq
    have hline : line = before ++ 0x3D :: first ++ (0x2D :: last ++ rest) := by
      rw [h.eq]
      simp
    obtain ⟨r', hr', hvalue', -, hreads'⟩ := backNumber_of_digits h.first_digits (by decide) hline
    have hstart : r.stop = (before ++ 0x3D :: first).length := by
      rw [hstop]
      simp
    have hscan : rangeScan line (before ++ [0x3D] ++ first ++ 0x2D :: last).length =
        .ok ⟨r'.value, r.value, r.reads ++ r'.reads⟩ := by
      unfold rangeScan
      rw [hr]
      simp only
      rw [hstart, hr']
    have hend : (before ++ [0x3D] ++ first ++ 0x2D :: last).length ≤ line.length := by
      rw [h.eq]
      exact (List.prefix_append _ _).length_le
    refine ⟨_, hscan, ?_, ?_, hvalue'.trans hfirst, hvalue.trans hlast⟩
    · rw [scanRange_eq_rangeScan hend, hscan]
      rfl
    · intro j hj
      rcases List.mem_append.mp hj with hj | hj
      · have := hreads j hj
        simp only [List.length_append] at this
        omega
      · exact hreads' j hj
  · exact fun lib parsed => ⟨_, parseHeaderLine_of_isRange h, hfirst, hlast⟩

end Decoding

/-- Twenty digits of which two count. -/
def zeroedLine : Bytes := str "Range: bytes=00000000000000000042-00000000000000000099\r"

theorem zeroedLine_isRange : IsRange zeroedLine (str "Range: bytes=") (str "00000000000000000042")
    (str "00000000000000000099") (str "\r") where
  eq := rfl
  name_mem := rangeName_mem
  first_digits := by decide +kernel
  last_digits := by decide +kernel
  some_digit := Or.inl (by decide)
  stop := by decide +kernel

theorem rangeScan_of_match_example : ∃ before first last rest, IsRange zeroedLine (before ++ [0x3D]) first last rest ∧
    54 = (before ++ [0x3D] ++ first ++ 0x2D :: last).length ∧
    (∃ s, rangeScan zeroedLine 54 = .ok s ∧ scanRange zeroedLine 54 = .ok (s.startValue, s.endValue) ∧
      (∀ j ∈ s.reads, before.length ≤ j) ∧ s.startValue = writtenValue first ∧ s.endValue = writtenValue last) ∧
    ∀ lib parsed, ∃ q, parseHeaderLine lib parsed zeroedLine = .ok q ∧
      q.byteStart = writtenValue first ∧ q.byteEnd = writtenValue last := by
  refine rangeScan_of_match (regexec_range.mpr ⟨rfl, _, _, _, _, zeroedLine_isRange, by decide +kernel⟩) fun h => ?_
  obtain ⟨-, rfl, rfl, -⟩ := zeroedLine_isRange.unique h
  decide +kernel

end Distsys.Tinyweb
