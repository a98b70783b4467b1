import Mathlib.Data.List.Basic
import Mathlib.Tactic.Common

/-! Byte strings and the functions of the C library that read and write them: the character classes
    of the C locale, strings that end at a NUL, and the functions that write into an array. A string
    is the list of its bytes before the NUL. Each array carries its size, so that an access past its
    end shows up as a fault. -/

namespace Distsys

abbrev Bytes := List UInt8

/-- The bytes of an ASCII literal. -/
def str (s : String) : Bytes := s.toList.map fun c => c.toNat.toUInt8

def NUL : UInt8 := 0x00
def HT : UInt8 := 0x09
def LF : UInt8 := 0x0A
def CR : UInt8 := 0x0D
def SP : UInt8 := 0x20

/-! ### Character classes -/

def isdigit (c : UInt8) : Bool := 0x30 ≤ c && c ≤ 0x39
def isupper (c : UInt8) : Bool := 0x41 ≤ c && c ≤ 0x5A
def islower (c : UInt8) : Bool := 0x61 ≤ c && c ≤ 0x7A
def isalnum (c : UInt8) : Bool := isdigit c || isupper c || islower c
def isblank (c : UInt8) : Bool := c == SP || c == HT

/-- The printing bytes other than the space that are neither letters nor digits. -/
def ispunct (c : UInt8) : Bool := 0x21 ≤ c && c ≤ 0x7E && !isalnum c

def isgraph (c : UInt8) : Bool := isalnum c || ispunct c

def tolower (c : UInt8) : UInt8 := if isupper c then c + 0x20 else c

/-- A digit is none of the bytes outside its class; the same holds of the other classes. -/
theorem ne_of_class {p : UInt8 → Bool} {c d : UInt8} (hc : p c = true) (hd : p d = false) : c ≠ d := by
  rintro rfl
  rw [hc] at hd
  cases hd

theorem isblank_iff {c : UInt8} : isblank c = true ↔ c = SP ∨ c = HT := by
  simp [isblank]

/-- Only a lower-case letter is the lower case of another byte. -/
theorem eq_of_tolower_eq {c d : UInt8} (hd : islower d = false) (h : tolower c = d) : c = d := by
  unfold tolower at h
  split at h
  · next hu =>
    simp only [isupper, islower, Bool.and_eq_true, Bool.and_eq_false_iff, decide_eq_true_eq, decide_eq_false_iff_not,
      UInt8.le_iff_toNat_le, UInt8.reduceToNat] at hu hd
    have hsum := congrArg UInt8.toNat h
    rw [UInt8.toNat_add] at hsum
    simp only [UInt8.reduceToNat] at hsum
    omega
  · exact h

/-- Texts that are the same but for their case have the same other bytes. -/
theorem mem_of_map_tolower_eq {u w : Bytes} {d : UInt8} (hl : islower d = false) (hu : isupper d = false)
    (h : u.map tolower = w.map tolower) (hd : d ∈ u) : d ∈ w := by
  have hself : tolower d = d := if_neg (by simp [hu])
  obtain ⟨c, hc, hlow⟩ := List.mem_map.mp (h ▸ List.mem_map_of_mem hd)
  exact eq_of_tolower_eq hl (hlow.trans hself) ▸ hc

theorem isalnum_of_isdigit {c : UInt8} (h : isdigit c = true) : isalnum c = true := by
  simp [isalnum, h]

/-! ### Faults

A C program that leaves an array, follows a null pointer or reads a variable it never set has no
defined behaviour from there on. The model ends the run at that point. -/

/-- Where a run ends that has no defined behaviour. -/
inductive Fault where
  /-- A read past either end of an array. -/
  | overrun
  /-- A write past the end of an array. -/
  | overflow
  /-- An access through a null pointer. -/
  | nullPointer
  /-- An access through a pointer that was never set. -/
  | unassigned
  deriving DecidableEq, Repr

/-- The string at the start of an array: reading it looks at each byte up to the first NUL, and leaves
    the array when there is none. -/
def cstring : Bytes → Except Fault Bytes
  | [] => .error .overrun
  | c :: rest => if c = NUL then .ok [] else (cstring rest).map (c :: ·)

/-- `snprintf` stores at most `size - 1` bytes of the text. -/
def snprintf (size : Nat) (text : Bytes) : Bytes := text.take (size - 1)

/-- `strcat` (and `strcpy`, to an empty string) on an array of `size` bytes. -/
def strcat (size : Nat) (dst src : Bytes) : Except Fault Bytes :=
  if dst.length + src.length + 1 ≤ size then .ok (dst ++ src) else .error .overflow

section CString
variable {s t : Bytes}

theorem cstring_append_nul (hs : NUL ∉ s) : cstring (s ++ NUL :: t) = .ok s := by
  induction s with
  | nil => simp [cstring]
  | cons c s ih =>
    have hc : c ≠ NUL := fun h => hs (by simp [h])
    have hs' : NUL ∉ s := fun h => hs (by simp [h])
    simp [cstring, hc, ih hs', Except.map]

theorem cstring_eq_error (hs : NUL ∉ s) : cstring s = .error .overrun := by
  induction s with
  | nil => rfl
  | cons c s ih =>
    have hc : c ≠ NUL := fun h => hs (by simp [h])
    have hs' : NUL ∉ s := fun h => hs (by simp [h])
    simp [cstring, hc, ih hs', Except.map]

theorem no_nul_of_cstring (h : cstring s = .ok t) : NUL ∉ t := by
  induction s generalizing t with
  | nil => cases h
  | cons c s ih =>
    by_cases hc : c = NUL
    · rw [cstring, if_pos hc] at h
      cases h
      simp
    · rw [cstring, if_neg hc] at h
      cases hs : cstring s with
      | error f => simp [hs, Except.map] at h
      | ok u =>
        simp only [hs, Except.map, Except.ok.injEq] at h
        subst h
        rw [List.mem_cons, not_or]
        exact ⟨Ne.symm hc, ih hs⟩

theorem cstring_append (hs : NUL ∈ s) : cstring (s ++ t) = cstring s := by
  induction s with
  | nil => simp at hs
  | cons c s ih =>
    by_cases hc : c = NUL
    · simp [cstring, hc]
    · have hs' : NUL ∈ s := (List.mem_cons.mp hs).resolve_left (Ne.symm hc)
      simp [cstring, hc, ih hs']

theorem cstring_isOk (hs : NUL ∈ s) : ∃ t, cstring s = .ok t := by
  induction s with
  | nil => simp at hs
  | cons c s ih =>
    by_cases hc : c = NUL
    · exact ⟨[], by simp [cstring, hc]⟩
    · obtain ⟨t, ht⟩ := ih ((List.mem_cons.mp hs).resolve_left (Ne.symm hc))
      exact ⟨c :: t, by simp [cstring, hc, ht, Except.map]⟩

theorem strcat_eq_ok {size : Nat} {d : Bytes} :
    strcat size d s = .ok t ↔ d.length + s.length + 1 ≤ size ∧ t = d ++ s := by
  by_cases h : d.length + s.length + 1 ≤ size
  · simp [strcat, h, eq_comm]
  · simp [strcat, h]

theorem strcat_eq_error {size : Nat} {d : Bytes} {f : Fault} :
    strcat size d s = .error f ↔ size < d.length + s.length + 1 ∧ f = .overflow := by
  by_cases h : d.length + s.length + 1 ≤ size
  · simp [strcat, h, Nat.not_lt.mpr h]
  · simp [strcat, h, Nat.not_le.mp h, eq_comm]

theorem foldlM_strcat (size : Nat) : ∀ (parts : List Bytes) (d : Bytes), parts ≠ [] → parts.foldlM (strcat size) d =
    if d.length + parts.flatten.length + 1 ≤ size then .ok (d ++ parts.flatten) else .error .overflow
  | [p], d, _ => by
    simp only [List.foldlM_cons, List.foldlM_nil, List.flatten_cons, List.flatten_nil, List.append_nil]
    unfold strcat
    split <;> rfl
  | p :: q :: parts, d, _ => by
    have ih := foldlM_strcat size (q :: parts) (d ++ p) (by simp)
    rw [List.foldlM_cons, List.flatten_cons, List.length_append, ← Nat.add_assoc, ← List.append_assoc]
    rw [List.length_append] at ih
    by_cases h : d.length + p.length + 1 ≤ size
    · rw [strcat_eq_ok.mpr ⟨h, rfl⟩]
      exact ih
    · rw [strcat_eq_error.mpr ⟨Nat.not_le.mp h, rfl⟩, if_neg (by omega)]
      rfl

theorem snprintf_of_lt {size : Nat} (h : s.length < size) : snprintf size s = s :=
  List.take_of_length_le (by omega)

theorem length_snprintf (size : Nat) (s : Bytes) : (snprintf size s).length = min (size - 1) s.length :=
  List.length_take

end CString

end Distsys
