import Distsys.Lib.Bytes

/-! Buffered output of the C library: what a stream has passed on, and what it still keeps. A fork copies
    the part that is kept, and a program that replaces itself loses it. -/

namespace Distsys

/-- When a stream passes on what it keeps: at the end of each line, or only when it is full. -/
inductive Buffering where
  | line
  | full
  deriving DecidableEq, Repr

/-- The least size of a buffer (`BUFSIZ`). -/
def BUFSIZ_MIN : Nat := 256

/-- An output stream; a buffer that is full does not stay so. -/
structure Stream where
  mode : Buffering
  capacity : Nat
  pending : Bytes
  capacity_ge : BUFSIZ_MIN ≤ capacity
  pending_lt : pending.length < capacity

namespace Stream

/-- The stream with another text pending. -/
def keep (s : Stream) (text : Bytes) (h : text.length < s.capacity) : Stream :=
  { s with pending := text, pending_lt := h }

theorem capacity_pos (s : Stream) : 0 < s.capacity := Nat.lt_of_lt_of_le (by decide) s.capacity_ge

/-- One byte: what is passed on, and the stream. -/
def putc (s : Stream) (c : UInt8) : Bytes × Stream :=
  if h : s.pending.length + 1 < s.capacity ∧ ¬(s.mode = .line ∧ c = LF) then
    ([], s.keep (s.pending ++ [c]) (by simpa using h.1))
  else (s.pending ++ [c], s.keep [] s.capacity_pos)

/-- `fprintf` of a text. -/
def fprintf : Stream → Bytes → Bytes × Stream
  | s, [] => ([], s)
  | s, c :: text => ((s.putc c).1 ++ ((s.putc c).2.fprintf text).1, ((s.putc c).2.fprintf text).2)

section Output
variable {s : Stream} {c : UInt8} {text : Bytes}

theorem putc_keeps (s : Stream) (c : UInt8) : (s.putc c).1 ++ (s.putc c).2.pending = s.pending ++ [c] ∧
    (s.putc c).2.mode = s.mode ∧ (s.putc c).2.capacity = s.capacity := by
  unfold putc
  split
  · exact ⟨rfl, rfl, rfl⟩
  · exact ⟨List.append_nil _, rfl, rfl⟩

/-- Nothing gets lost or overtakes. -/
theorem fprintf_keeps : ∀ (text : Bytes) (s : Stream),
    (s.fprintf text).1 ++ (s.fprintf text).2.pending = s.pending ++ text ∧
    (s.fprintf text).2.mode = s.mode ∧ (s.fprintf text).2.capacity = s.capacity
  | [], s => ⟨(List.append_nil _).symm, rfl, rfl⟩
  | c :: text, s => by
    obtain ⟨hput, hmode, hcap⟩ := putc_keeps s c
    obtain ⟨hrest, hmode', hcap'⟩ := fprintf_keeps text (s.putc c).2
    refine ⟨?_, hmode'.trans hmode, hcap'.trans hcap⟩
    show (s.putc c).1 ++ _ ++ _ = _
    rw [List.append_assoc]
    show (s.putc c).1 ++ (((s.putc c).2.fprintf text).1 ++ ((s.putc c).2.fprintf text).2.pending) = _
    rw [hrest, ← List.append_assoc, hput, List.append_assoc]
    rfl

theorem fprintf_append : ∀ {text : Bytes} {s : Stream} (rest : Bytes), s.fprintf (text ++ rest) =
    ((s.fprintf text).1 ++ ((s.fprintf text).2.fprintf rest).1, ((s.fprintf text).2.fprintf rest).2)
  | [], _, _ => rfl
  | c :: text, s, rest => by
    show ((s.putc c).1 ++ ((s.putc c).2.fprintf (text ++ rest)).1, ((s.putc c).2.fprintf (text ++ rest)).2) = _
    rw [fprintf_append rest, ← List.append_assoc]
    rfl

/-- A line-buffered stream passes everything on with a newline. -/
theorem fprintf_line (hmode : s.mode = .line) (text : Bytes) :
    (s.fprintf (text ++ [LF])).1 = s.pending ++ (text ++ [LF]) := by
  obtain ⟨hkeep, hmode', -⟩ := fprintf_keeps text s
  have hput : (s.fprintf text).2.putc LF = ((s.fprintf text).2.pending ++ [LF],
      (s.fprintf text).2.keep [] (capacity_pos _)) := by
    unfold putc
    rw [dif_neg]
    exact fun h => h.2 ⟨hmode'.trans hmode, rfl⟩
  rw [fprintf_append]
  show (s.fprintf text).1 ++ (((s.fprintf text).2.putc LF).1 ++ []) = _
  rw [hput, List.append_nil, ← List.append_assoc, hkeep, List.append_assoc]

/-- A fully buffered stream passes on nothing, or at least a whole buffer. -/
theorem fprintf_full : ∀ (text : Bytes) {s : Stream}, s.mode = .full →
    (s.fprintf text).1 = [] ∨ s.capacity ≤ (s.fprintf text).1.length
  | [], _, _ => Or.inl rfl
  | c :: text, s, hmode => by
    obtain ⟨-, hmode', hcap⟩ := putc_keeps s c
    have hput : (s.putc c).1 = [] ∨ s.capacity ≤ (s.putc c).1.length := by
      unfold putc
      split
      · exact Or.inl rfl
      · next h =>
        have hnot : ¬s.pending.length + 1 < s.capacity := fun hlt => h ⟨hlt, fun hl => nomatch hl.1.symm.trans hmode⟩
        exact Or.inr (by simpa using hnot)
    have hlength : (s.fprintf (c :: text)).1.length = (s.putc c).1.length + ((s.putc c).2.fprintf text).1.length :=
      List.length_append
    rcases hput with hnil | hfull
    · rcases fprintf_full text (hmode'.trans hmode) with hrest | hrest
      · exact Or.inl (by show (s.putc c).1 ++ _ = []; rw [hnil]; exact hrest)
      · exact Or.inr (by rw [hlength, ← hcap]; exact Nat.le_add_left_of_le hrest)
    · exact Or.inr (by rw [hlength]; exact Nat.le_add_right_of_le hfull)

end Output
end Stream

end Distsys
