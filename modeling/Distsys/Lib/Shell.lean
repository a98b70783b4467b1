import Distsys.Lib.Bytes

/-! The command language of `sh`, as far as a command string that names one program. Some bytes never stand
    for themselves unless they are quoted; what becomes of a few others depends on the files that there
    are. -/

namespace Distsys

/-- The bytes that a `$` takes with it as a parameter. -/
def isParameter (c : UInt8) : Bool := isalnum c || (str "_@*#?-$!\x7b").contains c

/-- Whether a byte of the text must be quoted to stand for itself: an operator, a quotation mark, a blank or a
    newline, a backslash before another byte, a `$` before a parameter. -/
def needsQuoting : Bytes → Bool
  | [] => false
  | c :: text => (str "|&;<>()`\"' \t\n").contains c || (c == 0x5C && text != []) ||
    (c == 0x24 && text.head?.any isParameter) || needsQuoting text

/-- A shell. Its rules are stated for command strings that begin with `./`, and so with no reserved word,
    tilde or comment. -/
structure Shell where
  /-- The simple commands that `sh -c` runs for a command string, each with its words. -/
  run : Bytes → List (List Bytes)
  /-- The words that brace and pathname expansion make of one without quotation. -/
  expand : Bytes → List Bytes
  /-- A text that needs no quotation is one word. -/
  run_word : ∀ text, str "./" <+: text → needsQuoting text = false → run text = [expand text]
  /-- A text that needs quotation is not taken as it stands. -/
  run_quoting : ∀ text, str "./" <+: text → needsQuoting text = true → run text ≠ [[text]]

/-- A shell in a directory in which no pattern matches anything else, for texts that need no quotation. -/
def Shell.plain : Shell where
  run text := if needsQuoting text then [] else [[text]]
  expand text := [text]
  run_word text _ h := by rw [h]; rfl
  run_quoting text _ h := by rw [h]; nofun

section Shell
variable {sh : Shell} {text : Bytes}

/-- The program is named by the text itself exactly when no byte of it needs quotation and no expansion
    changes it. -/
theorem Shell.run_eq_iff (h : str "./" <+: text) : sh.run text = [[text]] ↔
    needsQuoting text = false ∧ sh.expand text = [text] := by
  cases hq : needsQuoting text with
  | true => exact iff_of_false (sh.run_quoting text h hq) nofun
  | false =>
    rw [sh.run_word text h hq]
    simp

end Shell

end Distsys
