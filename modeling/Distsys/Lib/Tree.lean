import Distsys.Lib.Bytes
import Distsys.Lib.Strtok

/-! The file system as a process sees it: what the paths lead to that it uses, from the root or from its
    working directory. A link and `..` lead where the file system says, not where their names seem to. -/

namespace Distsys

/-- The directories and the files, and the two of them where paths begin. -/
structure Tree (δ : Type) where
  root : δ
  cwd : δ
  /-- What a name leads to in a directory. -/
  entry : δ → Bytes → Option δ
  cwd_dot : entry cwd (str ".") = some cwd

namespace Tree
variable {δ : Type}

/-- The names in a path. A slash at the end counts as one more `.`. -/
def names (path : Bytes) : List Bytes :=
  tokens (· == 0x2F) path ++ if path.getLast? = some 0x2F then [str "."] else []

/-- From a directory along the names. -/
def walk (t : Tree δ) (d : δ) (names : List Bytes) : Option δ := names.foldlM t.entry d

/-- What a path leads to. The empty path leads nowhere. -/
def find (t : Tree δ) (path : Bytes) : Option δ :=
  if path = [] then none else t.walk (if path.head? = some 0x2F then t.root else t.cwd) (names path)

section Find
variable {t : Tree δ} {path : Bytes}

theorem names_dot_slash (h : path ≠ []) : names (str "./" ++ path) = str "." :: names path := by
  have hdot : str "./" ++ path = str "." ++ 0x2F :: path := rfl
  have hlast : (str "./" ++ path).getLast? = path.getLast? := List.getLast?_append_of_ne_nil _ h
  unfold names
  rw [hlast, hdot, tokens_append (by simp), tokens_all (by decide +kernel)]
  rfl

/-- Behind `./` every path is walked from the working directory. -/
theorem find_dot_slash (h : path ≠ []) : t.find (str "./" ++ path) = t.walk t.cwd (names path) := by
  have hhead : (str "./" ++ path).head? = some 0x2E := rfl
  unfold find
  rw [if_neg (by simp [str]), hhead, if_neg (by decide), names_dot_slash h]
  unfold walk
  rw [List.foldlM_cons, t.cwd_dot]
  rfl

theorem find_of_relative (h : path ≠ []) (hrel : path.head? ≠ some 0x2F) : t.find path = t.walk t.cwd (names path) := by
  unfold find
  rw [if_neg h, if_neg hrel]

theorem find_of_absolute (habs : path.head? = some 0x2F) : t.find path = t.walk t.root (names path) := by
  have h : path ≠ [] := by
    rintro rfl
    cases habs
  unfold find
  rw [if_neg h, if_pos habs]

end Find
end Tree

end Distsys
