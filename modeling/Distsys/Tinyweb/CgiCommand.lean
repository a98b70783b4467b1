import Distsys.Lib.Shell
import Distsys.Lib.Tree
import Distsys.Tinyweb.CgiOutput

/-! Which program the child of a script runs (`handle_client` in `src/tinyweb.c`): `./` and the path that was
    checked, read once more by a shell. -/

namespace Distsys.Tinyweb

section Command
variable {env : Env} {buffer : Buffer} {q : ParsedHeader} {filepath file command : Bytes} {δ : Type}

/-- The file status that a tree gives for paths. -/
def statOf (tree : Tree δ) (inode : δ → Inode) : FileSystem := fun path => (tree.find path).map inode

/-- The shell takes the command as the one word that it is, and that word leads to the file that was checked. -/
def RunsChecked (sh : Shell) (tree : Tree δ) (filepath command : Bytes) : Prop :=
  sh.run command = [[command]] ∧ ∃ node, tree.find filepath = some node ∧ tree.find command = some node

/-- From the working directory a path leads where it leads from the root, if it is taken from there. -/
def SameFromCwd (tree : Tree δ) (path : Bytes) : Prop := path.head? = some 0x2F →
  tree.walk tree.cwd (Tree.names path) = tree.walk tree.root (Tree.names path)

theorem find_dot_slash_eq_iff {tree : Tree δ} (h : filepath ≠ []) :
    tree.find (str "./" ++ filepath) = tree.find filepath ↔ SameFromCwd tree filepath := by
  rw [Tree.find_dot_slash h]
  by_cases habs : filepath.head? = some 0x2F
  · rw [Tree.find_of_absolute habs]
    exact ⟨fun heq _ => heq, fun hsame => hsame habs⟩
  · rw [Tree.find_of_relative h habs]
    exact ⟨fun _ habs' => absurd habs' habs, fun _ => rfl⟩

theorem needsQuoting_dot_slash : needsQuoting (str "./" ++ filepath) = needsQuoting filepath := by
  have htext : str "./" ++ filepath = 0x2E :: 0x2F :: filepath := rfl
  have hdot : 0x2E ∉ str "|&;<>()`\"' \t\n" ∧ 0x2F ∉ str "|&;<>()`\"' \t\n" := by decide
  simp [htext, needsQuoting, hdot.1, hdot.2]

/-- A script that is run was found under its path, and its owner may execute it. -/
theorem dispatch_cgi (hq : parseHttpHeader env.libc buffer.bytes = .ok q) (hfile : q.filename = .text file)
    (h : dispatch env q = .cgi filepath) : filepath = env.rootDir ++ file ∧
      ∃ st, env.fs filepath = some st ∧ st.kind = .regular ∧ st.mode &&& S_IEXEC ≠ 0 := by
  have ha : Accepted q.httpState := accepted_of_dispatch h (by simp)
  obtain ⟨l, rest, f, hacc⟩ := acceptedAs hq ha
  rcases dispatch_cases env ha hfile with ⟨-, hd⟩ | ⟨-, ⟨-, hd⟩ | ⟨st, hst, hd⟩⟩
  · cases h.symm.trans hd
  · cases h.symm.trans hd
  · obtain ⟨rfl, -, hreg, -, -, hexec⟩ := (dispatchFile_cgi hacc.fields).mp (hd.symm.trans h)
    exact ⟨rfl, st, hst, hreg, hexec⟩

end Command

/-- For any script that is run: the shell runs exactly the file that was checked, if and only if no byte of the
    path needs quotation, no expansion changes the command, and a path from the root leads to the same file
    from the working directory. -/
theorem runsChecked_iff {δ : Type} {env : Env} {buffer : Buffer} {sched : Schedule} {q : ParsedHeader}
    {file header command : Bytes} {tree : Tree δ} {inode : δ → Inode}
    (hq : parseHttpHeader env.libc buffer.bytes = .ok q) (hfile : q.filename = .text file)
    (hfs : env.fs = statOf tree inode) (h : .cgi header command ∈ (serve env buffer sched).events) (sh : Shell) :
    RunsChecked sh tree (env.rootDir ++ file) command ↔
      needsQuoting (env.rootDir ++ file) = false ∧
      sh.expand (str "./" ++ (env.rootDir ++ file)) = [str "./" ++ (env.rootDir ++ file)] ∧
      SameFromCwd tree (env.rootDir ++ file) := by
  obtain ⟨q', filepath, hq', hd, -, rfl⟩ := cgi_serve h
  obtain rfl : q' = q := Except.ok.inj (hq'.symm.trans hq)
  obtain ⟨rfl, st, hst, -⟩ := dispatch_cgi hq hfile hd
  obtain ⟨node, hnode, -⟩ : ∃ node, tree.find (env.rootDir ++ file) = some node ∧ inode node = st := by
    rw [hfs] at hst
    exact Option.map_eq_some_iff.mp hst
  have hne : env.rootDir ++ file ≠ [] := by
    intro hnil
    rw [hnil] at hnode
    cases hnode
  have hfind : (∃ node, tree.find (env.rootDir ++ file) = some node ∧
      tree.find (str "./" ++ (env.rootDir ++ file)) = some node) ↔ SameFromCwd tree (env.rootDir ++ file) := by
    rw [← find_dot_slash_eq_iff hne]
    constructor
    · rintro ⟨node', hfile', hcommand⟩
      exact hcommand.trans hfile'.symm
    · intro heq
      exact ⟨node, hnode, heq.trans hnode⟩
  unfold RunsChecked
  rw [Shell.run_eq_iff (List.prefix_append _ _), needsQuoting_dot_slash, hfind, and_assoc]

/-- The files of a small system: scripts, the directory that holds them, and the working directory. -/
inductive SmallNode where
  | script
  | web
  | cwd

/-- `web` is in the working directory, and everything below the root leads into it. -/
def smallTree : Tree SmallNode where
  root := .web
  cwd := .cwd
  entry
    | .script, _ => none
    | .web, name => some (if name = str "x" ∨ name = str "x;id" then .script else .web)
    | .cwd, name => if name = str "." then some .cwd else if name = str "web" then some .web else none
  cwd_dot := rfl

/-- What `stat` says of a node. -/
def SmallNode.inode : SmallNode → Inode
  | .script => Distsys.Tinyweb.script
  | .web | .cwd => plainDirectory

def smallSystem (rootDir : Bytes) : Env := { cgiEnv with rootDir := rootDir, fs := statOf smallTree SmallNode.inode }

theorem smallSystem_runs {rootDir path : Bytes}
    (hq : parseHttpHeader .working (cgiRequest path).bytes = .ok (cgiParsed path))
    (hd : dispatch (smallSystem rootDir) (cgiParsed path) = .cgi (rootDir ++ path)) :
    .cgi (cgiHeader .epoch) (str "./" ++ (rootDir ++ path)) ∈
      (serve (smallSystem rootDir) (cgiRequest path) []).events :=
  cgiRequest_runs rfl rfl hq hd

theorem runsChecked_iff_example : RunsChecked .plain smallTree (str "web" ++ str "/cgi-bin/x")
      (str "./" ++ (str "web" ++ str "/cgi-bin/x")) ↔
    needsQuoting (str "web" ++ str "/cgi-bin/x") = false ∧
    Shell.plain.expand (str "./" ++ (str "web" ++ str "/cgi-bin/x")) = [str "./" ++ (str "web" ++ str "/cgi-bin/x")] ∧
    SameFromCwd smallTree (str "web" ++ str "/cgi-bin/x") :=
  have hq : parseHttpHeader .working (cgiRequest (str "/cgi-bin/x")).bytes = .ok (cgiParsed (str "/cgi-bin/x")) := by
    decide +kernel
  have hrun := smallSystem_runs hq (show dispatch (smallSystem (str "web")) _ =
    .cgi (str "web" ++ str "/cgi-bin/x") from rfl)
  runsChecked_iff hq rfl rfl hrun .plain

/-- A path with a semicolon is two commands, and a path from the root is looked for in the working directory. -/
theorem otherPrograms_run :
    (.cgi (cgiHeader .epoch) (str "./web/cgi-bin/x;id") ∈
        (serve (smallSystem (str "web")) (cgiRequest (str "/cgi-bin/x;id")) []).events ∧
      ∀ sh, ¬RunsChecked sh smallTree (str "web/cgi-bin/x;id") (str "./web/cgi-bin/x;id")) ∧
    (.cgi (cgiHeader .epoch) (str ".//srv/cgi-bin/x") ∈
        (serve (smallSystem (str "/srv")) (cgiRequest (str "/cgi-bin/x")) []).events ∧
      ∀ sh, ¬RunsChecked sh smallTree (str "/srv/cgi-bin/x") (str ".//srv/cgi-bin/x")) := by
  refine ⟨⟨?_, fun sh h => ?_⟩, ?_, fun sh h => ?_⟩
  · exact smallSystem_runs (by decide +kernel) rfl
  · exact sh.run_quoting _ ⟨str "web/cgi-bin/x;id", rfl⟩ (by decide +kernel) h.1
  · exact smallSystem_runs (by decide +kernel) rfl
  · obtain ⟨node, -, hnone⟩ := h.2
    cases hnone

end Distsys.Tinyweb
