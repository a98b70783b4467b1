import Mathlib.Logic.Function.Basic
import Distsys.Lib.Stdio
import Distsys.Lib.System
import Distsys.Tinyweb.LogEntry

/-! What the server prints before its loop (`open_logfile` in `src/tinyweb.c`), and what becomes of it in
    the processes that it forks: each of them has a copy of what `stdout` still keeps. -/

namespace Distsys.Tinyweb

def note : Bytes := str "Note: logging is redirected to stdout.\n"

/-- What the server prints through `stdout` before its loop. -/
def startupTexts (logFilename : Option Bytes) : List Bytes := if logsToFile logFilename then [] else [note]

/-- `open_logfile`: what is passed on, and `stdout` behind it. -/
def openLogfile (logFilename : Option Bytes) (stdout : Stream) : Bytes × Stream :=
  if logsToFile logFilename then ([], stdout) else stdout.fprintf note

/-! ### The processes -/

/-- What a process is to the program. -/
inductive Role where
  | server
  /-- A child of `accept_client`. -/
  | connection
  /-- A child of `handle_client`: its `stdout` is the connection. -/
  | script
  deriving DecidableEq, Repr

/-- A process with its copy of `stdout`. -/
structure Printer where
  role : Role
  stdout : Stream

/-- The processes, and what has come out of `stdout` of the program. -/
structure Printers where
  process : Nat → Option Printer
  output : Bytes

/-- What can happen to a process. -/
inductive PrinterAction where
  /-- A fork of the server for a client, or of such a process for a script. -/
  | fork (parent child : Nat)
  /-- A script process prints its header. -/
  | print (pid : Nat) (header : Bytes)
  /-- A script process becomes a shell. -/
  | exec (pid : Nat)
  /-- `exit`, or the end of `main`. -/
  | exit (pid : Nat)
  /-- The end by a signal. -/
  | kill (pid : Nat)

/-- The role of a child. -/
def Role.child : Role → Option Role
  | .server => some .connection
  | .connection => some .script
  | .script => none

/-- What a process leaves in the output of the program when it exits: `exit` passes on what is kept. -/
def Printer.atExit (p : Printer) : Bytes := if p.role = .script then [] else p.stdout.pending

/-- A process is there in another state, or no more. -/
def Printers.put (s : Printers) (pid : Nat) (x : Option Printer) : Printers :=
  { s with process := Function.update s.process pid x }

/-- The child of a process: a copy of it in another role. -/
def Printer.fork (p : Printer) : Option Printer := p.role.child.map fun role => { p with role := role }

/-- From the start of the loop on: the server alone, behind `open_logfile`. -/
def printSystem (logFilename : Option Bytes) (stdout : Stream) : System Printers PrinterAction where
  init := Printers.put ⟨fun _ => none, (openLogfile logFilename stdout).1⟩ 0
    (some ⟨.server, (openLogfile logFilename stdout).2⟩)
  enabled
    | s, .fork parent child => (∃ p, s.process parent = some p ∧ p.role.child.isSome = true) ∧ s.process child = none
    | s, .print pid _ | s, .exec pid => ∃ p, s.process pid = some p ∧ p.role = .script
    | s, .exit pid | s, .kill pid => ∃ p, s.process pid = some p
  next
    | s, .fork parent child => s.put child ((s.process parent).bind Printer.fork)
    | s, .print pid header =>
      s.put pid ((s.process pid).map fun p => { p with stdout := (p.stdout.fprintf header).2 })
    | s, .exec pid | s, .kill pid => s.put pid none
    | s, .exit pid => { s.put pid none with output := s.output ++ ((s.process pid).map Printer.atExit).getD [] }

/-! ### Texts that come out once -/

/-- The number of places that a text stands at. -/
def occurrences (text out : Bytes) : Nat := out.tails.countP text.isPrefixOf

/-- Each text that the server printed before its loop has come out at most once. -/
def PrintedOnce (logFilename : Option Bytes) (s : Printers) : Prop :=
  ∀ text ∈ startupTexts logFilename, occurrences text s.output ≤ 1

/-- No process but those of scripts keeps anything, and the output is what the server passed on itself. -/
structure Printers.Flushed (out : Bytes) (s : Printers) : Prop where
  output : s.output = out
  pending : ∀ pid p, s.process pid = some p → p.role ≠ .script → p.stdout.pending = []

section Printers
variable {logFilename : Option Bytes} {stdout : Stream} {s : Printers} {a : PrinterAction} {out : Bytes} {pid i : Nat}
  {x : Option Printer}

theorem put_self : (s.put pid x).process pid = x := Function.update_self _ _ _

theorem put_of_ne (h : i ≠ pid) : (s.put pid x).process i = s.process i := Function.update_of_ne h _ _

/-- A step that gives one process number to a process that keeps nothing, or to none. -/
theorem Printers.Flushed.put (h : s.Flushed out)
    (hx : ∀ p, x = some p → p.role ≠ .script → p.stdout.pending = []) :
    (s.put pid x).Flushed out where
  output := h.output
  pending i p hi hrole := by
    by_cases hpid : i = pid
    · subst hpid
      exact hx p (put_self.symm.trans hi) hrole
    · exact h.pending i p ((put_of_ne hpid).symm.trans hi) hrole

theorem Printers.Flushed.next (h : s.Flushed out) (he : (printSystem logFilename stdout).enabled s a) :
    ((printSystem logFilename stdout).next s a).Flushed out := by
  cases a with
  | fork parent child =>
    obtain ⟨⟨p, hp, -⟩, -⟩ := he
    refine h.put fun q hq hrole => ?_
    rw [hp] at hq
    obtain ⟨role, hrole', rfl⟩ := Option.map_eq_some_iff.mp hq
    refine h.pending parent p hp fun hscript => ?_
    rw [hscript] at hrole'
    cases hrole'
  | print pid header =>
    obtain ⟨p, hp, hscript⟩ := he
    refine h.put fun q hq hrole => ?_
    rw [hp] at hq
    cases hq
    exact absurd hscript hrole
  | exec pid | kill pid => exact h.put nofun
  | exit pid =>
    obtain ⟨p, hp⟩ := he
    have hnone : p.atExit = [] := by
      unfold Printer.atExit
      split
      · rfl
      · next hrole => exact h.pending pid p hp hrole
    have hnext : (s.put pid none).Flushed out := h.put nofun
    refine ⟨?_, hnext.pending⟩
    show s.output ++ ((s.process pid).map Printer.atExit).getD [] = out
    rw [hp, h.output]
    show out ++ p.atExit = out
    rw [hnone, List.append_nil]

theorem openLogfile_line (hlog : logsToFile logFilename = false) (hmode : stdout.mode = .line)
    (hnew : stdout.pending = []) :
    (openLogfile logFilename stdout).1 = note ∧ (openLogfile logFilename stdout).2.pending = [] := by
  obtain ⟨text, htext⟩ : ∃ text, note = text ++ [LF] := ⟨str "Note: logging is redirected to stdout.", rfl⟩
  have hline := Stream.fprintf_line hmode text
  obtain ⟨hkeep, -⟩ := Stream.fprintf_keeps note stdout
  rw [← htext, hnew, List.nil_append] at hline
  rw [hnew, List.nil_append, hline] at hkeep
  simp only [openLogfile, hlog, Bool.false_eq_true, ↓reduceIte]
  exact ⟨hline, List.append_right_eq_self.mp hkeep⟩

/-- The note is shorter than any buffer. -/
theorem openLogfile_full (hlog : logsToFile logFilename = false) (hmode : stdout.mode = .full)
    (hnew : stdout.pending = []) :
    (openLogfile logFilename stdout).1 = [] ∧ (openLogfile logFilename stdout).2.pending = note := by
  obtain ⟨hkeep, -⟩ := Stream.fprintf_keeps note stdout
  rw [hnew, List.nil_append] at hkeep
  have hnil : (stdout.fprintf note).1 = [] := by
    rcases Stream.fprintf_full note hmode with hnil | hfull
    · exact hnil
    · have hlength := congrArg List.length hkeep
      have hnote : note.length = 39 := rfl
      have hcap : 256 ≤ stdout.capacity := stdout.capacity_ge
      rw [List.length_append] at hlength
      omega
  rw [hnil, List.nil_append] at hkeep
  simp only [openLogfile, hlog, Bool.false_eq_true, ↓reduceIte]
  exact ⟨hnil, hkeep⟩

/-- A client is served by a process that exits: what the server keeps has come out once more. -/
theorem reaches_client (h : (printSystem logFilename stdout).Reaches s) {p : Printer} (hp : s.process 0 = some p)
    (hrole : p.role = .server) (hfree : s.process 1 = none) : ∃ t, (printSystem logFilename stdout).Reaches t ∧
      t.process 0 = some p ∧ t.process 1 = none ∧ t.output = s.output ++ p.stdout.pending := by
  have hchild : p.fork = some { p with role := .connection } := by simp [Printer.fork, hrole, Role.child]
  have hfork : (printSystem logFilename stdout).Reaches (s.put 1 p.fork) := by
    have he : (printSystem logFilename stdout).enabled s (.fork 0 1) := ⟨⟨p, hp, by rw [hrole]; rfl⟩, hfree⟩
    have hnext := System.ReachesBy.step h he trivial
    change System.ReachesBy _ _ (s.put 1 ((s.process 0).bind Printer.fork)) at hnext
    rwa [hp] at hnext
  have hself : (s.put 1 p.fork).process 1 = some { p with role := .connection } := put_self.trans hchild
  have he : (printSystem logFilename stdout).enabled (s.put 1 p.fork) (.exit 1) := ⟨_, hself⟩
  refine ⟨_, hfork.step he trivial, ?_, ?_, ?_⟩
  · show ((s.put 1 p.fork).put 1 none).process 0 = some p
    rw [put_of_ne (by decide), put_of_ne (by decide), hp]
  · show ((s.put 1 p.fork).put 1 none).process 1 = none
    exact put_self
  · show s.output ++ (((s.put 1 p.fork).process 1).map Printer.atExit).getD [] = _
    rw [hself]
    rfl

/-- A text that the server keeps comes out as often as there are clients. -/
theorem reaches_clients (logFilename : Option Bytes) (stdout : Stream) (n : Nat) :
    ∃ s, (printSystem logFilename stdout).Reaches s ∧
    s.process 0 = some ⟨.server, (openLogfile logFilename stdout).2⟩ ∧ s.process 1 = none ∧
    s.output = (openLogfile logFilename stdout).1 ++ (List.replicate n
      (openLogfile logFilename stdout).2.pending).flatten := by
  induction n with
  | zero =>
    exact ⟨_, .init, put_self, put_of_ne (by decide), (List.append_nil _).symm⟩
  | succ n ih =>
    obtain ⟨s, hs, hp, hfree, hout⟩ := ih
    obtain ⟨t, ht, hp', hfree', hout'⟩ := reaches_client hs hp rfl hfree
    refine ⟨t, ht, hp', hfree', ?_⟩
    rw [hout', hout, List.replicate_succ', List.flatten_concat, List.append_assoc]

end Printers

/-- In all runs with any number of clients: what the server prints before its loop comes out at most once
    exactly if `stdout` is line buffered, or the log goes to a file and nothing is printed. -/
theorem printedOnce_iff {logFilename : Option Bytes} {stdout : Stream} (hnew : stdout.pending = []) :
    (∀ s, (printSystem logFilename stdout).Reaches s → PrintedOnce logFilename s) ↔
      stdout.mode = .line ∨ logsToFile logFilename = true := by
  cases hlog : logsToFile logFilename with
  | true => simp [PrintedOnce, startupTexts, hlog]
  | false =>
    have honce {s : Printers} : PrintedOnce logFilename s ↔ occurrences note s.output ≤ 1 := by
      simp [PrintedOnce, startupTexts, hlog]
    simp only [honce, Bool.false_eq_true, or_false]
    constructor
    · intro h
      cases hmode : stdout.mode with
      | line => rfl
      | full =>
        obtain ⟨hout, hkeep⟩ := openLogfile_full hlog hmode hnew
        obtain ⟨s, hs, -, -, hs'⟩ := reaches_clients logFilename stdout 2
        have hle := h s hs
        rw [hs', hout, hkeep] at hle
        exact absurd hle (by decide +kernel)
    · intro hmode s hs
      obtain ⟨hout, hkeep⟩ := openLogfile_line hlog hmode hnew
      have hflushed : s.Flushed note := by
        refine hs.invariant ⟨hout, fun pid p hp _ => ?_⟩ fun s a h he => h.next he
        by_cases hpid : pid = 0
        · subst hpid
          cases put_self.symm.trans hp
          exact hkeep
        · cases (put_of_ne hpid).symm.trans hp
      rw [hflushed.output]
      decide +kernel

/-- A `stdout` that is a pipe, as the program finds it. -/
def newPipe : Stream := ⟨.full, 65536, [], Nat.le_of_ble_eq_true rfl, Nat.le_of_ble_eq_true rfl⟩

theorem printedOnce_iff_example : (∀ s, (printSystem (some (str "log.txt")) newPipe).Reaches s →
    PrintedOnce (some (str "log.txt")) s) ↔
    newPipe.mode = .line ∨ logsToFile (some (str "log.txt")) = true :=
  printedOnce_iff rfl

/-- Through the pipe the note comes out with every client. -/
theorem pipedNote_repeats : ¬(∀ s, (printSystem none newPipe).Reaches s → PrintedOnce none s) ∧
    ∃ s, (printSystem none newPipe).Reaches s ∧ s.output = note ++ note := by
  obtain ⟨s, hs, -, -, hout⟩ := reaches_clients none newPipe 2
  obtain ⟨hpassed, hkept⟩ :=
    openLogfile_full (show logsToFile none = false from rfl) (show newPipe.mode = .full from rfl) rfl
  have hnotes : s.output = note ++ note := by
    rw [hout, hpassed, hkept]
    rfl
  refine ⟨fun h => ?_, s, hs, hnotes⟩
  have hle := h s hs note (by simp [startupTexts, logsToFile])
  rw [hnotes] at hle
  exact absurd hle (by decide +kernel)

end Distsys.Tinyweb
