import Distsys.Lib.Stdio
import Distsys.Tinyweb.LogText
import Distsys.Tinyweb.SemPrint

/-! The log file (`open_logfile`, `print_log`, and `exit` in `accept_client`): the children that serve the requests
    inherit the stream of the file, each of them a copy of its own. What a child prints stays in its copy until that
    is full or the child exits, so it is `exit`, behind the semaphore, that writes to the file. -/

namespace Distsys.Tinyweb

/-- What a child does. -/
inductive ChildPhase where
  | serving
  /-- From the call of `print_log` on. -/
  | logging
  | exited (logged : Bool)
  | killed
  deriving DecidableEq

/-- A child, what `vfprintf` has still to print in it, and its copy of the stream. -/
structure Child where
  phase : ChildPhase
  left : Bytes
  stream : Stream

/-- The semaphore, the children, and the bytes of the file with the child that wrote each. -/
structure LogFile (ι : Type) where
  log : LogState ι
  child : ι → Child
  file : List (ι × UInt8)

/-- What can happen to a child. -/
inductive LogFileAction (ι : Type) where
  /-- A call of `print_log`, or its return. -/
  | log (a : LogAction ι)
  /-- `vfprintf` puts a byte into the stream. -/
  | putc (i : ι)
  /-- `exit` writes what the stream keeps. -/
  | exit (i : ι) (logged : Bool)
  /-- A signal or a fault ends the child. -/
  | kill (i : ι)

/-- The child that exits when it has logged. -/
def LogFileAction.exits {ι : Type} : LogFileAction ι → Option ι
  | .exit i true => some i
  | _ => none

theorem exit_of_exits {ι : Type} {a : LogFileAction ι} {i : ι} (h : a.exits = some i) : a = .exit i true := by
  unfold LogFileAction.exits at h
  split at h
  · rw [Option.some.inj h]
  · cases h

/-- The call of `print_log` that an action is. -/
def LogFileAction.action {ι : Type} : LogFileAction ι → Option (LogAction ι)
  | .log a => some a
  | _ => none

section File
variable {ι : Type} [DecidableEq ι]

/-- A child becomes another. -/
def LogFile.setChild (s : LogFile ι) (i : ι) (c : Child) : LogFile ι := { s with child := Function.update s.child i c }

/-- A child writes to the file. The children share its offset. -/
def LogFile.write (s : LogFile ι) (i : ι) (bytes : Bytes) : LogFile ι := { s with file := s.file ++ bytes.map (i, ·) }

/-- What an action asks of the child that takes it. -/
def LogFile.Guard (s : LogFile ι) : LogFileAction ι → Prop
  | .log (.semWait i) | .log (.semWaitFails i) => (s.child i).phase = .serving
  | .log (.print i) => (s.child i).phase = .logging ∧ (s.child i).left = []
  | .log (.semPost i) => (s.child i).phase = .logging
  | .putc i => (s.child i).phase = .logging ∧ s.log.position i = .entered ∧ (s.child i).left ≠ []
  | .exit i false => (s.child i).phase = .serving
  | .exit i true => (s.child i).phase = .logging ∧ s.log.position i = .outside
  | .kill i => (s.child i).phase = .serving ∨ (s.child i).phase = .logging

/-- The file and the children behind an action. -/
def LogFile.next (start : Nat) (s : LogFile ι) : LogFileAction ι → LogFile ι
  | .log a =>
    let t := { s with log := (logSystem ι start).next s.log a }
    match a with
    | .semWait i | .semWaitFails i => t.setChild i { s.child i with phase := .logging }
    | .print _ | .semPost _ => t
  | .putc i => match (s.child i).left with
    | [] => s
    | c :: left =>
      let put := (s.child i).stream.putc c
      (s.setChild i { s.child i with left, stream := put.2 }).write i put.1
  | .exit i logged => (s.setChild i { s.child i with phase := .exited logged }).write i (s.child i).stream.pending
  | .kill i => s.setChild i { s.child i with phase := .killed }

/-- The children log one message each, into copies of the stream, behind a semaphore of this value. -/
def logFileSystem (message : ι → Bytes) (stream : Stream) (start : Nat) : System (LogFile ι) (LogFileAction ι) where
  init := ⟨(logSystem ι start).init, fun i => ⟨.serving, message i, stream⟩, []⟩
  enabled s a := s.Guard a ∧ ∀ b ∈ a.action, (logSystem ι start).enabled s.log b
  next := LogFile.next start

instance (s : LogFile ι) : ∀ a, Decidable (s.Guard a)
  | .log (.semWait _) | .log (.semWaitFails _) | .log (.semPost _) | .exit _ false =>
    inferInstanceAs (Decidable (_ = _))
  | .log (.print _) | .exit _ true => inferInstanceAs (Decidable (_ ∧ _))
  | .putc _ => inferInstanceAs (Decidable (_ ∧ _ ∧ ¬_))
  | .kill _ => inferInstanceAs (Decidable (_ ∨ _))

instance (message : ι → Bytes) (stream : Stream) (start : Nat) (s : LogFile ι) (a : LogFileAction ι) :
    Decidable ((logFileSystem message stream start).enabled s a) :=
  inferInstanceAs (Decidable (s.Guard a ∧ ∀ b ∈ a.action, _))

/-- The bytes of the file that a child wrote. -/
def LogFile.writtenBy (s : LogFile ι) (i : ι) : Bytes := (s.file.filter (·.1 = i)).map (·.2)

def LogFile.contents (s : LogFile ι) : Bytes := s.file.map (·.2)

/-! ### The steps of one child -/

/-- What a step can do to the child that takes it: its position, the child, what is written to the file, whether it
    exits and has logged, and the position and the child then. -/
inductive Child.Step : LogPosition → Child → Bytes → Bool → LogPosition → Child → Prop
  | call {c : Child} : c.phase = .serving → Step .outside c [] false .entered { c with phase := .logging }
  | putc {c : Child} {d : UInt8} {left : Bytes} : c.phase = .logging → c.left = d :: left →
      Step .entered c (c.stream.putc d).1 false .entered { c with left, stream := (c.stream.putc d).2 }
  | print {c : Child} : c.phase = .logging → c.left = [] → Step .entered c [] false .printed c
  | post {c : Child} : c.phase = .logging → Step .printed c [] false .outside c
  | leave {p : LogPosition} {c : Child} : c.phase = .serving →
    Step p c c.stream.pending false p { c with phase := .exited false }
  | exit {c : Child} : c.phase = .logging → Step .outside c c.stream.pending true .outside
    { c with phase := .exited true }
  | kill {p : LogPosition} {c : Child} : c.phase = .serving ∨ c.phase = .logging →
    Step p c [] false p { c with phase := .killed }

/-- One child takes a step; the others stay as they are. -/
structure LogFile.Moves (s : LogFile ι) (a : LogFileAction ι) (t : LogFile ι) (i : ι) (out : Bytes) : Prop where
  step : Child.Step (s.log.position i) (s.child i) out a.exits.isSome (t.log.position i) (t.child i)
  exits : ∀ j, a.exits = some j → j = i
  file : t.file = s.file ++ out.map (i, ·)
  child : ∀ j, j ≠ i → t.child j = s.child j
  position : ∀ j, j ≠ i → t.log.position j = s.log.position j

variable {message : ι → Bytes} {stream : Stream} {start : Nat} {s t : LogFile ι} {a : LogFileAction ι} {i j : ι}
  {c : Child} {out : Bytes}

/-- A step of `print_log`. -/
theorem moves_log {b : LogAction ι} {p : LogPosition} (start : Nat) (hlog : t.log = (logSystem ι start).next s.log b)
    (hchild : t.child = Function.update s.child i c) (hfile : t.file = s.file)
    (hp : ((logSystem ι start).next s.log b).position = (s.log.move i p).position)
    (hstep : Child.Step (s.log.position i) (s.child i) [] false p c) : s.Moves (.log b) t i [] := by
  refine ⟨?_, nofun, by simp [hfile], fun j hj => by rw [hchild, Function.update_of_ne hj], fun j hj => ?_⟩
  · rw [hlog, hp, move_position_self, hchild, Function.update_self]
    exact hstep
  · rw [hlog, hp, move_position_of_ne hj]

/-- A step beside the semaphore. -/
theorem moves_child (hexits : ∀ j, a.exits = some j → j = i)
    (hstep : Child.Step (s.log.position i) (s.child i) out a.exits.isSome (s.log.position i) c) :
    s.Moves a ((s.setChild i c).write i out) i out where
  step := by
    have hself : ((s.setChild i c).write i out).child i = c := Function.update_self _ _ _
    rw [hself]
    exact hstep
  exits := hexits
  file := rfl
  child _ hj := Function.update_of_ne hj _ _
  position _ _ := rfl

theorem moves_next (he : (logFileSystem message stream start).enabled s a) :
    ∃ i out, s.Moves a (s.next start a) i out := by
  obtain ⟨hguard, hlog⟩ := he
  cases a with
  | log b =>
    have hb := hlog b rfl
    cases b with
    | semWait i =>
      have hposition : s.log.position i = .outside := hb.1
      exact ⟨i, [], moves_log start rfl rfl rfl rfl (hposition ▸ .call hguard)⟩
    | semWaitFails i =>
      have hposition : s.log.position i = .outside := hb
      exact ⟨i, [], moves_log start rfl rfl rfl rfl (hposition ▸ .call hguard)⟩
    | print i =>
      have hposition : s.log.position i = .entered := hb
      exact ⟨i, [], moves_log start rfl (Function.update_eq_self i s.child).symm rfl rfl
        (hposition ▸ .print hguard.1 hguard.2)⟩
    | semPost i =>
      have hposition : s.log.position i = .printed := hb
      exact ⟨i, [], moves_log start rfl (Function.update_eq_self i s.child).symm rfl rfl (hposition ▸ .post hguard)⟩
  | putc i =>
    obtain ⟨hphase, hposition, hne⟩ := hguard
    obtain ⟨d, left, hleft⟩ := List.exists_cons_of_ne_nil hne
    have hnext : s.next start (.putc i) =
        (s.setChild i { s.child i with left, stream := ((s.child i).stream.putc d).2 }).write i
          ((s.child i).stream.putc d).1 := by
      simp only [LogFile.next, hleft]
    rw [hnext]
    exact ⟨i, _, moves_child nofun (hposition ▸ .putc hphase hleft)⟩
  | exit i logged =>
    cases logged with
    | false => exact ⟨i, _, moves_child nofun (.leave hguard)⟩
    | true =>
      have hexits : ∀ j, (LogFileAction.exit i true).exits = some j → j = i := fun j hj => (Option.some.inj hj).symm
      exact ⟨i, _, moves_child hexits (hguard.2 ▸ .exit hguard.1)⟩
  | kill i =>
    have hnext : s.next start (.kill i) = (s.setChild i { s.child i with phase := .killed }).write i [] := by
      simp [LogFile.next, LogFile.write]
    rw [hnext]
    exact ⟨i, [], moves_child nofun (.kill hguard)⟩

/-! ### Where the bytes of a message are -/

/-- What a child with this message has written to the file, beside what its stream keeps and what is left to print. -/
def Child.Accounted (message written : Bytes) (p : LogPosition) (c : Child) : Prop :=
  match c.phase with
  | .serving => p = .outside ∧ written = [] ∧ c.left = message ∧ c.stream.pending = []
  | .logging => written ++ c.stream.pending ++ c.left = message ∧ (p ≠ .entered → c.left = [])
  | .exited true => written = message
  | .exited false => written = []
  | .killed => written <+: message

theorem Child.Step.accounted {m written : Bytes} {p p' : LogPosition} {c' : Child} {e : Bool}
    (hs : Child.Step p c out e p' c') (h : c.Accounted m written p) : c'.Accounted m (written ++ out) p' := by
  unfold Child.Accounted at h
  cases hs with
  | call hphase =>
    simp only [hphase] at h
    obtain ⟨-, rfl, hleft, hpending⟩ := h
    exact ⟨by simp [hpending, hleft], fun hp => absurd rfl hp⟩
  | @putc _ d left hphase hleft =>
    simp only [hphase, hleft] at h
    obtain ⟨hkeep, -, -⟩ := Stream.putc_keeps c.stream d
    simp only [Child.Accounted, hphase]
    refine ⟨?_, fun hp => absurd rfl hp⟩
    rw [List.append_assoc written, hkeep, ← h.1]
    simp
  | print hphase hleft =>
    simp only [hphase] at h
    simp only [Child.Accounted, hphase, List.append_nil]
    exact ⟨h.1, fun _ => hleft⟩
  | post hphase =>
    simp only [hphase] at h
    simp only [Child.Accounted, hphase, List.append_nil]
    exact ⟨h.1, fun _ => h.2 nofun⟩
  | leave hphase =>
    simp only [hphase] at h
    obtain ⟨-, rfl, -, hpending⟩ := h
    simp only [Child.Accounted, hpending, List.append_nil]
  | exit hphase =>
    simp only [hphase] at h
    obtain ⟨hkeep, hleft⟩ := h
    rw [hleft nofun, List.append_nil] at hkeep
    exact hkeep
  | kill hphase =>
    rcases hphase with hphase | hphase
    · simp only [hphase] at h
      obtain ⟨-, rfl, -⟩ := h
      exact List.nil_prefix
    · simp only [hphase] at h
      simp only [Child.Accounted, List.append_nil, ← h.1, List.append_assoc]
      exact List.prefix_append _ _

theorem Moves.writtenBy_self (h : s.Moves a t i out) : t.writtenBy i = s.writtenBy i ++ out := by
  simp [LogFile.writtenBy, h.file, List.filter_map, Function.comp_def]

theorem Moves.writtenBy_of_ne (h : s.Moves a t i out) (hj : j ≠ i) : t.writtenBy j = s.writtenBy j := by
  have hne : ¬i = j := fun heq => hj heq.symm
  simp [LogFile.writtenBy, h.file, List.filter_map, Function.comp_def, hne]

theorem accounted_of_reaches (hpending : stream.pending = []) (h : (logFileSystem message stream start).Reaches s)
    (i : ι) :
    (s.child i).Accounted (message i) (s.writtenBy i) (s.log.position i) := by
  refine h.invariant (P := fun s => ∀ i, (s.child i).Accounted (message i) (s.writtenBy i) (s.log.position i)) ?_ ?_ i
  · exact fun i => ⟨rfl, rfl, rfl, hpending⟩
  · intro s a hs he j
    obtain ⟨i, out, hmoves⟩ := moves_next he
    show ((s.next start a).child j).Accounted (message j) ((s.next start a).writtenBy j)
      ((s.next start a).log.position j)
    by_cases hj : j = i
    · subst hj
      rw [Moves.writtenBy_self hmoves]
      exact hmoves.step.accounted (hs j)
    · rw [hmoves.child j hj, hmoves.position j hj, Moves.writtenBy_of_ne hmoves hj]
      exact hs j

/-! ### Messages that fit the stream -/

/-- A child keeps its message in the stream, all of it once it is printed. -/
def Child.Buffered (message : Bytes) (capacity : Nat) (p : LogPosition) (c : Child) : Prop :=
  match c.phase with
  | .serving => c.left = message ∧ c.stream.pending = [] ∧ c.stream.mode = .full ∧ c.stream.capacity = capacity
  | .logging => c.stream.pending ++ c.left = message ∧ (p ≠ .entered → c.left = []) ∧ c.stream.mode = .full ∧
      c.stream.capacity = capacity
  | .exited _ | .killed => True

theorem putc_of_room {stream : Stream} (d : UInt8) (hmode : stream.mode = .full)
    (h : stream.pending.length + 1 < stream.capacity) :
    (stream.putc d).1 = [] ∧ (stream.putc d).2.pending = stream.pending ++ [d] := by
  unfold Stream.putc
  rw [dif_pos ⟨h, fun hline => nomatch hmode.symm.trans hline.1⟩]
  exact ⟨rfl, rfl⟩

/-- Only `exit` writes, and what it writes is the message. -/
theorem Child.Step.buffered {m : Bytes} {capacity : Nat} {p p' : LogPosition} {c' : Child} {e : Bool}
    (hm : m.length < capacity) (hs : Child.Step p c out e p' c')
    (h : c.Buffered m capacity p) : c'.Buffered m capacity p' ∧ out = if e then m else [] := by
  unfold Child.Buffered at h
  cases hs with
  | call hphase =>
    simp only [hphase] at h
    obtain ⟨hleft, hpending, hmode, hcap⟩ := h
    exact ⟨⟨by simp [hpending, hleft], fun hp => absurd rfl hp, hmode, hcap⟩, rfl⟩
  | @putc _ d left hphase hleft =>
    simp only [hphase, hleft] at h
    obtain ⟨hkeep, -, hmode, hcap⟩ := h
    have hroom : c.stream.pending.length + 1 < c.stream.capacity := by
      have hlength : c.stream.pending.length + (left.length + 1) = m.length := by rw [← hkeep]; simp
      omega
    obtain ⟨hout, hpending⟩ := putc_of_room d hmode hroom
    obtain ⟨-, hmode', hcap'⟩ := Stream.putc_keeps c.stream d
    simp only [Child.Buffered, hphase]
    refine ⟨⟨?_, fun hp => absurd rfl hp, hmode'.trans hmode, hcap'.trans hcap⟩, hout⟩
    rw [hpending, ← hkeep]
    simp
  | print hphase hleft =>
    simp only [hphase] at h
    simp only [Child.Buffered, hphase]
    exact ⟨⟨h.1, fun _ => hleft, h.2.2⟩, rfl⟩
  | post hphase =>
    simp only [hphase] at h
    simp only [Child.Buffered, hphase]
    exact ⟨⟨h.1, fun _ => h.2.1 nofun, h.2.2⟩, rfl⟩
  | leave hphase =>
    simp only [hphase] at h
    exact ⟨trivial, h.2.1⟩
  | exit hphase =>
    simp only [hphase] at h
    obtain ⟨hkeep, hleft, -⟩ := h
    rw [hleft nofun, List.append_nil] at hkeep
    exact ⟨trivial, hkeep⟩
  | kill hphase => exact ⟨trivial, rfl⟩

/-- The file has the messages of the children that exited, one after the other. -/
theorem file_after (hmode : stream.mode = .full) (hpending : stream.pending = [])
    (hlen : ∀ i, (message i).length < stream.capacity) {as : List (LogFileAction ι)}
    (h : (logFileSystem message stream start).Allows (fun _ _ => True) (logFileSystem message stream start).init as) :
    ((logFileSystem message stream start).after as).file = (as.filterMap LogFileAction.exits).flatMap fun i =>
      (message i).map (i, ·) := by
  refine (System.after_invariant (Q := fun (s : LogFile ι) taken =>
    (∀ i, (s.child i).Buffered (message i) stream.capacity (s.log.position i)) ∧
      s.file = (taken.filterMap LogFileAction.exits).flatMap fun i => (message i).map (i, ·)) ?_ ?_ h).2
  · exact ⟨fun i => ⟨rfl, hpending, hmode, rfl⟩, rfl⟩
  · intro s taken a ⟨hbuffered, hfile⟩ he _
    obtain ⟨i, out, hmoves⟩ := moves_next he
    obtain ⟨hchild, hout⟩ := hmoves.step.buffered (hlen i) (hbuffered i)
    show (∀ i, ((s.next start a).child i).Buffered (message i) stream.capacity ((s.next start a).log.position i)) ∧
      (s.next start a).file = _
    refine ⟨fun j => ?_, ?_⟩
    · by_cases hj : j = i
      · subst hj
        exact hchild
      · rw [hmoves.child j hj, hmoves.position j hj]
        exact hbuffered j
    · rw [hmoves.file, hfile, hout, List.filterMap_append, List.flatMap_append]
      congr 1
      cases hexits : a.exits with
      | none => simp [hexits]
      | some j =>
        obtain rfl := hmoves.exits j hexits
        simp [hexits]

end File

/-- In every run, whatever the size of the stream, the order of the children and the failures of `sem_wait`: the file
    has a start of the message of each child, all of it if the child exited when it had logged, and nothing if it
    exited without logging. -/
theorem written_of_reaches {ι : Type} [DecidableEq ι] {message : ι → Bytes} {stream : Stream} {start : Nat}
    {s : LogFile ι} (hpending : stream.pending = []) (h : (logFileSystem message stream start).Reaches s)
    (i : ι) : s.writtenBy i <+: message i ∧
      ((s.child i).phase = .exited true → s.writtenBy i = message i) ∧
      ((s.child i).phase = .exited false → s.writtenBy i = []) := by
  have haccounted := accounted_of_reaches hpending h i
  unfold Child.Accounted at haccounted
  cases hphase : (s.child i).phase with
  | serving =>
    simp only [hphase] at haccounted
    rw [haccounted.2.1]
    exact ⟨List.nil_prefix, nofun, nofun⟩
  | logging =>
    simp only [hphase, List.append_assoc] at haccounted
    exact ⟨⟨_, haccounted.1⟩, nofun, nofun⟩
  | exited logged =>
    cases logged with
    | false =>
      simp only [hphase] at haccounted
      exact ⟨haccounted ▸ List.nil_prefix, nofun, fun _ => haccounted⟩
    | true =>
      simp only [hphase] at haccounted
      exact ⟨haccounted ▸ List.prefix_rfl, fun _ => haccounted, nofun⟩
  | killed =>
    simp only [hphase] at haccounted
    exact ⟨haccounted, nofun, nofun⟩

theorem fileCapacity_ge : BUFSIZ_MIN ≤ 4096 := by decide

/-- A stream for files, with a buffer of 4096 bytes. -/
def fileStream : Stream := ⟨.full, 4096, [], fileCapacity_ge, Nat.le_of_ble_eq_true rfl⟩

/-- One child would log a letter, and the other one another. -/
def twoLetters (b : Bool) : Bytes := if b then str "a" else str "b"

/-- Two children; the second exits first, and the first is killed behind `print_log`. -/
def lostLine : List (LogFileAction Bool) := [.log (.semWait true), .putc true, .log (.print true), .log (.semPost true),
  .log (.semWait false), .putc false, .log (.print false), .log (.semPost false), .exit false true, .kill true]

def lostLineFile : LogFile Bool := (logFileSystem twoLetters fileStream 1).after lostLine

theorem written_of_reaches_example : lostLineFile.writtenBy false <+: twoLetters false ∧
    ((lostLineFile.child false).phase = .exited true → lostLineFile.writtenBy false = twoLetters false) ∧
    ((lostLineFile.child false).phase = .exited false → lostLineFile.writtenBy false = []) :=
  written_of_reaches rfl (System.reachesBy_after (by decide +kernel)) false

/-- In every run in which the children that exit when they have logged served a request with its strings set, and the
    others would log no more than the stream can keep: the log file is read as one entry for each of those that exited
    so, in the order in which they did, where the request line has a space before the version. -/
theorem readLog_file {ι : Type} [DecidableEq ι] {message : ι → Bytes} (requests : ι → LoggedRequest) {stream : Stream}
    {start : Nat} (hmode : stream.mode = .full) (hpending : stream.pending = []) (hcapacity : 1200 ≤ stream.capacity)
    {as : List (LogFileAction ι)} (hlogged : ∀ i, .exit i true ∈ as → message i = (requests i).entry.text)
    (hshort : ∀ i, .exit i true ∉ as → (message i).length < stream.capacity)
    (h : (logFileSystem message stream start).Allows (fun _ _ => True) (logFileSystem message stream start).init as) :
    readLog ((logFileSystem message stream start).after as).contents =
      (((as.filterMap LogFileAction.exits).map requests).filter (·.isOneLine)).map (·.entry) := by
  have hlen : ∀ i, (message i).length < stream.capacity := by
    intro i
    by_cases hi : .exit i true ∈ as
    · rw [hlogged i hi]
      exact Nat.lt_of_lt_of_le (requests i).length_text_lt hcapacity
    · exact hshort i hi
  have hfile := file_after hmode hpending hlen h
  have hexits : ∀ i ∈ as.filterMap LogFileAction.exits, message i = (requests i).entry.text := by
    intro i hi
    obtain ⟨a, ha, hai⟩ := List.mem_filterMap.mp hi
    exact hlogged i (exit_of_exits hai ▸ ha)
  have hcontents : ((logFileSystem message stream start).after as).contents =
      ((as.filterMap LogFileAction.exits).map requests).flatMap (·.entry.text) := by
    rw [LogFile.contents, hfile, List.map_flatMap, List.flatMap_map]
    refine List.flatMap_congr fun i hi => ?_
    rw [List.map_map, hexits i hi]
    exact List.map_id _
  rw [hcontents, readLog_flatMap]

def twoRequests (b : Bool) : LoggedRequest := if b then spacedRequest else tabbedRequest

/-- The first child logs its request; what the other one would print is not that of a request. -/
def twoMessages (b : Bool) : Bytes := if b then spacedRequest.entry.text else str "?"

/-- One child logs and exits, while the other one serves its client. -/
def oneLogged : List (LogFileAction Bool) :=
  .log (.semWait true) :: List.replicate spacedRequest.entry.text.length (.putc true) ++
    [.log (.print true), .log (.semPost true), .exit true true]

theorem oneLogged_allowed : (logFileSystem twoMessages fileStream 1).Allows (fun _ _ => True)
    (logFileSystem twoMessages fileStream 1).init oneLogged := by
  decide +kernel

theorem exit_oneLogged {b : Bool} : .exit b true ∈ oneLogged ↔ b = true := by
  cases b <;> simp [oneLogged]

theorem readLog_file_example : readLog ((logFileSystem twoMessages fileStream 1).after oneLogged).contents =
    (((oneLogged.filterMap LogFileAction.exits).map twoRequests).filter (·.isOneLine)).map (·.entry) :=
  readLog_file twoRequests rfl rfl (by decide)
    (fun b hb => by rw [exit_oneLogged.mp hb]; rfl)
    (fun b hb => by
      cases b with
      | true => exact absurd (exit_oneLogged.mpr rfl) hb
      | false => decide)
    oneLogged_allowed

/-! ### A child that is killed inside -/

/-- The step is no failure of `sem_wait`. -/
def LogFileAction.Waits {ι : Type} (_ : LogFile ι) (a : LogFileAction ι) : Prop := ∀ b ∈ a.action, b.isFailure = false

instance {ι : Type} (s : LogFile ι) (a : LogFileAction ι) : Decidable (LogFileAction.Waits s a) :=
  inferInstanceAs (Decidable (∀ b ∈ a.action, b.isFailure = false))

/-- The killed children are as many as may be inside, and they are still there. -/
structure LogFile.Silenced {ι : Type} (s : LogFile ι) (start : Nat) (killed : Finset ι) : Prop where
  accounted : ∃ inside, s.log.Accounted start inside 0
  card : start ≤ killed.card
  phase : ∀ i ∈ killed, (s.child i).phase = .killed
  position : ∀ i ∈ killed, s.log.Inside i

/-- Nobody else is inside, and nobody else can come in. -/
theorem LogFile.Silenced.others {ι : Type} {start : Nat} {s : LogFile ι} {killed : Finset ι}
    (h : s.Silenced start killed) :
    s.log.value = 0 ∧ ∀ j, s.log.Inside j → j ∈ killed := by
  obtain ⟨inside, haccounted⟩ := h.accounted
  have hsub : killed ⊆ inside := fun i hi => (haccounted.mem_iff i).mpr (h.position i hi)
  have hcard := Finset.card_le_card hsub
  have hvalue := haccounted.value
  have hstart := h.card
  have heq : killed = inside := Finset.eq_of_subset_of_card_le hsub (by omega)
  exact ⟨by omega, fun j hj => heq ▸ (haccounted.mem_iff j).mpr hj⟩

section Killed
variable {ι : Type} [DecidableEq ι] {message : ι → Bytes} {stream : Stream} {start : Nat} {s : LogFile ι}
  {a : LogFileAction ι}

theorem accounted_next {inside : Finset ι} (hstart : start ≤ SEM_VALUE_MAX) (hs : s.log.Accounted start inside 0)
    (he : (logFileSystem message stream start).enabled s a) (hw : a.Waits s) :
    ∃ inside', (s.next start a).log.Accounted start inside' 0 := by
  cases a with
  | log b =>
    obtain ⟨inside', hnext⟩ := hs.next hstart (he.2 b rfl)
    rw [hw b rfl, if_neg Bool.false_ne_true] at hnext
    cases b <;> exact ⟨inside', hnext⟩
  | putc j =>
    have hlog : (s.next start (.putc j)).log = s.log := by
      simp only [LogFile.next]
      split <;> rfl
    exact ⟨inside, hlog ▸ hs⟩
  | exit j logged => exact ⟨inside, hs⟩
  | kill j => exact ⟨inside, hs⟩

theorem Child.Step.alive {c c' : Child} {p p' : LogPosition} {out : Bytes} {e : Bool}
    (hs : Child.Step p c out e p' c') :
    c.phase = .serving ∨ c.phase = .logging := by
  cases hs with
  | call hphase | leave hphase => exact Or.inl hphase
  | putc hphase | print hphase | post hphase | exit hphase => exact Or.inr hphase
  | kill hphase => exact hphase

/-- A killed child takes no step. -/
theorem silenced_step {killed : Finset ι} (hstart : start ≤ SEM_VALUE_MAX) (hs : s.Silenced start killed)
    (he : (logFileSystem message stream start).enabled s a) (hw : a.Waits s) :
    ((∃ j logged, a = .exit j logged) ∨ ∃ j, a = .kill j) ∧ (s.next start a).Silenced start killed := by
  obtain ⟨hvalue, hothers⟩ := hs.others
  refine ⟨?_, ?_⟩
  · have outside : ∀ {j : ι}, (s.child j).phase = .logging → s.log.position j = .outside := fun {j} hj => by
      by_contra hin
      exact nomatch hj.symm.trans (hs.phase j (hothers j hin))
    obtain ⟨hguard, hlog⟩ := he
    cases a with
    | log b =>
      have hb := hlog b rfl
      cases b with
      | semWait j => exact absurd hvalue (Nat.ne_of_gt hb.2)
      | semWaitFails j => exact nomatch hw _ rfl
      | print j => exact nomatch (outside hguard.1).symm.trans hb
      | semPost j => exact nomatch (outside hguard).symm.trans hb
    | putc j => exact nomatch (outside hguard.1).symm.trans hguard.2.1
    | exit j logged => exact Or.inl ⟨j, logged, rfl⟩
    | kill j => exact Or.inr ⟨j, rfl⟩
  · obtain ⟨inside, haccounted⟩ := hs.accounted
    obtain ⟨j, out, hmoves⟩ := moves_next he
    have hne : ∀ i ∈ killed, i ≠ j := by
      rintro i hi rfl
      rcases hmoves.step.alive with hphase | hphase <;> cases (hs.phase i hi).symm.trans hphase
    refine ⟨accounted_next hstart haccounted he hw, hs.card, fun i hi => ?_, fun i hi => ?_⟩
    · rw [hmoves.child i (hne i hi)]
      exact hs.phase i hi
    · show (s.next start a).log.position i ≠ .outside
      rw [hmoves.position i (hne i hi)]
      exact hs.position i hi

end Killed

/-- As long as no `sem_wait` fails: once as many children are killed inside `print_log` as the semaphore lets in, one
    for each of its value at the start, no child logs any more. The children can only exit or be killed. -/
theorem silenced_by_kill {ι : Type} [DecidableEq ι] {message : ι → Bytes} {stream : Stream} {start : Nat}
    {as bs : List (LogFileAction ι)} {killed : Finset ι} (hstart : start ≤ SEM_VALUE_MAX)
    (h : (logFileSystem message stream start).Allows LogFileAction.Waits (logFileSystem message stream start).init
      (as ++ bs))
    (hcard : start ≤ killed.card)
    (hkilled : ∀ i ∈ killed, (((logFileSystem message stream start).after as).child i).phase = .killed)
    (hinside : ∀ i ∈ killed, ((logFileSystem message stream start).after as).log.Inside i) :
    ∀ a ∈ bs, (∃ j logged, a = .exit j logged) ∨ ∃ j, a = .kill j := by
  obtain ⟨has, hbs⟩ := System.allows_append.mp h
  have haccounted : ∃ inside, ((logFileSystem message stream start).after as).log.Accounted start inside 0 :=
    (System.reachesBy_after has).invariant (P := fun s : LogFile ι => ∃ inside, s.log.Accounted start inside 0)
      ⟨∅, accounted_init start⟩ fun _ _ ⟨_, hs⟩ he hw => accounted_next hstart hs he hw
  exact System.Allows.forall_mem (P := fun s : LogFile ι => s.Silenced start killed)
    (fun _ _ hs he hw => silenced_step hstart hs he hw) ⟨haccounted, hcard, hkilled, hinside⟩ hbs

/-- Two children are killed inside, where an earlier run left the value 2, and a third one exits. -/
def killedInside : List (LogFileAction Nat) :=
  [.log (.semWait 0), .putc 0, .log (.semWait 1), .kill 0, .kill 1]

theorem silenced_by_kill_example : (∃ (j : Nat) (logged : Bool), LogFileAction.exit 2 false = .exit j logged) ∨
    ∃ j : Nat, LogFileAction.exit 2 false = .kill j :=
  have hallows : (logFileSystem (fun _ : Nat => str "a") fileStream 2).Allows LogFileAction.Waits
      (logFileSystem (fun _ : Nat => str "a") fileStream 2).init (killedInside ++ [.exit 2 false]) := by decide +kernel
  have hkilled : ∀ i ∈ ({0, 1} : Finset Nat),
      (((logFileSystem (fun _ : Nat => str "a") fileStream 2).after killedInside).child i).phase = .killed := by
    decide +kernel
  have hinside : ∀ i ∈ ({0, 1} : Finset Nat),
      ((logFileSystem (fun _ : Nat => str "a") fileStream 2).after killedInside).log.Inside i := by
    decide +kernel
  silenced_by_kill (by decide) hallows (by decide) hkilled hinside _ List.mem_cons_self

end Distsys.Tinyweb
