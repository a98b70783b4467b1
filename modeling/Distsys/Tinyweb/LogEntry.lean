import Distsys.Lib.Calendar

/-! A line of the access log, as `write_log` in `src/tinyweb.c` prints it, and how much of it gets through to the log:
    `print_log` (`src/sem_print.c`) prints into the stream of the log file, and `safe_printf` (`src/safe_print.c`) into
    an array that it then writes to `stdout`. -/

namespace Distsys.Tinyweb

/-- The log goes to a file of its own. -/
def logsToFile : Option Bytes → Bool
  | none => false
  | some logFilename => logFilename != str "-"

/-! ### The text -/

/-- `struct sockaddr_in`, with its port in the order of the host. -/
structure SockAddr where
  sinAddr : UInt8 × UInt8 × UInt8 × UInt8
  sinPort : UInt16

/-- `inet_ntop` of an `AF_INET` address. -/
def inetNtop : UInt8 × UInt8 × UInt8 × UInt8 → Bytes
  | (a, b, c, d) => decimal a.toNat ++ 0x2E :: decimal b.toNat ++ 0x2E :: decimal c.toNat ++ 0x2E :: decimal d.toNat

/-- A string under `%-7s`: blanks up to the width. -/
def leftJustify (width : Nat) (s : Bytes) : Bytes := s ++ List.replicate (width - s.length) SP

/-- The arguments of the call that prints a line. -/
structure LogEntry where
  pid : Int
  address : Bytes
  portNumber : Int
  date : Bytes
  method : Bytes
  filepath : Bytes
  protocol : Bytes
  code : Int
  size : Int
  deriving DecidableEq

/-- `[%d] %s:%d - - [%s] "%-7s %s %s" %d %d\n` -/
def LogEntry.text (e : LogEntry) : Bytes :=
  str "[" ++ decimalInt e.pid ++ str "] " ++ e.address ++ str ":" ++ decimalInt e.portNumber ++ str " - - [" ++
    e.date ++ str "] \"" ++ leftJustify 7 e.method ++ str " " ++ e.filepath ++ str " " ++ e.protocol ++ str "\" " ++
    decimalInt e.code ++ str " " ++ decimalInt e.size ++ [LF]

/-! ### The two ways to the log -/

/-- The size of the array of `safe_printf`. -/
def MAXS : Nat := 1024

/-- What `safe_printf` writes of a text. -/
def safePrintf (text : Bytes) : Bytes := snprintf MAXS text

/-- What gets to the log of a line: `print_log` has room for all of it. -/
def LogEntry.written (e : LogEntry) (logFilename : Option Bytes) : Bytes :=
  if logsToFile logFilename then e.text else safePrintf e.text

/-! ### The writer of a line -/

/-- What `write_log` takes from its process: `getpid`, the client, the time, and what `int` the size is with a file
    status that was never set. -/
structure LogWriter where
  pid : Int
  client : SockAddr
  now : ClockTime
  unsetSize : Int
  pid_int : -2 ^ 31 ≤ pid ∧ pid < 2 ^ 31
  unsetSize_int : -2 ^ 31 ≤ unsetSize ∧ unsetSize < 2 ^ 31

/-- A process that serves a client on its own host. -/
def localWriter : LogWriter := ⟨7, ⟨(127, 0, 0, 1), 8080⟩, .epoch, 0, by decide, by decide⟩

/-- The array `date`. -/
def logDate (now : ClockTime) : Bytes := snprintf 50 (snprintf 80 (strftime now.civil) ++ str " +0200")

section Text
variable {e : LogEntry} {c : UInt8} {n : Nat} {z : Int} {a : UInt8 × UInt8 × UInt8 × UInt8} {now : ClockTime}
  {logFilename : Option Bytes}

theorem length_text (e : LogEntry) : e.text.length = (decimalInt e.pid).length + e.address.length +
    (decimalInt e.portNumber).length + e.date.length + (leftJustify 7 e.method).length + e.filepath.length +
    e.protocol.length + (decimalInt e.code).length + (decimalInt e.size).length + 19 := by
  have hliterals : (str "[").length = 1 ∧ (str "] ").length = 2 ∧ (str ":").length = 1 ∧ (str " - - [").length = 6 ∧
      (str "] \"").length = 3 ∧ (str " ").length = 1 ∧ (str "\" ").length = 2 := by
    decide
  unfold LogEntry.text
  simp only [List.length_append, List.length_singleton, hliterals]
  omega

/-- A line gets to the log whole, but for one that is too long for the array on its way to `stdout`. -/
theorem written_eq_iff : e.written logFilename = e.text ↔ logsToFile logFilename = true ∨ e.text.length < MAXS := by
  unfold LogEntry.written
  cases logsToFile logFilename with
  | true => simp
  | false =>
    simp only [Bool.false_eq_true, ↓reduceIte, false_or]
    refine ⟨fun h => ?_, snprintf_of_lt⟩
    have hlen := congrArg List.length h
    rw [safePrintf, length_snprintf] at hlen
    have hpos : 0 < MAXS := by decide
    omega

/-! The bytes of the fields. -/

theorem not_mem_decimal (hc : isdigit c = false) : c ∉ decimal n :=
  fun h => ne_of_class (isdigit_of_mem_decimal h) hc rfl

theorem not_mem_decimalInt (hc : isdigit c = false) (hsign : c ≠ 0x2D) : c ∉ decimalInt z := by
  unfold decimalInt
  split
  · rw [List.mem_cons, not_or]
    exact ⟨hsign, not_mem_decimal hc⟩
  · exact not_mem_decimal hc

theorem not_mem_inetNtop (hc : isdigit c = false) (hdot : c ≠ 0x2E) : c ∉ inetNtop a := by
  obtain ⟨a, b, d, e⟩ := a
  simp only [inetNtop, List.mem_append, List.mem_cons, not_or]
  exact ⟨⟨⟨not_mem_decimal hc, hdot, not_mem_decimal hc⟩, hdot, not_mem_decimal hc⟩, hdot, not_mem_decimal hc⟩

theorem logDate_eq (now : ClockTime) : logDate now = strftime now.civil ++ str " +0200" := by
  have hlen := length_strftime_le now.toTime
  have hzone : (str " +0200").length = 6 := by decide
  rw [logDate, snprintf_of_lt (by omega : (strftime now.civil).length < 80), snprintf_of_lt]
  rw [List.length_append, hzone]
  omega

theorem LF_not_mem_logDate (now : ClockTime) : LF ∉ logDate now := by
  have hzone : LF ∉ str " +0200" := by decide
  simp only [logDate_eq, List.mem_append, not_or]
  exact ⟨LF_not_mem_strftime _, hzone⟩

end Text

end Distsys.Tinyweb
