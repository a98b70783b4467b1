import Distsys.Tinyweb.BodyHeads
import Distsys.Tinyweb.OneResponse

/-! The access log (`write_log` in `src/tinyweb.c`): which requests leave one line in it when they are completed,
    with the number of bytes that were sent for them. The line counts the header and the file, whatever the branch
    that writes it then sends, and on its way to `stdout` a long one loses its end and with it the count. -/

namespace Distsys.Tinyweb

/-- The line of a call of `write_log`. -/
def Event.logLine? : Event → Option LogLine
  | .log line => some line
  | .header _ _ _ | .openFile _ | .body _ _ | .cgi _ _ => none

/-- The lines of a run. -/
def Run.logs (run : Run) : List LogLine := run.events.filterMap Event.logLine?

/-- The request is completed. -/
def Ending.IsComplete : Ending → Prop
  | .returned _ | .exited => True
  | .blocked | .fault _ => False

section Lines
variable {env : Env} {w : LogWriter} {line : LogLine} {e : LogEntry} {run : Run}

end Lines

section Headers
variable {env : Env} {q : ParsedHeader} {filepath : Option Bytes} {path : Bytes} {fstat : Option Inode} {st : Inode}
  {status : HttpStatus} {text : Bytes} {run : Run} {next : Schedule → Run} {line : LogLine} {n sent : Nat} {rest : Int}
  {sched : Schedule}

theorem logs_after {e : Event} : (run.after e).logs = e.logLine?.toList ++ run.logs := by
  unfold Run.logs Run.after
  rw [List.filterMap_cons]
  cases e.logLine? <;> rfl

end Headers

/-! ### The bytes of a body -/

/-- The number of bytes that the socket accepts of a body. -/
def BodyRun.total (run : BodyRun) : Nat := (run.writes.flatMap (·.2)).length

section Body
variable {file : Inode} {stop offset n m k : Nat} {retcode r : Int} {mem bytes : Bytes} {sched : Schedule}

/-- A run of the loop that ends without a failed call, with so many bytes sent. -/
structure Ends (run : BodyRun) (retcode : Int) (total : Nat) : Prop where
  res : run.res = some retcode
  counts : ∀ w ∈ run.writes, w.1 ≤ CHUNK_SIZE
  total : run.total = total

theorem Ends.behind {run : BodyRun} (h : Ends run retcode n) (hle : k ≤ CHUNK_SIZE) (hlen : bytes.length = m) :
    Ends (run.behind [(k, bytes)]) retcode (m + n) where
  res := h.res
  counts w hw := by
    rcases List.mem_cons.mp hw with rfl | hw
    · exact hle
    · exact h.counts w hw
  total := by
    rw [← h.total, ← hlen]
    simp only [BodyRun.total, BodyRun.behind, List.singleton_append, List.flatMap_cons, List.length_append]

end Body

/-! ### The branches -/

section File
variable {env : Env} {fs : FileSystem} {q : ParsedHeader} {status : HttpStatus} {path : Bytes} {st file : Inode}
  {start end_ r : Int} {pos stop n : Nat} {sched rest : Schedule}

end File

section Branches
variable {env : Env} {q : ParsedHeader} {status : HttpStatus} {filepath : Option Bytes} {path : Bytes}
  {fstat : Option Inode} {st : Inode}

end Branches

end Distsys.Tinyweb
