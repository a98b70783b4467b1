import Distsys.Tinyweb.CgiOutput
import Distsys.Tinyweb.Moved

/-! A HEAD request beside the GET request that differs from it in the method alone: what the parser and
    `handle_client` (`src/tinyweb.c`) make of both. The method is looked at last, behind the branches for a
    range and for scripts. -/

namespace Distsys.Tinyweb
open Regex

/-! ### The parser -/

section Parse
variable {lib : Libc} {p q : ParsedHeader} {method s rest buffer buffer' : Bytes} {l : RequestLine}

end Parse

/-! ### The decision -/

/-- The process as it answers another request at another time. -/
def Env.at (env : Env) (now : ClockTime) : Env := { env with now }

section Decision
variable {env : Env} {now : ClockTime} {q : ParsedHeader} {filepath : Bytes} {st : Inode}

end Decision

/-! ### What the client reads -/

def isDate (l : Bytes) : Bool := (httpHeaderFieldList .date).isPrefixOf l

def withoutDate (ls : List Bytes) : List Bytes := ls.filter fun l => !isDate l

/-- The status line and the fields that an event sends, apart from the date. A script completes the header itself;
    what a command prints is given. -/
def Event.head? (printed : Bytes → Bytes) : Event → Option (List Bytes)
  | .header _ text _ => some (withoutDate (headLines text))
  | .cgi text command => some (withoutDate (headLines (text ++ printed command)))
  | .log _ | .openFile _ | .body _ _ => none

/-- The bytes of a body that an event sends. -/
def Event.payload (printed : Bytes → Bytes) : Event → Bytes
  | .body _ accepted => accepted
  | .cgi text command => messageBody (text ++ printed command)
  | _ => []

/-- What follows the headers, of the server and of the commands. -/
def Run.payload (printed : Bytes → Bytes) (run : Run) : Bytes := run.events.flatMap (Event.payload printed)

section Reading
variable {env : Env} {now : ClockTime} {q : ParsedHeader} {data : HttpHeader} {status : HttpStatus}
  {filepath rest : Bytes} {sched : Schedule} {line : LogLine} {next : Run} {printed : Bytes → Bytes}

end Reading

section Runs
variable {env : Env} {q : ParsedHeader} {status : HttpStatus} {filepath : Bytes} {fp : Option Bytes}
  {fstat : Option Inode} {st : Inode} {sched : Schedule} {printed : Bytes → Bytes}

end Runs

/-! ### The two requests -/

section Agreement
variable {env : Env} {now : ClockTime} {q : ParsedHeader} {get head : Buffer} {filepath file : Bytes} {st : Inode}
  {status : HttpStatus} {printed printed' : Bytes → Bytes} {sched : Schedule}

end Agreement

end Distsys.Tinyweb
