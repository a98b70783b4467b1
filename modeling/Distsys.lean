import Distsys.Lib.Bytes
import Distsys.Lib.Regex
import Distsys.Lib.Strtok
import Distsys.Lib.Decimal
import Distsys.Lib.Scan
import Distsys.Lib.Head
import Distsys.Lib.Calendar
import Distsys.Lib.Strptime
import Distsys.Lib.Path
import Distsys.Lib.System
import Distsys.Lib.Stdio
import Distsys.Lib.Shell
import Distsys.Lib.Tree
import Distsys.Lib.Getopt
import Distsys.Lib.Fields
import Distsys.Libsockets.SocketIo
import Distsys.Tinyweb.Http
import Distsys.Tinyweb.HttpParser
import Distsys.Tinyweb.RangeLine
import Distsys.Tinyweb.RangeScan
import Distsys.Tinyweb.RequestLine
import Distsys.Tinyweb.AcceptedRequest
import Distsys.Tinyweb.Confinement
import Distsys.Tinyweb.Response
import Distsys.Tinyweb.HandleClient
import Distsys.Tinyweb.Received
import Distsys.Tinyweb.HeaderText
import Distsys.Tinyweb.Dispatch
import Distsys.Tinyweb.BodyStart
import Distsys.Tinyweb.ContentType
import Distsys.Tinyweb.Scripts
import Distsys.Tinyweb.BodyLoop
import Distsys.Tinyweb.FullTransfer
import Distsys.Tinyweb.Framing
import Distsys.Tinyweb.RangeRequest
import Distsys.Tinyweb.PartialContent
import Distsys.Tinyweb.Moved
import Distsys.Tinyweb.Modsince
import Distsys.Tinyweb.SigChld
import Distsys.Tinyweb.CgiWait
import Distsys.Tinyweb.SemPrint
import Distsys.Tinyweb.CgiOutput
import Distsys.Tinyweb.CgiCommand
import Distsys.Tinyweb.HeadRequest
import Distsys.Tinyweb.Trailing
import Distsys.Tinyweb.OneResponse
import Distsys.Tinyweb.AccessLog
import Distsys.Tinyweb.BodyHeads
import Distsys.Tinyweb.BodyEnds
import Distsys.Tinyweb.PendingOutput
import Distsys.Tinyweb.GetOptions
import Distsys.Tinyweb.MainLoop
import Distsys.Tinyweb.Interrupt
import Distsys.Echod.Acceptor
import Distsys.Echod.Slots
import Distsys.Echod.SlaveThread
import Distsys.Echod.SlaveSteps
import Distsys.Echod.Connections
import Distsys.Echod.Streams
import Distsys.Tinyweb.RequestForm
import Distsys.Tinyweb.ClientRequest
import Distsys.Tinyweb.Revalidation
import Distsys.Tinyweb.CachedCopy
import Distsys.Tinyweb.HeaderLines
import Distsys.Tinyweb.RangeValues
import Distsys.Tinyweb.FieldLines
import Distsys.Tinyweb.FieldNames
import Distsys.Tinyweb.LogText
import Distsys.Tinyweb.LogFile
