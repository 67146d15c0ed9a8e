import QjsDebug.Basic
import QjsDebug.Json.Value
import QjsDebug.Lib.StepSystem
import QjsDebug.Session.Paths
import QjsDebug.Session.State
import QjsDebug.Session.Breakpoints
import QjsDebug.Session.Handler
import QjsDebug.Session.Nested
import QjsDebug.Session.Insertion
import QjsDebug.Session.Searches
import QjsDebug.Conversions
import QjsDebug.Session.Inspect
import QjsDebug.Json.Parse
import QjsDebug.Json.Scan
import QjsDebug.Json.Refinement
import QjsDebug.Json.Grammar
import QjsDebug.Json.Serialize
import QjsDebug.Json.RoundTrip
import QjsDebug.Json.Document
import QjsDebug.Json.Unicode
import QjsDebug.Json.Parts
import QjsDebug.Json.Exceptions
import QjsDebug.Cdp.Handler
import QjsDebug.Threads.Machine
import QjsDebug.Threads.Steps
import QjsDebug.Threads.Reentrancy
import QjsDebug.Lib.CondVar
import QjsDebug.Threads.Wakeup
import QjsDebug.Threads.Evaluate
import QjsDebug.Threads.Disconnect
import QjsDebug.Lib.ByteStream
import QjsDebug.Ws.Frame
import QjsDebug.Ws.Resize
import QjsDebug.Lib.FirstMatch
import QjsDebug.Ws.Handshake
import QjsDebug.Lib.Handles
import QjsDebug.Ws.Accept
import QjsDebug.Ws.Request
import QjsDebug.Ws.Headers
import QjsDebug.Ws.Discovery
import QjsDebug.Ws.Receive
import QjsDebug.Ws.Loop
import QjsDebug.Ws.Messages
import QjsDebug.Cdp.Matching
import QjsDebug.Cdp.Integers
import QjsDebug.Json.Sentence
import QjsDebug.Cdp.Scripts
import QjsDebug.Execution.Calls
import QjsDebug.Execution.Frames
import QjsDebug.Execution.Stepping
import QjsDebug.Lib.Growth
import QjsDebug.Lib.Projection
import QjsDebug.Objects.Remote
import QjsDebug.Objects.Capture
import QjsDebug.Objects.Trees
import QjsDebug.Objects.Recording
import QjsDebug.Objects.Display
import QjsDebug.Cdp.BreakpointTable
import QjsDebug.Threads.Justified
import QjsDebug.Threads.Startup
import QjsDebug.Threads.EntryPause
import QjsDebug.Ws.Shutdown
import QjsDebug.Cdp.Replies
import QjsDebug.Lib.Serial
import QjsDebug.Ws.Sending
import QjsDebug.Ws.Truncation
import QjsDebug.Cdp.Announcements
import QjsDebug.Cdp.SourceMap
import QjsDebug.Lib.Bits
import QjsDebug.Lib.Sha1
import QjsDebug.Lib.Base64
import QjsDebug.Ws.Digest
import QjsDebug.Lib.Logged
import QjsDebug.Json.Accesses
import QjsDebug.Lib.Ownership
import QjsDebug.Objects.References
import QjsDebug.Cdp.Conversation
import QjsDebug.Threads.Sequential
import QjsDebug.Threads.Progress
import QjsDebug.Lib.Lines
import QjsDebug.Ws.Answers
import QjsDebug.Program.Main
import QjsDebug.Program.Resources
import QjsDebug.Threads.History
import QjsDebug.Program.Console
import QjsDebug.Threads.Turns
