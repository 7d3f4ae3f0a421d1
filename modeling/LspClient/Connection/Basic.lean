import LspClient.Diagnostic.Cache
import LspClient.Document.Locks
import LspClient.Failure
import LspClient.Json.Basic
import LspClient.Path
import LspClient.Settings.Basic
import LspClient.Table

/-!
# Connections

The state of a connection to one server: who it is, what it has sent and heard, and the two pipes
it talks over.

`Calls` are its requests that wait for a response, by their numbers. A call is numbered and
registered, and from then on it can be completed by whoever takes it out: the one who took in its
response, or who ends the connection. To take a call out and to complete it are two steps. Its
caller may give it up at any time, and then takes it out, too. `settled` holds the outcomes in the
order in which they were given, until they are collected. An outcome given to a caller that is gone
stays there. The end of a connection, `close`, takes all calls out in the step that closes it;
nothing can be registered afterwards.

Its `Outbox` is the queue of what it is to write, which holds up to `capacity` commands. A sender
stands in line with a ticket until there is room behind those before it; `offer` is for senders that
do not wait. What became of a command whose sender wants to know is kept under its ticket. A closed
outbox drops what is queued, and lets nobody in.
-/

namespace LspClient

/-! ### Calls -/

structure Calls where
  server : String
  nextId : Nat
  /-- The methods of the registered calls. -/
  pending : Table Nat String
  settled : Table Nat (Except Failure Json)
  closing : Bool
  closed : Bool
  closeError : Option Failure
  deriving Inhabited

namespace Calls

def ofServer (server : String) : Calls := ⟨server, 1, [], [], false, false, none⟩

/-- Whether new requests are accepted. -/
def isAlive (c : Calls) : Bool := !c.closed && !c.closing

/-- What a call on a connection that has ended fails with. -/
def closedError (c : Calls) : Failure := c.closeError.getD (.connectionClosed c.server none)

/-- How many numbers there are: they start anew after the last. -/
def numbers : Nat := 0x10000000000000000

/-- A number for a call. -/
def number (c : Calls) : Nat × Calls :=
  (c.nextId, { c with nextId := (c.nextId + 1) % numbers })

def register (c : Calls) (id : Nat) (method : String) : Except Failure Calls :=
  if c.closed then .error c.closedError else .ok { c with pending := c.pending.put id method }

/-- Take a call out; the answer is its method, if it is registered. -/
def take (c : Calls) (id : Nat) : Option String × Calls :=
  (c.pending.get? id, { c with pending := c.pending.erase id })

/-- Take all calls out. -/
def drain (c : Calls) : Table Nat String × Calls := (c.pending, { c with pending := [] })

/-- Give a call that was taken out its outcome. -/
def complete (c : Calls) (id : Nat) (outcome : Except Failure Json) : Calls :=
  { c with settled := c.settled ++ [(id, outcome)] }

/-- Take a call back; the answer says whether it was still registered. -/
def abandon (c : Calls) (id : Nat) : Bool × Calls :=
  (c.pending.has id, { c with pending := c.pending.erase id, settled := c.settled.erase id })

/-- The outcome of a call that is settled. -/
def collect (c : Calls) (id : Nat) : Option (Except Failure Json × Calls) :=
  (c.settled.get? id).map fun outcome => (outcome, { c with settled := c.settled.erase id })

/-- Keep the error a connection ends with; the first one counts. -/
def recordEnd (c : Calls) (stderr : Option String) : Calls :=
  { c with closeError := some (c.closeError.getD (.connectionClosed c.server stderr)) }

/-- Close, and take all calls out. -/
def close (c : Calls) : Table Nat String × Calls := drain { c with closed := true }

/-- Begin to shut down; the answer says whether somebody else has. -/
def beginClosing (c : Calls) : Bool × Calls := (c.closing, { c with closing := true })

end Calls

/-! ### Outboxes -/

inductive Command where
  | send (frame : Json) (ticket : Option Nat)
  /-- Close the stream, and write no more. -/
  | shutdown
  deriving Inhabited

/-- What became of a command. -/
inductive Delivery where
  | written
  | failed (message : String)
  | dropped
  deriving DecidableEq, Repr

structure Outbox where
  queue : List Command
  /-- The tickets of those who stand in line. -/
  line : List Nat
  deliveries : Table Nat Delivery
  nextTicket : Nat
  closed : Bool
  deriving Inhabited

namespace Outbox

def empty : Outbox := ⟨[], [], [], 0, false⟩

def capacity : Nat := 64

/-- Whether there is room behind `ahead` others. -/
def hasRoom (o : Outbox) (ahead : Nat) : Bool := o.queue.length + ahead < capacity

/-- Get in line. -/
def join (o : Outbox) : Nat × Outbox :=
  (o.nextTicket, { o with line := o.line ++ [o.nextTicket], nextTicket := o.nextTicket + 1 })

def leave (o : Outbox) (ticket : Nat) : Outbox :=
  { o with line := o.line.filter (· ≠ ticket), deliveries := o.deliveries.erase ticket }

/-- Queue the command of one who stands in line, once it is its turn. -/
def takeIn (o : Outbox) (ticket : Nat) (c : Command) : Option Outbox :=
  if o.closed ∨ !o.hasRoom (o.line.idxOf ticket) then none
  else some { o with line := o.line.filter (· ≠ ticket), queue := o.queue ++ [c] }

/-- Queue a command if there is room now. -/
def offer (o : Outbox) (c : Command) : Outbox :=
  if o.closed ∨ !o.hasRoom o.line.length then o else { o with queue := o.queue ++ [c] }

def next? (o : Outbox) : Option (Command × Outbox) :=
  match o.queue with
  | [] => none
  | c :: queue => some (c, { o with queue })

/-- Report on a command. -/
def report (o : Outbox) (ticket : Option Nat) (d : Delivery) : Outbox :=
  match ticket with
  | some t => { o with deliveries := o.deliveries.put t d }
  | none => o

/-- The report on a command, taken out. -/
def collect (o : Outbox) (ticket : Nat) : Option (Delivery × Outbox) :=
  (o.deliveries.get? ticket).map fun d =>
    (d, { o with deliveries := o.deliveries.erase ticket })

def close (o : Outbox) : Outbox :=
  let dropped := o.queue.foldl (fun o c =>
    match c with
    | .send _ ticket => o.report ticket .dropped
    | .shutdown => o) o
  { dropped with queue := [], closed := true }

end Outbox

/-! ### Connections -/

/-- Identity and tunables of a connection. -/
structure ConnectionOptions where
  name : String
  cwd : Path
  /-- The language of a document whose name does not tell it. -/
  languageId : String
  fileTypes : List String
  requestTimeout : Nat
  /-- What the server is told when it asks for its configuration. -/
  settings : Option Json
  deriving Inhabited

def ConnectionOptions.ofServer (name : String) (config : ServerConfig) (cwd : Path)
    (requestTimeout : Nat) : ConnectionOptions where
  name := name
  cwd := cwd
  languageId := config.languageId
  fileTypes := config.fileExtensions
  requestTimeout := requestTimeout
  settings := config.settings

structure Connection extends ConnectionOptions where
  /-- The pipe the server writes to. -/
  input : Nat
  /-- The pipe the server reads from. -/
  output : Nat
  calls : Calls
  outbox : Outbox
  /-- What is left to write of the frame under way, and whose it is. -/
  writing : Option (List UInt8 × Option Nat)
  cache : DiagnosticsCache
  documents : Documents
  locks : Locks
  capabilities : Option Json
  /-- When something was last asked of the server. -/
  lastActivity : Nat
  /-- The end of what the server wrote to its error stream. -/
  stderrTail : List UInt8
  stderrDone : Bool
  /-- The process of the server, if it has one. -/
  process : Option Nat
  /-- Whether the server was started as a process: its pipes are the system's then. -/
  ofProcess : Bool
  deriving Inhabited

namespace Connection

def isAlive (c : Connection) : Bool := c.calls.isAlive

def touch (now : Nat) (c : Connection) : Connection := { c with lastActivity := now }

/-- A member of the capabilities, which is declared where it is true or an object. -/
def supportsFormatting (c : Connection) : Bool :=
  match c.capabilities.bind fun caps => caps.get? "documentFormattingProvider" with
  | some (.bool b) => b
  | some (.obj _) => true
  | _ => false

/-- Whether the server wants the text of a document when it is saved. -/
def wantsTextOnSave (c : Connection) : Bool :=
  ((((c.capabilities.bind fun caps => caps.get? "textDocumentSync").bind
    fun sync => sync.get? "save").bind fun save => save.get? "includeText").bind
    Json.bool?).getD false

end Connection

end LspClient
