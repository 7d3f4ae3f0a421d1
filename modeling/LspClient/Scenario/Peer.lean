import LspClient.Frame.Basic
import LspClient.Message.Basic
import LspClient.Scenario.Answer
import LspClient.World

/-!
# Scripted peers

A peer stands at the other ends of the pipes of a connection and does what its script says. It
keeps every frame it receives; it answers requests by the first rule for their method, and
publishes diagnostics for the lines of documents that contain certain words. When its input ends,
or at the notification that asks it to exit, it closes both pipes.
-/

namespace LspClient.Scenario

structure Peer where
  server : String
  script : Json
  /-- The pipe it reads from. -/
  input : Nat
  /-- The pipe it writes to. -/
  output : Nat
  /-- What it has read of a frame under way. -/
  buffer : List UInt8
  /-- The frames received, latest first. -/
  received : List Json
  /-- How many of them were looked at. -/
  seen : Nat
  /-- The texts of the documents it has heard of. -/
  documents : Table String String
  deriving Inhabited

/-- What stands at the other ends of the pipes. -/
structure Stage where
  peers : List Peer
  /-- The connections that were handed out, in the order in which they were. -/
  handedOut : List Nat

def Stage.empty : Stage := ⟨[], []⟩

abbrev Play (α : Type) := Work Stage α

namespace Peer

def peer (w : World Stage) (k : Nat) : Peer := (w.outside.peers[k]?).getD default

def setPeer (w : World Stage) (k : Nat) (p : Peer) : World Stage :=
  { w with outside := { w.outside with peers := w.outside.peers.set k p } }

/-! ### Sending and closing -/

def sendBytes (k : Nat) (bytes : List UInt8) (w : World Stage) : World Stage :=
  let output := (peer w k).output
  let pipe := w.pipe output
  if pipe.sourceClosed || pipe.sinkClosed then w else w.onPipe output fun p => p.push bytes

def sendFrame (k : Nat) (frame : Json) (w : World Stage) : World Stage :=
  sendBytes k (Frame.write frame) w

/-- Stop reading. -/
def deafen (k : Nat) (w : World Stage) : World Stage :=
  w.onPipe (peer w k).input Pipe.closeSink

/-- Close both pipes. -/
def crash (k : Nat) (w : World Stage) : World Stage :=
  (deafen k w).onPipe (peer w k).output Pipe.closeSource

/-! ### Rules -/

def uriOf (frame : Json) : String :=
  text ((frame.member "params").member "textDocument") "uri"

def ruleFor (script : Json) (method uri : String) : Option Json :=
  (items script "rules").find? fun rule =>
    text rule "method" == method &&
      match (rule.member "file").str? with
      | some file => file.toList.reverse.isPrefixOf uri.toList.reverse
      | none => true

/-- The result of a method for which there is no rule. -/
def defaultResult (script : Json) (method : String) : Json :=
  if method = Method.handshake then
    .object [("capabilities", (script.get? "capabilities").getD (.obj []))]
  else .null

def replyOf (script id : Json) (method : String) (rule : Option Json) : Json :=
  match rule with
  | none => Message.ofResult id (defaultResult script method)
  | some rule =>
    match rule.get? "error" with
    | some e => .object [Message.version, ("id", id), ("error", e)]
    | none => Message.ofResult id (rule.member "result")

/-- Do something after a time. -/
def later (ms : Nat) (f : World Stage → World Stage) : Play Unit :=
  Program.fork do
    Work.sleep ms
    Program.update f

def respond (k : Nat) (script id frame : Json) (method : String) : Play Unit := do
  let rule := ruleFor script method (uriOf frame)
  let r := rule.getD .null
  if flag r "crash" then Program.update (crash k)
  else if flag r "deaf" then Program.update (deafen k)
  else if flag r "silent" then return ()
  else
    let reply := replyOf script id method rule
    match natural r "delay_ms" with
    | 0 => Program.update (sendFrame k reply)
    | ms => later ms (sendFrame k reply)

/-! ### Publishing -/

def contains (word line : List Char) : Bool :=
  match line with
  | [] => word.isEmpty
  | c :: rest => word.isPrefixOf (c :: rest) || contains word rest

def position (line character : Nat) : Json :=
  .object [("line", .nat line), ("character", .nat character)]

/-- The diagnostic a rule gives for a line. -/
def diagnosticAt (rule : Json) (line : Nat) : Json :=
  (rule.eraseMember "contains").setMember "range"
    (.object [("start", position line 0), ("end", position line 1)])

def diagnosticsFor (rules : List Json) (content : String) : List Json :=
  (content.splitOn "\n").zipIdx.flatMap fun (line, n) =>
    (rules.filter fun rule => contains (text rule "contains").toList line.toList).map fun rule =>
      diagnosticAt rule n

/-- What happens to a document, as scripts call it. -/
def eventOf : String → Option String
  | "textDocument/didOpen" => some "open"
  | "textDocument/didChange" => some "change"
  | "textDocument/didSave" => some "save"
  | _ => none

/-- The new text of a document, where a notification brings one. -/
def newText (event : String) (frame : Json) : Option String :=
  let params := frame.member "params"
  match event with
  | "open" => some (text (params.member "textDocument") "text")
  | "change" => some (text ((params.member "contentChanges").item 0) "text")
  | _ => none

def publishes (script : Json) (event : String) : Bool :=
  (script.get? "publish").isSome &&
    match (script.member "publish_on").arr? with
    | some events => events.any fun e => e.str? == some event
    | none => true

def publish (k : Nat) (script : Json) (uri content : String) : Play Unit :=
  let params : Json := .object [
    ("uri", .str uri), ("diagnostics", .arr (diagnosticsFor (items script "publish") content))]
  later (natural script "publish_delay_ms")
    (sendFrame k (Message.ofNotification Method.publishDiagnostics (some params)))

/-- Take note of a document, and publish its diagnostics if the script says so. -/
def onDocument (k : Nat) (event : String) (frame : Json) : Play Unit := do
  let uri := uriOf frame
  match newText event frame with
  | some content =>
    Program.update fun w =>
      let p := peer w k
      setPeer w k { p with documents := p.documents.put uri content }
  | none => pure ()
  let p ← Program.look fun w => peer w k
  if publishes p.script event then
    publish k p.script uri ((p.documents.get? uri).getD "")

/-! ### Receiving -/

/-- A frame as it is kept. -/
def recorded (frame : Json) : Json :=
  if (frame.member "method").str? = some Method.handshake then
    match frame.get? "params" with
    | some (.obj params) =>
      frame.setMember "params"
        (((Json.obj params).eraseMember "capabilities").setMember "processId" (.nat 0))
    | _ => frame
  else frame

/-- What a peer finds when it reads on. -/
inductive Arrival where
  | frame (v : Json)
  /-- Some bytes of a frame. -/
  | part
  /-- The input is over, or the peer is deaf. -/
  | ended

/-- Read on, once there is something to read. -/
def read (k : Nat) (w : World Stage) : Option (Arrival × World Stage) :=
  let p := peer w k
  let pipe := w.pipe p.input
  let keep (buffer : List UInt8) (received : List Json) : World Stage :=
    setPeer (w.onPipe p.input fun q => q.drain.2) k { p with buffer, received }
  if pipe.sinkClosed then some (.ended, w)
  else
    match Frame.read pipe.sourceClosed (p.buffer ++ pipe.buffer) with
    | .frame v rest => some (.frame v, keep rest (recorded v :: p.received))
    | .more =>
      if pipe.buffer.isEmpty then none
      else some (.part, keep (p.buffer ++ pipe.buffer) p.received)
    | _ => some (.ended, w)

/-- React to a frame; the answer says whether to go on. -/
def react (k : Nat) (frame : Json) : Play Bool := do
  let p ← Program.look fun w => peer w k
  let method := text frame "method"
  match frame.get? "id" with
  | some id =>
    if method = "" then return true
    else
      respond k p.script id frame method
      return true
  | none =>
    if method = Method.exit then
      Program.update (crash k)
      return false
    else
      match eventOf method with
      | some event =>
        onDocument k event frame
        return true
      | none => return true

def serve (k : Nat) : Play Bool := do
  match ← Program.wait (read k) with
  | .frame v => react k v
  | .part => return true
  | .ended =>
    let deaf ← Program.look fun w => (w.pipe (peer w k).input).sinkClosed
    unless deaf do Program.update (crash k)
    return false

/-- Start a peer; the answer is its number. -/
def start (server : String) (script : Json) : Play Nat := do
  let k ← Program.act fun w =>
    let (input, w) := w.newPipe
    let (output, w) := w.newPipe
    (w.outside.peers.length,
      { w with outside := { w.outside with
          peers := w.outside.peers ++ [⟨server, script, input, output, [], [], 0, []⟩] } })
  Program.start (serve k)
  return k

/-- The frames received since the last look. -/
def look (k : Nat) (w : World Stage) : List Json × World Stage :=
  let p := peer w k
  (p.received.reverse.drop p.seen, setPeer w k { p with seen := p.received.length })

end Peer

end LspClient.Scenario
