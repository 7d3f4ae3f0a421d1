import LspClient.Connection.Lifecycle
import LspClient.Diagnostic.Collect
import LspClient.Scenario.Step

/-!
# Scenarios of one connection

One connection to one scripted peer, and the steps that use it.
-/

namespace LspClient.Scenario

namespace ConnectionPlay

def syncJson : SyncOutcome → Json
  | .skipped => .str "skipped"
  | .opened => .str "opened"
  | .changed version => .object [("changed", .int version)]
  | .saved => .str "saved"

def nothing (_ : Unit) : Json := .null

def pathOf (step : Json) : Path := ⟨text step "path"⟩

/-- The URI of a step, given as such or by a path. -/
def uriOf (step : Json) : Except Failure String :=
  match (step.member "uri").str? with
  | some uri => .ok uri
  | none => Uri.ofPath (pathOf step)

def stateJson (c : Connection) : Json :=
  .object [
    ("name", .str c.name), ("cwd", .str c.cwd.text), ("language_id", .str c.languageId),
    ("file_types", .strings c.fileTypes), ("alive", .bool c.isAlive),
    ("pending", .nat c.calls.pending.length), ("open_files", .nat c.documents.length),
    ("diagnostics_version", .nat c.cache.version),
    ("supports_formatting", .bool c.supportsFormatting),
    ("capabilities", .optional c.capabilities)]

def cachedJson (c : Connection) (uri : String) : Json :=
  match c.cache.get? uri with
  | some cached => .object [("stamp", .nat cached.stamp), ("items", diagnosticsJson cached.items)]
  | none => .null

def versionJson (c : Connection) (path : Path) : Json :=
  match Uri.ofPath path with
  | .ok uri => .optional ((c.documents.version? uri).map .int)
  | .error _ => .null

/-- No linter applies. -/
def noLinters : Linters Stage := fun _ _ =>
  ⟨false, fun _ _ => return .ok [], fun _ s _ => return .ok s⟩

def diagnose (i : Nat) (step : Json) (token : Token) : Play (Except Failure FileReport) := do
  let name := (← Work.connection i).name
  let floors := match natural? step "floor" with
    | some floor => [(name, floor)]
    | none => []
  Diagnostics.collect noLinters (pathOf step) [.protocol name i] (natural step "timeout_ms") floors
    token

def perform (i k : Nat) (action : String) (step : Json) (token : Token) : Play Json := do
  let path := pathOf step
  match action with
  | "initialize" =>
    return outcome nothing
      (← Connection.shakeHands i (step.get? "options") (step.get? "settings") token)
  | "request" =>
    return outcome id (← Connection.request i (text step "method") (step.get? "params") token
      (natural? step "timeout_ms"))
  | "notify" =>
    return outcome nothing (← Connection.notify i (text step "method") (step.get? "params"))
  | "ensure_open" => return outcome syncJson (← Document.ensureOpen i path token)
  | "notify_saved" => return outcome syncJson (← Document.notifySaved i path token)
  | "refresh" => return outcome syncJson (← Document.refresh i path token)
  | "sync_content" =>
    return outcome syncJson (← Document.syncContent i path (text step "content") token)
  | "open_version" => return versionJson (← Work.connection i) path
  | "cached" =>
    let c ← Work.connection i
    match uriOf step with
    | .ok uri => return cachedJson c uri
    | .error _ => return .null
  | "wait_fresh" =>
    match uriOf step with
    | .error e => return failureJson e
    | .ok uri =>
      return outcome diagnosticsJson
        (← Diagnostics.waitForFresh i uri (natural step "timeout_ms") (natural? step "floor") token)
  | "diagnose" => return outcome fileReportJson (← diagnose i step token)
  | "shutdown" =>
    Connection.shutdown i
    return done
  | "state" => return stateJson (← Work.connection i)
  | action => if isPeerAction action then peerStep k action step else return .null

def optionsOf (v : Json) : ConnectionOptions where
  name := textOr v "name" "fake"
  cwd := ⟨textOr v "cwd" rootText⟩
  languageId := textOr v "language_id" "plaintext"
  fileTypes := texts v "file_types"
  requestTimeout := (natural? v "request_timeout_ms").getD 5000
  settings := v.get? "settings"

def play (v : Json) : Play (List Json) := do
  let k ← Peer.start (textOr v "name" "fake") (v.member "peer")
  let p ← Program.look fun w => Peer.peer w k
  let i ← Connection.start (optionsOf v) p.output p.input none
  takeSteps ⟨v.member "files", perform i k, true⟩ (items v "steps")

end ConnectionPlay

/-- The answer of a whole scenario that begins with a world. -/
def answersFrom (start : World Stage) (play : Play (List Json)) : Json :=
  .object [("steps", .arr (((Pool.run play start).1).getD []))]

/-- The world of a scenario without processes. -/
def worldOf (v : Json) : World Stage :=
  World.ofFiles (startTree (v.member "files")) Stage.empty

def playConnection (v : Json) : Json := answersFrom (worldOf v) (ConnectionPlay.play v)

end LspClient.Scenario
