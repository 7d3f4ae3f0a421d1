import LspClient.Scenario.ConnectionPlay
import LspClient.Session.Processes
import LspClient.Shell.Interpreter
import LspClient.Write.Pipeline

/-!
# Scenarios of a session

A session whose servers are scripted peers and whose linters are scripted, or one that starts
processes, and the steps that use it.
-/

namespace LspClient.Scenario

namespace SessionPlay

/-! ### Scripted servers -/

def connectFailure (script : Json) : Option Failure :=
  (script.get? "connect_error").bind failureOf

/-- The time a request may take, where the script does not say. -/
def defaultRequestTimeout : Nat := 5000

/-- Connect to the peer that stands for a server. -/
def connect (peers : Json) : Connector Stage := fun name config cwd => do
  let script := peers.member name
  match natural? script "connect_delay_ms" with
  | some ms => Work.sleep ms
  | none => pure ()
  match connectFailure script with
  | some e => return .error e
  | none =>
    let k ← Peer.start name script
    let p ← Program.look fun w => Peer.peer w k
    let timeout := (natural? script "request_timeout_ms").getD defaultRequestTimeout
    let i ← Connection.start (ConnectionOptions.ofServer name config cwd timeout) p.output p.input
      none
    Connection.establish i config

/-! ### Scripted linters -/

/-- The rule for a file. -/
def linterRule (script : Json) (action : String) (path : Path) : Json :=
  ((items script action).find? fun rule =>
    match (rule.member "file").str? with
    | some file => file.toList.reverse.isPrefixOf path.text.toList.reverse
    | none => true).getD .null

/-- How a rule fails, if it does. -/
def ruleFailure (name : String) (rule : Json) : Option Failure :=
  match (rule.member "fail").str? with
  | some message => some (.linter name message)
  | none => if flag rule "cancel" then some .cancelled else none

/-- Let the time of a rule pass. -/
def ruleDelay (rule : Json) (limit : Limit) : Play (Except Failure Unit) := do
  match natural? rule "delay_ms" with
  | none => return .ok ()
  | some ms => Work.sleepWithin limit ((← Work.now) + ms)

/-- What a rule makes of the content of a file. -/
def ruleText (rule : Json) (path : Path) (content : String) (w : World Stage) : String :=
  match text rule "how" with
  | "upper" => content.map Char.toUpper
  | "disk" => content ++ (w.files.readText path).toOption.getD ""
  | "text" => text rule "text"
  | _ => content

def linter (name : String) (script : Json) : Linter Stage where
  canFormat := flagOr script "can_format" true
  lint path limit := do
    let rule := linterRule script "lint" path
    match ← ruleDelay rule limit with
    | .error e => return .error e
    | .ok () =>
      match ruleFailure name rule with
      | some e => return .error e
      | none => return .ok ((items rule "items").map diagnosticOf)
  format path content _ := do
    let rule := linterRule script "format" path
    let _ ← ruleDelay rule Limit.never
    match ruleFailure name rule with
    | some e => return .error e
    | none => return .ok (← Program.look (ruleText rule path content))

def linters (adapters : Json) : Linters Stage := fun name kind =>
  match kind with
  | .registered adapter => linter adapter (adapters.member adapter)
  | kind => CommandLinter.all Shell.machine name kind

/-! ### Steps -/

def writeOptionsOf (settings : Settings) (step : Json) : WriteOptions :=
  ⟨flagOr step "format" settings.formatOnWrite,
    flagOr step "diagnostics" settings.diagnosticsOnWrite⟩

def batchOf (step : Json) : Option Session.BatchSpec :=
  (step.member "batch").str?.map fun id => ⟨id, flag step "flush"⟩

def writeOutcomeJson : Session.WriteOutcome → Json
  | .written r => .object [("written", writeReportJson r)]
  | .deferred batch queued => .object [("deferred", .str batch), ("queued", .nat queued)]
  | .flushed r => .object [("flushed", batchReportJson r)]

def reachedJson (r : Session.Reached) : Json :=
  .object [
    ("targets", .arr (r.targets.map fun t =>
      .arr [.str t.name, .bool t.connection?.isSome])),
    ("failures", failuresJson r.failures)]

/-- The number by which answers call a connection. -/
def numberOf (i : Nat) (w : World Stage) : Nat × World Stage :=
  let known := w.outside.handedOut
  if known.contains i then (known.idxOf i, w)
  else (known.length, { w with outside := { w.outside with handedOut := known ++ [i] } })

def configOf (s : Session Stage) (step : Json) : Option ServerConfig :=
  match (ServerConfig.decode (step.member "config")).toOption, step.get? "config" with
  | some config, some _ => some config
  | _, _ => s.settings.server? (text step "server")

def getOrCreate (s : Session Stage) (step : Json) (token : Token) : Play Json := do
  match configOf s step with
  | none => return .str "no config"
  | some config =>
    let cwd : Path := ⟨textOr step "cwd" s.root.text⟩
    match ← Registry.getOrCreate s.connect (text step "server") config cwd
        (natural? step "warmup_ms") token with
    | .error e => return failureJson e
    | .ok i =>
      let number ← Program.act (numberOf i)
      let c ← Work.connection i
      return ok (.object [
        ("connection", .nat number), ("name", .str c.name), ("cwd", .str c.cwd.text),
        ("alive", .bool c.isAlive)])

def isOf (server : String) (p : Peer) : Bool := p.server == server

/-- The newest peer of a server. -/
def newestPeer (server : String) (w : World Stage) : Option Nat :=
  (w.outside.peers.zipIdx.reverse.find? fun (p, _) => isOf server p).map (·.2)

def onPeer (action : String) (step : Json) : Play Json := do
  match ← Program.look (newestPeer (text step "server")) with
  | some k => peerStep k action step
  | none => return .str "no peer"

def lengthJson (w : World Stage) : Json :=
  .arr [.nat w.registry.slots.length, .bool w.registry.slots.isEmpty]

def perform (s : Session Stage) (action : String) (step : Json) (token : Token) : Play Json := do
  let path : Path := ⟨text step "path"⟩
  match action with
  | "ensure_open" => return outcome .nat (← s.ensureOpen path token)
  | "notify_saved" => return outcome .nat (← s.notifySaved path token)
  | "refresh" => return outcome .nat (← s.refresh path token)
  | "sync_content" => return outcome .nat (← s.syncContent path (text step "content") token)
  | "diagnose_file" => return outcome fileReportJson (← s.diagnoseFile path token)
  | "diagnose_glob" =>
    return outcome globReportJson
      (← s.diagnoseGlob (text step "pattern") (natural? step "max") token)
  | "applicable" => return outcome reachedJson (← s.applicable path token)
  | "write" =>
    return outcome writeOutcomeJson
      (← s.write path (text step "content") (writeOptionsOf s.settings step) (batchOf step) token)
  | "format_file" => return outcome writeReportJson (← s.formatFile path token)
  | "status" =>
    return .strings ((← Program.locked fun w => (Registry.status w, w)).map ConnectionStatus.line)
  | "absolute" => return .str (s.absolute path).text
  | "shutdown_one" => return .nat (← Registry.shutdownNamed (text step "server"))
  | "shutdown_all" => return .nat (← Registry.shutdownAll)
  | "reap_idle" =>
    Program.update growIdle
    return .nat (← Registry.reapIdle (natural step "ms"))
  | "len" => Program.locked fun w => (lengthJson w, w)
  | "started" =>
    Program.look fun w => .nat (w.outside.peers.countP (isOf (text step "server")))
  | "get_or_create" => getOrCreate s step token
  | action => if isPeerAction action then onPeer action step else return .null

/-! ### Sessions -/

def rootOf (v : Json) : Path := ⟨textOr v "root" rootText⟩

def scriptedSession (v : Json) (settings : Settings) : Session Stage :=
  let root := rootOf v
  let adapters := v.member "adapters"
  { root
    settings
    resolver :=
      { root, servers := settings.servers
        adapters := (adapters.entries?.getD []).map (·.1) }
    connect := connect (v.member "peers")
    linters := linters adapters }

def play (v : Json) (s : Session Stage) : Play (List Json) := do
  s.begin
  takeSteps ⟨v.member "files", perform s, true⟩ (items v "steps")

/-- As `play`, with processes, which are all shut down in the end. -/
def playProcesses (v : Json) (s : Session Stage) : Play (List Json) := do
  s.begin
  let answers ← takeSteps ⟨v.member "files", perform s, false⟩ (items v "steps")
  let _ ← Registry.shutdownAll
  return answers

end SessionPlay

/-- The settings of a scenario, which are not checked further. -/
def sessionSettings (v : Json) : Except Json.DecodeError Settings :=
  match v.member "settings" with
  | .null => .ok Settings.default
  | settings => Settings.decode settings

def playSession (v : Json) : Json :=
  match sessionSettings v with
  | .error e => fault "Settings" e.message
  | .ok settings =>
    if flag v "process" then
      let world := Shell.worldOfFiles (startTree (v.member "files")) Stage.empty
      let session := Session.ofProcesses Shell.machine (SessionPlay.rootOf v) settings
      answersFrom world (SessionPlay.playProcesses v session)
    else answersFrom (worldOf v) (SessionPlay.play v (SessionPlay.scriptedSession v settings))

end LspClient.Scenario
