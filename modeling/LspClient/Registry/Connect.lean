import LspClient.Connection.Lifecycle
import LspClient.Registry.Status

/-!
# Sharing connections

Callers get the connection of a key, and the first of them creates it. A creation goes on by itself
and tells everybody who waits for it how it ended; a caller may stop waiting earlier. A connection
whose slot is gone when its creation ends is shut down. One that ends by itself is taken out of
the registry.
-/

namespace LspClient

/-- Creates a connection to a server that runs in a directory, and shakes hands. -/
abbrev Connector (ε : Type) := String → ServerConfig → Path → Work ε (Except Failure Nat)

namespace Registry

variable {ε α : Type}

/-- A step on the registry. -/
def step (f : Registry → α × Registry) (w : World ε) : α × World ε :=
  let (a, registry) := f w.registry
  (a, { w with registry })

/-! ### Creation -/

/-- Take a connection out of the registry once it is closed. -/
def watch (key : ConnectionKey) (generation i : Nat) : Work ε Unit := do
  Connection.untilClosed i
  match ← Program.locked (step fun r => r.takeEnded key generation) with
  | some i => Connection.shutdown i
  | none => return ()

/-- What those who wait for a creation are told. -/
def tellWaiting (generation : Nat) (outcome : Except Failure Nat) : Work ε Unit :=
  Program.update fun w => { w with registry := w.registry.announce generation outcome }

/-- Create a connection for the slot of a generation. -/
def create (connect : Connector ε) (key : ConnectionKey) (generation : Nat) (name : String)
    (config : ServerConfig) : Work ε Unit := do
  let created ← connect name config key.cwd
  let kept ← Program.locked (step fun r => r.settle key generation name created)
  match created with
  | .error e => tellWaiting generation (.error e)
  | .ok i =>
    if kept then
      Program.fork (watch key generation i)
      tellWaiting generation (.ok i)
    else
      Connection.shutdown i
      tellWaiting generation (.error (.connectionClosed name none))

/-! ### Callers -/

/-- Look a key up; a connection that is found is used again from now on. -/
def claimNow (key : ConnectionKey) (name : String) (config : ServerConfig) (w : World ε) :
    Found × World ε :=
  let (found, registry) :=
    w.registry.claim key (fun i => (w.connection i).isAlive) name config.fileExtensions
  let w := { w with registry }
  match found with
  | .alive i => (found, w.onConnection i (Connection.touch w.uptime))
  | _ => (found, w)

/-- Wait for a creation to end. -/
def outcomeOf (generation : Nat) (limit : Limit) : Work ε (Except Failure Nat) := do
  match ← Work.within limit fun w =>
      (w.registry.outcomes.get? generation).map fun outcome => (outcome, w) with
  | .ok outcome => return outcome
  | .error e => return .error e

/-- The connection for a command line and a directory. With `warmup` the wait for it is bounded;
a creation that takes longer goes on. -/
def getOrCreate (connect : Connector ε) (name : String) (config : ServerConfig) (cwd : Path)
    (warmup : Option Nat) (token : Token) : Work ε (Except Failure Nat) := do
  if ← Program.look fun w => w.registry.isShutDown then
    return .error (.connectionClosed name none)
  let key := ConnectionKey.make config cwd
  let started ← Work.now
  let limit : Limit :=
    ⟨token, warmup.map fun t => (started + t, .timeout Method.handshake (t * 1000))⟩
  match ← Program.locked (claimNow key name config) with
  | .alive i => return .ok i
  | .starting generation => outcomeOf generation limit
  | .vacant generation =>
    Program.fork (create connect key generation name config)
    outcomeOf generation limit

/-! ### Taking connections down -/

def shutdownAllOf (connections : List Nat) : Work ε Nat := do
  let _ ← Program.all (connections.map Connection.shutdown)
  return connections.length

/-- Whether a slot holds a connection that was idle for longer than `limit`. The clock counts whole
milliseconds and stands for a moment shortly after the one it shows, so a connection that was idle
for `limit` of them was so for longer. -/
def isIdle (w : World ε) (limit : Nat) (s : Slot) : Bool :=
  s.connection?.any fun i => limit ≤ w.uptime - (w.connection i).lastActivity

/-- Shut down the connections that were idle for so long. -/
def reapIdle (limit : Nat) : Work ε Nat := do
  shutdownAllOf (← Program.locked fun w => step (fun r => r.takeOut (isIdle w limit)) w)

/-- Shut down the connections of one server. -/
def shutdownNamed (name : String) : Work ε Nat := do
  shutdownAllOf (← Program.locked (step fun r => r.takeOut fun s => s.name == name))

/-- Shut everything down, and create nothing from now on. -/
def shutdownAll : Work ε Nat := do
  Program.update fun w => { w with registry := w.registry.shutDown }
  shutdownAllOf (← Program.locked (step fun r => r.takeOut fun _ => true))

/-- How late a round may be without putting off the next. -/
def reapTolerance : Nat := 5

/-- Fix the time of the next round of the reaper, when one was due at `due`. -/
def planReap (interval due : Nat) (w : World ε) : World ε :=
  let next := if due + reapTolerance < w.clock then w.clock + interval else due + interval
  { w with registry := { w.registry with nextReap := next } }

/-- One round of shutting down idle connections, unless the registry shuts down before. -/
def reaper (idle interval : Nat) : Work ε Bool := do
  let due ← Program.look fun w => w.registry.nextReap
  let ended ← Program.waitUntil due fun w =>
    if w.registry.isShutDown then some (true, w)
    else if due ≤ w.clock then some (false, w) else none
  if ended then return false
  else
    Program.update (planReap interval due)
    let _ ← reapIdle idle
    return true

/-- Shut idle connections down at intervals, beginning after the first. -/
def startReaper (idle interval : Nat) : Work ε Unit := do
  Program.update fun w => planReap interval w.clock w
  Program.start (reaper idle interval)

/-! ### Looking -/

def statusOf (w : World ε) (key : ConnectionKey) : Slot → ConnectionStatus
  | .starting _ name fileTypes => ⟨name, .starting, fileTypes, 0, key.cwd.text⟩
  | .ready _ _ i =>
    let c := w.connection i
    ⟨c.name, if c.isAlive then .ready else .closed, c.fileTypes, c.documents.length, key.cwd.text⟩

def status (w : World ε) : List ConnectionStatus :=
  (w.registry.slots.map fun (key, slot) => statusOf w key slot).mergeSort ConnectionStatus.before

end Registry

end LspClient
