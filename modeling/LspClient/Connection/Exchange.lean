import LspClient.Message.Basic
import LspClient.Message.Params
import LspClient.World

/-!
# Requests and notifications

How a connection talks to its server. A frame stands in line for the outbox and is reported on when
it is written. A request moreover waits for its response; it ends with the response, with its
cancellation, at its time limit, or with the connection, and of what happens at the same time a
cancellation comes first and the time limit last. A request that is given up while the server may
still be working on it is cancelled there, without waiting for that to be written.
-/

namespace LspClient

/-- What may cut a wait short: a token, and a time with the failure it stands for. -/
structure Limit where
  token : Token
  expiry : Option (Nat × Failure)

namespace Limit

/-- Nothing cuts the wait short. -/
def never : Limit := ⟨Token.never, none⟩

def ofToken (token : Token) : Limit := ⟨token, none⟩

/-- The failure that ends a wait at a time, if it has come. -/
def expired? (l : Limit) (clock : Nat) : Option Failure :=
  l.expiry.bind fun (t, e) => if t ≤ clock then some e else none

end Limit

namespace Work

variable {ε α : Type}

/-- Wait for a step, but not beyond a limit. -/
def within (limit : Limit) (step : World ε → Option (α × World ε)) :
    Work ε (Except Failure α) :=
  .await (limit.expiry.map (·.1)) (fun w =>
    if w.isCancelled limit.token then some (.error .cancelled, w)
    else
      match step w with
      | some (a, w) => some (.ok a, w)
      | none => (limit.expired? w.clock).map fun e => (.error e, w)) .done

/-- Sleep until a time, but not beyond a limit. -/
def sleepWithin (limit : Limit) (due : Nat) : Work ε (Except Failure Unit) :=
  .await (some (min due ((limit.expiry.map (·.1)).getD due))) (fun w =>
    if w.isCancelled limit.token then some (.error .cancelled, w)
    else if due ≤ w.clock then some (.ok (), w)
    else (limit.expired? w.clock).map fun e => (.error e, w)) .done

end Work

namespace Connection

/-- Whether a request may be made. -/
def usable (c : Connection) : Except Failure Unit :=
  if c.isAlive then .ok () else .error c.calls.closedError

def join (c : Connection) : Nat × Connection :=
  let (ticket, outbox) := c.outbox.join
  (ticket, { c with outbox })

/-- Queue the command of one who stands in line, or fail where the outbox is closed. -/
def takeIn (c : Connection) (ticket : Nat) (command : Command) :
    Option (Except Failure Unit × Connection) :=
  if c.outbox.closed then
    some (.error c.calls.closedError, { c with outbox := c.outbox.leave ticket })
  else (c.outbox.takeIn ticket command).map fun outbox => (.ok (), { c with outbox })

def outcomeOf (c : Connection) : Delivery → Except Failure Unit
  | .written => .ok ()
  | .failed message => .error (.transport c.name message)
  | .dropped => .error c.calls.closedError

def delivered (c : Connection) (ticket : Nat) : Option (Except Failure Unit × Connection) :=
  (c.outbox.collect ticket).map fun (d, outbox) => (c.outcomeOf d, { c with outbox })

def leave (ticket : Nat) (c : Connection) : Connection :=
  { c with outbox := c.outbox.leave ticket }

def numberCall (now : Nat) (c : Connection) : Nat × Connection :=
  let (id, calls) := c.calls.number
  (id, { c.touch now with calls })

def register (id : Nat) (method : String) (c : Connection) : Except Failure Unit × Connection :=
  match c.calls.register id method with
  | .ok calls => (.ok (), { c with calls })
  | .error e => (.error e, c)

def collect (id : Nat) (c : Connection) : Option (Except Failure Json × Connection) :=
  (c.calls.collect id).map fun (outcome, calls) => (outcome, { c with calls })

def abandon (id : Nat) (c : Connection) : Bool × Connection :=
  let (wasPending, calls) := c.calls.abandon id
  (wasPending, { c with calls })

/-- Queue the cancellation of a call, if there is room. -/
def offerCancel (id : Nat) (c : Connection) : Connection :=
  let frame := Message.ofNotification Method.cancelRequest (some (Params.cancel id))
  { c with outbox := c.outbox.offer (.send frame none) }

/-! ### Programs -/

variable {ε : Type}

/-- A step on a connection that may have to wait. -/
def stepOn {α : Type} (i : Nat) (step : Connection → Option (α × Connection)) (w : World ε) :
    Option (α × World ε) :=
  (step (w.connection i)).map fun (a, c) => (a, w.setConnection i c)

/-- Queue a command, as far as that is possible within a limit. -/
def enqueue (i : Nat) (ticket : Nat) (command : Command) (limit : Limit) :
    Work ε (Except Failure Unit) := do
  match ← Work.within limit (stepOn i fun c => c.takeIn ticket command) with
  | .ok outcome => return outcome
  | .error e =>
    Program.update (World.onConnection i (leave ticket))
    return .error e

/-- Write a frame, and wait for the report. -/
def send (i : Nat) (frame : Json) (limit : Limit) : Work ε (Except Failure Unit) := do
  let ticket ← Work.onConnection i join
  match ← enqueue i ticket (.send frame (some ticket)) limit with
  | .error e => return .error e
  | .ok () =>
    match ← Work.within limit (stepOn i fun c => c.delivered ticket) with
    | .ok outcome => return outcome
    | .error e =>
      Program.update (World.onConnection i (leave ticket))
      return .error e

/-- Write a request, and wait for the response. -/
def exchange (i id : Nat) (frame : Json) (limit : Limit) : Work ε (Except Failure Json) := do
  match ← send i frame limit with
  | .error e => return .error e
  | .ok () =>
    match ← Work.within limit (stepOn i (collect id)) with
    | .ok outcome => return outcome
    | .error e => return .error e

/-- Give a call up, and cancel it on the server if that may help. -/
def giveUp (i id : Nat) (e : Failure) : Work ε Unit := do
  let wasPending ← Work.onConnection i (abandon id)
  if wasPending && (e.isCancelled || e.isTimeout) then
    Program.update (World.onConnection i (offerCancel id))

/-- Make a request, even on a connection that is shutting down. -/
def call (i : Nat) (method : String) (params : Option Json) (token : Token)
    (timeout : Option Nat) : Work ε (Except Failure Json) := do
  if ← Work.isCancelled token then
    return .error .cancelled
  let uptime ← Program.look World.uptime
  let id ← Work.onConnection i (numberCall uptime)
  match ← Work.onConnection i (register id method) with
  | .error e => return .error e
  | .ok () =>
    let started ← Work.now
    let timeout := timeout.getD (← Work.connection i).requestTimeout
    let limit : Limit := ⟨token, some (started + timeout, .timeout method (timeout * 1000))⟩
    match ← exchange i id (Message.ofRequest id method params) limit with
    | .ok result => return .ok result
    | .error e =>
      giveUp i id e
      return .error e

def request (i : Nat) (method : String) (params : Option Json) (token : Token)
    (timeout : Option Nat) : Work ε (Except Failure Json) := do
  match (← Work.connection i).usable with
  | .error e => return .error e
  | .ok () => call i method params token timeout

/-- Send a notification, even on a connection that is shutting down. -/
def tell (i : Nat) (method : String) (params : Option Json) : Work ε (Except Failure Unit) := do
  Program.update fun w => w.onConnection i (touch w.uptime)
  send i (Message.ofNotification method params) Limit.never

def notify (i : Nat) (method : String) (params : Option Json) : Work ε (Except Failure Unit) := do
  match (← Work.connection i).usable with
  | .error e => return .error e
  | .ok () => tell i method params

end Connection

end LspClient
