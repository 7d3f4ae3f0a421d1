import LspClient.Connection.Basic
import LspClient.FileTree.Basic
import LspClient.Process.Basic
import LspClient.Program.Pool
import LspClient.Registry.Basic
import LspClient.Write.Batch

/-!
# The world of a client

Everything that programs share: the clock, the files, the environment, the pipes, the child
processes, the connections, the registry, and the batches of writes. `outside` is what is at the
other ends of the pipes, which is none of the client's business.

A cancellation token is the list of the numbers that cancel it, its own and those of the tokens it
was made from. Numbers for tokens and jobs come from one supply. A job is a piece of work that ends
some time after it was begun.
-/

namespace LspClient

/-- The numbers that cancel a token. -/
abbrev Token := List Nat

/-- The token that nothing cancels. -/
def Token.never : Token := []

structure World (ε : Type) where
  /-- Milliseconds since the beginning. -/
  clock : Nat
  /-- Milliseconds by which idleness is measured. -/
  uptime : Nat
  files : FileTree
  environment : List (String × String)
  pipes : List Pipe
  children : List Child
  connections : List Connection
  registry : Registry
  batches : Batches
  cancelled : List Nat
  /-- Jobs under way, oldest first. -/
  jobs : List Nat
  finished : List Nat
  nextNumber : Nat
  outside : ε

namespace World

variable {ε α : Type}

def ofFiles (files : FileTree) (outside : ε) : World ε where
  clock := 0
  uptime := 0
  files := files
  environment := []
  pipes := []
  children := []
  connections := []
  registry := Registry.empty
  batches := []
  cancelled := []
  jobs := []
  finished := []
  nextNumber := 0
  outside := outside

instance : Timed (World ε) where
  now := World.clock
  moveTo t w := { w with clock := t }
  finishOldest? w :=
    match w.jobs with
    | [] => none
    | job :: jobs => some { w with jobs, finished := job :: w.finished }

/-! ### Tokens and jobs -/

def isCancelled (w : World ε) (token : Token) : Bool :=
  token.any fun n => w.cancelled.contains n

def cancel (n : Nat) (w : World ε) : World ε := { w with cancelled := n :: w.cancelled }

def freshNumber (w : World ε) : Nat × World ε :=
  (w.nextNumber, { w with nextNumber := w.nextNumber + 1 })

def finish (job : Nat) (w : World ε) : World ε := { w with finished := job :: w.finished }

def isFinished (w : World ε) (job : Nat) : Bool := w.finished.contains job

def beginJob (w : World ε) : Nat × World ε :=
  let (n, w) := w.freshNumber
  (n, { w with jobs := w.jobs ++ [n] })

/-! ### Connections and pipes -/

def connection (w : World ε) (i : Nat) : Connection := (w.connections[i]?).getD default

def setConnection (w : World ε) (i : Nat) (c : Connection) : World ε :=
  { w with connections := w.connections.set i c }

def onConnection (i : Nat) (f : Connection → Connection) (w : World ε) : World ε :=
  w.setConnection i (f (w.connection i))

def onCalls (i : Nat) (f : Calls → Calls) : World ε → World ε :=
  onConnection i fun c => { c with calls := f c.calls }

def onOutbox (i : Nat) (f : Outbox → Outbox) : World ε → World ε :=
  onConnection i fun c => { c with outbox := f c.outbox }

def pipe (w : World ε) (i : Nat) : Pipe := (w.pipes[i]?).getD default

def onPipe (i : Nat) (f : Pipe → Pipe) (w : World ε) : World ε :=
  { w with pipes := w.pipes.set i (f (w.pipe i)) }

def newPipe (w : World ε) : Nat × World ε :=
  (w.pipes.length, { w with pipes := w.pipes ++ [Pipe.empty] })

/-! ### Children -/

def child (w : World ε) (n : Nat) : Child := (w.children[n]?).getD default

def onChild (n : Nat) (f : Child → Child) (w : World ε) : World ε :=
  { w with children := w.children.set n (f (w.child n)) }

def newChild (w : World ε) : Nat × World ε :=
  (w.children.length, { w with children := w.children ++ [Child.running] })

end World

/-- A program of the client. -/
abbrev Work (ε α : Type) := Program (World ε) α

namespace Work

variable {ε α : Type}

def now : Work ε Nat := Program.look World.clock

def sleepUntil (t : Nat) : Work ε Unit :=
  Program.waitUntil t fun w => if t ≤ w.clock then some ((), w) else none

def sleep (ms : Nat) : Work ε Unit := do sleepUntil ((← now) + ms)

def isCancelled (token : Token) : Work ε Bool := Program.look fun w => w.isCancelled token

/-- A token that is cancelled with `parent`, and the number that cancels it alone. -/
def childToken (parent : Token) : Work ε (Nat × Token) :=
  Program.act fun w =>
    let (n, w) := w.freshNumber
    ((n, n :: parent), w)

/-- Do something that takes its time, in the background. -/
def inBackground (step : World ε → α × World ε) : Work ε α := do
  let job ← Program.act World.beginJob
  Program.wait fun w => if w.isFinished job then some (step w) else none

/-- A step on one connection. -/
def onConnection (i : Nat) (f : Connection → α × Connection) : Work ε α :=
  Program.act fun w =>
    let (a, c) := f (w.connection i)
    (a, w.setConnection i c)

def connection (i : Nat) : Work ε Connection := Program.look fun w => w.connection i

end Work

end LspClient
