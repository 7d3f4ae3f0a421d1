import LspClient.Program.Basic

/-!
# Pools

A `Pool` runs a main program and the services it starts over one state. Everything that can go on
at some state stands in a queue in the order in which it came to be able to; each turn takes its
program as far as it goes, but not beyond `turnCredit` steps whose deadlines have come: what is left
then has to wait for its next turn. The main program has a turn before every round of `roundLength`
others.

When nothing can go on, a piece of work in the background ends, oldest first; failing that, the
clock moves to the next deadline. Where no deadline is left the run is over, too.
-/

namespace LspClient

/-- What a pool needs of its state: a clock, and work in the background that it can finish. -/
class Timed (σ : Type) where
  now : σ → Nat
  moveTo : Nat → σ → σ
  finishOldest? : σ → Option σ

/-- A service between two turns: how it begins, and how it goes on. -/
structure Service (σ : Type) where
  id : Nat
  body : Program σ Bool
  rest : Program σ Bool

structure Pool (σ : Type) where
  state : σ
  /-- The services that are not having their turn, in the order of their last turns. -/
  services : List (Service σ)
  /-- Those that can go on, in the order of their turns to come. -/
  queue : List Nat
  nextId : Nat
  /-- How many steps whose deadlines have come can still be taken in this turn. -/
  credit : Nat

namespace Pool

variable {σ α : Type}

/-- How many steps whose deadlines have come are taken in one turn. -/
def turnCredit : Nat := 128

def ofState (s : σ) : Pool σ := ⟨s, [], [], 0, turnCredit⟩

def beginTurn (w : Pool σ) : Pool σ := { w with credit := turnCredit }

/-- Queue the services that can go on and do not stand in the queue yet. -/
def wake (w : Pool σ) : Pool σ :=
  let woken := w.services.filter fun t => !w.queue.contains t.id && t.rest.canMove w.state
  { w with queue := w.queue ++ woken.map (·.id) }

def add (w : Pool σ) (body : Program σ Bool) : Pool σ :=
  { w with
    services := w.services ++ [⟨w.nextId, body, body⟩]
    queue := w.queue ++ [w.nextId]
    nextId := w.nextId + 1 }

variable [Timed σ]

/-- What a step with a deadline takes of the credit. -/
def price (w : Pool σ) (deadline : Option Nat) : Nat :=
  if deadline.any (· ≤ Timed.now w.state) then 1 else 0

/-- Take a program as far as it goes. -/
def poll : {α : Type} → Program σ α → Pool σ → Program σ α × Pool σ
  | _, .done a, w => (.done a, w)
  | _, .await deadline step next, w =>
    match step w.state with
    | none => (.await deadline step next, w)
    | some (b, s) =>
      if w.price deadline ≤ w.credit then
        poll (next b) { w with state := s, credit := w.credit - w.price deadline }.wake
      else (.await deadline step next, w)
  | _, .spawn service next, w => poll next (w.add service)
  | _, .both p q next, w =>
    let (p, w) := poll p w
    let (q, w) := poll q w
    match p, q with
    | .done b, .done c => poll (next b c) w
    | p, q => (.both p q next, w)

/-- How often a service is begun anew within one turn. -/
def turnLength : Nat := 100000

/-- Put a service back after its turn. -/
def rest (w : Pool σ) (t : Service σ) : Pool σ :=
  { w with services := w.services ++ [t] }.wake

/-- The turn of one service. -/
def turn (t : Service σ) : Nat → Pool σ → Pool σ
  | 0, w => w.rest t
  | n + 1, w =>
    let (p, w) := poll t.rest w
    match p with
    | .done true => turn { t with rest := t.body } n w
    | .done false => w
    | p => w.rest { t with rest := p }

/-- The turn of the first in the queue. -/
def turnFirst (w : Pool σ) : Pool σ :=
  match w.queue with
  | [] => w
  | id :: queue =>
    match w.services.find? fun t => t.id == id with
    | none => { w with queue }
    | some t =>
      turn t turnLength
        { w with queue, services := w.services.filter fun t => t.id != id }.beginTurn

def roundLength : Nat := 61

/-- Up to `n` turns, as long as there is a queue. -/
def turns : Nat → Pool σ → Pool σ
  | 0, w => w
  | n + 1, w => if w.queue.isEmpty then w else turns n w.turnFirst

/-- The first deadline to come, of the main program or of a service. -/
def nextDeadline (w : Pool σ) (main : Program σ α) : Option Nat :=
  let now := Timed.now w.state
  (w.services.map fun t => t.rest.nextDeadline now).foldl
    (fun
      | some a, some b => some (min a b)
      | some a, none => some a
      | none, b => b)
    (main.nextDeadline now)

/-- What happens by itself when nobody can go on. -/
def idle (w : Pool σ) (main : Program σ α) : Option (Pool σ) :=
  match Timed.finishOldest? w.state with
  | some s => some { w with state := s }.wake
  | none => (w.nextDeadline main).map fun t => { w with state := Timed.moveTo t w.state }.wake

/-- Run rounds until the main program is done; its result, if it came to one. -/
def rounds : Nat → Program σ α → Pool σ → Option α × Pool σ
  | 0, _, w => (none, w)
  | n + 1, main, w =>
    let (main, w) := poll main w.beginTurn
    match main with
    | .done a => (some a, w)
    | main =>
      let w := turns roundLength w
      if !w.queue.isEmpty || main.canMove w.state then rounds n main w
      else
        match w.idle main with
        | some w => rounds n main w
        | none => (none, w)

/-- The longest run, in rounds. -/
def maxRounds : Nat := 10000000

def run (main : Program σ α) (s : σ) : Option α × σ :=
  let (result, w) := rounds maxRounds main (ofState s)
  (result, w.state)

end Pool

end LspClient
