import LspClient.Failure
import LspClient.Registry.Key
import LspClient.Table

/-!
# The registry

One connection for each key. A slot is filled by a creation, which has a generation of its own:
its outcome goes to everybody who waits for that generation, and it changes the slot only while
the slot is still of that generation.
-/

namespace LspClient

inductive Slot where
  | starting (generation : Nat) (name : String) (fileTypes : List String)
  | ready (generation : Nat) (name : String) (connection : Nat)
  deriving Repr, Inhabited

namespace Slot

def generation : Slot → Nat
  | .starting g .. => g
  | .ready g .. => g

def name : Slot → String
  | .starting _ name _ => name
  | .ready _ name _ => name

def connection? : Slot → Option Nat
  | .starting .. => none
  | .ready _ _ c => some c

end Slot

structure Registry where
  slots : List (ConnectionKey × Slot)
  /-- How each creation ended, by its generation. -/
  outcomes : Table Nat (Except Failure Nat)
  nextGeneration : Nat
  isShutDown : Bool
  /-- When idle connections are looked for next. -/
  nextReap : Nat
  deriving Inhabited

namespace Registry

def empty : Registry := ⟨[], [], 1, false, 0⟩

def slot? (r : Registry) (key : ConnectionKey) : Option Slot :=
  (r.slots.find? fun s => decide (s.1.Same key)).map (·.2)

def remove (r : Registry) (key : ConnectionKey) : Registry :=
  { r with slots := r.slots.filter fun s => !decide (s.1.Same key) }

/-- The registry with a slot under `key`, in the place of the one that is there. -/
def fill (r : Registry) (key : ConnectionKey) (slot : Slot) : Registry :=
  if (r.slot? key).isSome then
    { r with slots := r.slots.map fun s => if s.1.Same key then (s.1, slot) else s }
  else { r with slots := r.slots ++ [(key, slot)] }

/-- Whether the slot of `key` is of a generation. -/
def isCurrent (r : Registry) (key : ConnectionKey) (generation : Nat) : Bool :=
  (r.slot? key).any fun s => s.generation == generation

/-! ### Getting a connection -/

/-- What a caller finds. -/
inductive Found where
  | alive (connection : Nat)
  /-- A creation is under way. -/
  | starting (generation : Nat)
  /-- The caller is to create a connection of this generation. -/
  | vacant (generation : Nat)
  deriving DecidableEq, Repr

/-- Look a key up, and start a creation if nothing there is of use. -/
def claim (r : Registry) (key : ConnectionKey) (isAlive : Nat → Bool) (name : String)
    (fileTypes : List String) : Found × Registry :=
  let create : Found × Registry :=
    (.vacant r.nextGeneration,
      { r.fill key (.starting r.nextGeneration name fileTypes) with
        nextGeneration := r.nextGeneration + 1 })
  match r.slot? key with
  | some (.ready _ _ c) => if isAlive c then (.alive c, r) else create
  | some (.starting g ..) => (.starting g, r)
  | none => create

/-- Tell those who wait for a creation how it ended. -/
def announce (r : Registry) (generation : Nat) (outcome : Except Failure Nat) : Registry :=
  { r with outcomes := r.outcomes.put generation outcome }

/-- What becomes of the slot when its creation ends. The answer says whether the connection is
kept. -/
def settle (r : Registry) (key : ConnectionKey) (generation : Nat) (name : String)
    (created : Except Failure Nat) : Bool × Registry :=
  match created with
  | .ok c =>
    if r.isCurrent key generation && !r.isShutDown then
      (true, r.fill key (.ready generation name c))
    else (false, r)
  | .error _ => (false, if r.isCurrent key generation then r.remove key else r)

/-! ### Taking connections out -/

/-- Take out the slots that satisfy `p`; those that are ready give their connections. -/
def takeOut (r : Registry) (p : Slot → Bool) : List Nat × Registry :=
  ((r.slots.filter fun s => p s.2).filterMap fun s => s.2.connection?,
    { r with slots := r.slots.filter fun s => !p s.2 })

/-- Take out the slot of a connection that has ended, if it is still of this generation. -/
def takeEnded (r : Registry) (key : ConnectionKey) (generation : Nat) :
    Option Nat × Registry :=
  match r.slot? key with
  | some (.ready g _ c) => if g = generation then (some c, r.remove key) else (none, r)
  | _ => (none, r)

def shutDown (r : Registry) : Registry := { r with isShutDown := true }

end Registry

end LspClient
