/-!
# Programs

A `Program σ α` is a computation over a shared state `σ` that ends with an `α`. It goes on in
atomic steps: `await` waits until its step is possible and takes it, `spawn` starts a service
beside it, and `both` runs two programs side by side. What happens between two steps is not the
program's to say; a step is a function of the state it finds.

The deadline of an `await` is the time at which the step becomes possible at the latest, as far as
that hangs on time. It lets the clock be moved on when nothing else happens. A step on something
that is locked for it has a deadline, too, which came long ago: it counts as one that was waited
for.

A service is a program that is begun anew as long as it ends with `true`.

A `Script` is a program some of whose parts are acts with names, so that it can be said what was
done. How the acts are performed is left to whoever runs the script.
-/

namespace LspClient

inductive Program (σ : Type) : Type → Type 1 where
  | done {α : Type} (a : α) : Program σ α
  | await {α β : Type} (deadline : Option Nat) (step : σ → Option (β × σ))
      (next : β → Program σ α) : Program σ α
  | spawn {α : Type} (service : Program σ Bool) (next : Program σ α) : Program σ α
  | both {α β γ : Type} (p : Program σ β) (q : Program σ γ) (next : β → γ → Program σ α) :
      Program σ α

namespace Program

variable {σ α β : Type}

protected def bind : Program σ α → (α → Program σ β) → Program σ β
  | .done a, k => k a
  | .await deadline step next, k => .await deadline step fun b => (next b).bind k
  | .spawn service next, k => .spawn service (next.bind k)
  | .both p q next, k => .both p q fun b c => (next b c).bind k

instance : Monad (Program σ) where
  pure := .done
  bind := Program.bind

/-! ### Steps -/

/-- Wait until `step` is possible. -/
def wait (step : σ → Option (α × σ)) : Program σ α := .await none step .done

/-- Wait until `step` is possible, which it is at `deadline` at the latest. -/
def waitUntil (deadline : Nat) (step : σ → Option (α × σ)) : Program σ α :=
  .await (some deadline) step .done

/-- A step that is always possible. -/
def act (step : σ → α × σ) : Program σ α := .await none (fun s => some (step s)) .done

/-- A step on something that is locked for it; nobody holds the lock from one step to the next. -/
def locked (step : σ → α × σ) : Program σ α := .await (some 0) (fun s => some (step s)) .done

def look (view : σ → α) : Program σ α := act fun s => (view s, s)

def update (f : σ → σ) : Program σ Unit := act fun s => ((), f s)

def start (service : Program σ Bool) : Program σ Unit := .spawn service (.done ())

/-- A service that runs a program once. -/
def once (p : Program σ Unit) : Program σ Bool := p.bind fun _ => .done false

def fork (p : Program σ Unit) : Program σ Unit := start (once p)

/-- Run two programs side by side. -/
def pair (p : Program σ α) (q : Program σ β) : Program σ (α × β) :=
  .both p q fun a b => .done (a, b)

/-- Run programs side by side, and give their results in order. -/
def all : List (Program σ α) → Program σ (List α)
  | [] => .done []
  | p :: rest => .both p (all rest) fun a as => .done (a :: as)

/-- Run a program, but take no step at a state where `stop` holds: the program is over then. -/
def abandonWhen (stop : σ → Bool) : {α : Type} → Program σ α → Program σ (Option α)
  | _, .done a => .done (some a)
  | _, .await deadline step next =>
    .await deadline
      (fun s => if stop s then some (none, s) else (step s).map fun (b, s) => (some b, s))
      fun
        | some b => (next b).abandonWhen stop
        | none => .done none
  | _, .spawn service next => .spawn service (next.abandonWhen stop)
  | _, .both p q next =>
    .both (p.abandonWhen stop) (q.abandonWhen stop) fun
      | some b, some c => (next b c).abandonWhen stop
      | _, _ => .done none

/-! ### Where a program stands -/

/-- Whether a step of the program is possible now. -/
def canMove (s : σ) : {α : Type} → Program σ α → Bool
  | _, .done _ => false
  | _, .await _ step _ => (step s).isSome
  | _, .spawn _ _ => true
  | _, .both (.done _) (.done _) _ => true
  | _, .both p q _ => p.canMove s || q.canMove s

/-- The first time after `now` at which a step becomes possible by itself. -/
def nextDeadline (now : Nat) : {α : Type} → Program σ α → Option Nat
  | _, .done _ => none
  | _, .await deadline _ _ => deadline.filter fun t => now < t
  | _, .spawn _ _ => none
  | _, .both p q _ =>
    match p.nextDeadline now, q.nextDeadline now with
    | some a, some b => some (min a b)
    | some a, none => some a
    | none, b => b

end Program

/-! ### Scripts -/

inductive Script (σ Act : Type) (Answer : Act → Type) (α : Type) : Type 1 where
  | done (a : α)
  | work {β : Type} (p : Program σ β) (next : β → Script σ Act Answer α)
  | act (o : Act) (next : Answer o → Script σ Act Answer α)

namespace Script

variable {σ Act α β : Type} {Answer : Act → Type}

protected def bind : Script σ Act Answer α → (α → Script σ Act Answer β) → Script σ Act Answer β
  | .done a, k => k a
  | .work p next, k => .work p fun b => (next b).bind k
  | .act o next, k => .act o fun b => (next b).bind k

instance : Monad (Script σ Act Answer) where
  pure := .done
  bind := Script.bind

def lift (p : Program σ α) : Script σ Act Answer α := .work p .done

def perform (o : Act) : Script σ Act Answer (Answer o) := .act o .done

def run (performed : (o : Act) → Program σ (Answer o)) : Script σ Act Answer α → Program σ α
  | .done a => .done a
  | .work p next => p.bind fun b => (next b).run performed
  | .act o next => (performed o).bind fun b => (next b).run performed

end Script

end LspClient
