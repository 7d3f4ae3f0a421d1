/-!
# Pipes and processes

A pipe takes bytes from its source to its sink and holds up to `capacity` of them. Either end can
be closed: a closed source leaves what is in the pipe to be read, a closed sink refuses what is
written.

A process ends with a code of its own choice, or by a signal.
-/

namespace LspClient

/-! ### Pipes -/

structure Pipe where
  buffer : List UInt8
  sourceClosed : Bool
  sinkClosed : Bool
  deriving Repr, Inhabited

namespace Pipe

def empty : Pipe := ⟨[], false, false⟩

def capacity : Nat := 65536

/-- Put in as many bytes as there is room for; the others are given back. -/
def offer (p : Pipe) (bytes : List UInt8) : List UInt8 × Pipe :=
  let room := capacity - p.buffer.length
  (bytes.drop room, { p with buffer := p.buffer ++ bytes.take room })

/-- Put in all bytes, whatever room there is. -/
def push (p : Pipe) (bytes : List UInt8) : Pipe := { p with buffer := p.buffer ++ bytes }

def isFull (p : Pipe) : Bool := capacity ≤ p.buffer.length

def closeSource (p : Pipe) : Pipe := { p with sourceClosed := true }

/-- What was not read is lost. -/
def closeSink (p : Pipe) : Pipe := { p with sinkClosed := true, buffer := [] }

/-- Take everything out. -/
def drain (p : Pipe) : List UInt8 × Pipe := (p.buffer, { p with buffer := [] })

end Pipe

/-! ### How processes end -/

inductive ExitStatus where
  | code (n : Nat)
  | signal (n : Nat)
  deriving DecidableEq, Repr, Inhabited

/-- The names of the signals, by their numbers. -/
def signalNames : List (Nat × String) := [
  (1, "HUP"), (2, "INT"), (3, "QUIT"), (4, "ILL"), (5, "TRAP"), (6, "ABRT"), (7, "BUS"),
  (8, "FPE"), (9, "KILL"), (10, "USR1"), (11, "SEGV"), (12, "USR2"), (13, "PIPE"), (14, "ALRM"),
  (15, "TERM"), (16, "STKFLT"), (17, "CHLD"), (18, "CONT"), (19, "STOP"), (20, "TSTP"),
  (21, "TTIN"), (22, "TTOU"), (23, "URG"), (24, "XCPU"), (25, "XFSZ"), (26, "VTALRM"),
  (27, "PROF"), (28, "WINCH"), (29, "IO"), (30, "PWR"), (31, "SYS")]

namespace ExitStatus

def isSuccess (s : ExitStatus) : Bool := s == .code 0

def message : ExitStatus → String
  | .code n => s!"exit status: {n}"
  | .signal n =>
    match signalNames.lookup n with
    | some name => s!"signal: {n} (SIG{name})"
    | none => s!"signal: {n}"

/-- The code by which a shell tells how a process ended. -/
def shellCode : ExitStatus → Nat
  | .code n => n
  | .signal n => 128 + n

end ExitStatus

/-- A process that was started: how it ended, and the signal that is to end it. -/
structure Child where
  status : Option ExitStatus
  signal : Option Nat
  deriving DecidableEq, Repr, Inhabited

namespace Child

def running : Child := ⟨none, none⟩

/-- Send a signal; the first one counts. -/
def kill (signal : Nat) (c : Child) : Child := { c with signal := c.signal.or (some signal) }

end Child

end LspClient
