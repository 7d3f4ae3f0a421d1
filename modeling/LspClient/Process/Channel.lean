import LspClient.World

/-!
# Channels

What a process reads from and writes to: a pipe, a file to be appended to, or nothing at all. A
reader waits until there is something, or nothing more to come. A writer waits for room, and is
told when nobody reads.
-/

namespace LspClient

inductive Channel where
  | pipe (i : Nat)
  | file (at_ : Location)
  | null
  deriving DecidableEq, Repr, Inhabited

namespace Channel

variable {ε : Type}

/-! ### Reading -/

/-- Take up to `limit` bytes out of a pipe; none means that it has ended. -/
def takeFrom (i limit : Nat) (w : World ε) : Option (List UInt8 × World ε) :=
  let pipe := w.pipe i
  if pipe.buffer.isEmpty then if pipe.sourceClosed then some ([], w) else none
  else some (pipe.buffer.take limit, w.onPipe i fun p => { p with buffer := p.buffer.drop limit })

def read (c : Channel) (limit : Nat) : Work ε (List UInt8) :=
  match c with
  | .pipe i => Program.wait (takeFrom i limit)
  | _ => pure []

/-- How often a channel is read before it is given up. -/
def maxReads : Nat := 1000000

def readAllFrom (c : Channel) : Nat → List (List UInt8) → Work ε (List UInt8)
  | 0, parts => pure parts.reverse.flatten
  | n + 1, parts => do
    match ← c.read Pipe.capacity with
    | [] => return parts.reverse.flatten
    | part => readAllFrom c n (part :: parts)

def readAll (c : Channel) : Work ε (List UInt8) := readAllFrom c maxReads []

/-- Take bytes up to the first newline; the flag tells whether it is there. -/
def takeLine (i : Nat) (w : World ε) : Option ((List UInt8 × Bool) × World ε) :=
  let pipe := w.pipe i
  let (line, rest) := pipe.buffer.span (· != 10)
  match rest with
  | _ :: rest => some ((line, true), w.onPipe i fun p => { p with buffer := rest })
  | [] =>
    if pipe.sourceClosed || pipe.isFull then
      some ((line, false), w.onPipe i fun p => { p with buffer := [] })
    else none

def readLineFrom (i : Nat) : Nat → List UInt8 → Work ε (List UInt8 × Bool)
  | 0, acc => pure (acc, false)
  | n + 1, acc => do
    match ← Program.wait (takeLine i) with
    | (line, true) => return (acc ++ line, true)
    | ([], false) => return (acc, false)
    | (part, false) => readLineFrom i n (acc ++ part)

/-- A line without its newline, and whether it had one. -/
def readLine (c : Channel) : Work ε (List UInt8 × Bool) :=
  match c with
  | .pipe i => readLineFrom i maxReads []
  | _ => pure ([], false)

/-! ### Writing -/

/-- Put bytes into a pipe; what is left of them, or `none` where nobody reads. -/
def offerTo (i : Nat) (bytes : List UInt8) (w : World ε) :
    Option (Option (List UInt8) × World ε) :=
  let pipe := w.pipe i
  if pipe.sinkClosed then some (none, w)
  else if pipe.isFull then none
  else
    let (rest, pipe) := pipe.offer bytes
    some (some rest, w.onPipe i fun _ => pipe)

def writePipe (i : Nat) : Nat → List UInt8 → Work ε Bool
  | _, [] => pure true
  | 0, _ => pure false
  | n + 1, bytes => do
    match ← Program.wait (offerTo i bytes) with
    | none => return false
    | some rest => writePipe i n rest

def appendTo (at_ : Location) (bytes : List UInt8) (w : World ε) : World ε :=
  match w.files.get? at_ with
  | some (.file content mode) =>
    { w with files := w.files.insert at_ (.file (content ++ bytes) mode) }
  | _ => w

/-- Write all bytes; the answer says whether somebody reads them. -/
def write (c : Channel) (bytes : List UInt8) : Work ε Bool :=
  match c with
  | .pipe i => writePipe i (bytes.length + 1) bytes
  | .file at_ => do
    Program.update (appendTo at_ bytes)
    return true
  | .null => pure true

/-! ### Closing -/

def closeSource (c : Channel) : Work ε Unit :=
  match c with
  | .pipe i => Program.update fun w => w.onPipe i Pipe.closeSource
  | _ => pure ()

def closeSink (c : Channel) : Work ε Unit :=
  match c with
  | .pipe i => Program.update fun w => w.onPipe i Pipe.closeSink
  | _ => pure ()

/-- A pipe that holds `bytes` and nothing more to come. -/
def ofBytes (bytes : List UInt8) : Work ε Channel :=
  Program.act fun w =>
    let (i, w) := w.newPipe
    (.pipe i, w.onPipe i fun p => (p.push bytes).closeSource)

end Channel

end LspClient
